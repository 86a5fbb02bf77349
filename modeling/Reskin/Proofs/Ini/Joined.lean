import Reskin.Proofs.Ini.Readings

/-!
# Texts put together

A text that ends with a full line, and a text that begins with a header behind it. The sections of
the first text are those that it has alone, for the header ends the last of them. The sections of
the second text follow, except those named like one ahead of them, and stand as many lines further
down as the first text has.

## Main definitions

* `Ini.Section.shift`: a section some lines further down

## Main results

* `Ini.chunks_append`: the chunks of lines ahead of a header and of those that begin with it
* `Ini.Document.rootOf_append_fst`, `Ini.Document.rootOf_append_snd`: whose root and character are
  taken
* `Ini.Document.ofText_append`: the document of the whole is made of those of the two texts
-/

namespace Reskin.Ini

/-- The section where it stands with `n` more lines ahead of it. -/
def Section.shift (n : Nat) (s : Section) : Section := { s with start := n + s.start, stop := n + s.stop }

/-! ## Sections -/

/-- The number of the first line tells where the sections stand, and nothing else. -/
theorem map_toSection_chunks_add (n start : Nat) (ls : List Text) :
    (chunks (n + start) ls).map Chunk.toSection =
      ((chunks start ls).map Chunk.toSection).map (Section.shift n) := by
  induction ls generalizing start with
  | nil => rfl
  | cons l ls ih =>
    rw [chunks, chunks, Nat.add_assoc]
    split
    · rw [List.map_cons, List.map_cons, List.map_cons, ih]
      simp [Chunk.toSection, Chunk.name, Section.shift, Nat.add_assoc]
    · exact ih (start + 1)

/-- **A header ends the section ahead of it**, so lines that begin with one take nothing from the
lines ahead of them and give nothing to them. -/
theorem chunks_append {header : Text} (hh : Line.isHeader header = true) (start : Nat)
    (ls ms : List Text) : chunks start (ls ++ header :: ms) =
      chunks start ls ++ chunks (start + ls.length) (header :: ms) := by
  induction ls generalizing start with
  | nil => rfl
  | cons l ls ih =>
    have hstop : (ls ++ header :: ms).takeWhile (!Line.isHeader ·) =
        ls.takeWhile (!Line.isHeader ·) := by
      rw [List.takeWhile_append, List.takeWhile_cons_of_neg (by simp [hh]), List.append_nil]
      split
      · next hall => rw [(List.takeWhile_prefix _).eq_of_length hall]
      · rfl
    rw [List.cons_append, chunks, chunks, ih, hstop, List.length_cons,
      Nat.add_assoc, Nat.add_comm 1 ls.length]
    split <;> rfl

theorem firstOfEachName_shift (n : Nat) (ss : List Section) :
    firstOfEachName (ss.map (Section.shift n)) = (firstOfEachName ss).map (Section.shift n) := by
  induction ss with
  | nil => rfl
  | cons s ss ih =>
    rw [List.map_cons, firstOfEachName, ih, firstOfEachName, List.map_cons, List.filter_map]
    rfl

namespace Document

variable (characters : List Character) (assumed : Option Character)

/-- The sections of the whole. Line numbers of the later ones begin behind the earlier lines. -/
theorem sections_ofLines_append {header : Text} (hh : Line.isHeader header = true)
    (ls ms : List Text) : (ofLines characters assumed (ls ++ header :: ms)).sections =
      (ofLines characters assumed ls).sections ++
        ((ofLines characters assumed (header :: ms)).sections.filter fun s =>
          !(ofLines characters assumed ls).names.contains s.name).map (Section.shift ls.length) := by
  have hsections (ls : List Text) : (ofLines characters assumed ls).sections =
      firstOfEachName ((chunks 0 ls).map Chunk.toSection) := rfl
  have hname (n : Text) : n ∈ (ofLines characters assumed ls).names ↔
      n ∈ ((chunks 0 ls).map Chunk.toSection).map (·.name) := by
    rw [names, hsections, map_name_firstOfEachName, List.mem_eraseDups]
  rw [hsections, hsections, hsections, chunks_append hh, List.map_append, firstOfEachName_append,
    Nat.add_comm 0, map_toSection_chunks_add, firstOfEachName_shift, List.filter_map]
  simp only [List.contains_eq_mem, hname, ← decide_not]
  rfl

/-! ## Roots -/

theorem characterRoot?_append (hs gs : List Text) : characterRoot? characters (hs ++ gs) =
    (characterRoot? characters hs).or (characterRoot? characters gs) :=
  List.findSome?_append

/-- The character of the first headers comes first. -/
theorem rootOf_append_snd (hs gs : List Text) : (rootOf characters assumed (hs ++ gs)).2 =
    (rootOf characters assumed hs).2.or (rootOf characters assumed gs).2 := by
  have hcharacter (hs : List Text) :
      (rootOf characters assumed hs).2 = (characterRoot? characters hs).map (·.2) := by
    rw [rootOf]
    cases characterRoot? characters hs with
    | some _ => rfl
    | none => by_cases h : characters.isEmpty ∨ assumed.isSome <;> simp only [h] <;> rfl
  rw [hcharacter, hcharacter, hcharacter, characterRoot?_append, Option.map_or]

/-- **Whose root is taken**: that of the first headers with a character. Where none have one, a blend
override that counts is taken, and the first headers come first. -/
theorem rootOf_append_fst (hs gs : List Text) : (rootOf characters assumed (hs ++ gs)).1 =
    if (rootOf characters assumed hs).2.isSome then (rootOf characters assumed hs).1
    else if (rootOf characters assumed gs).2.isSome then (rootOf characters assumed gs).1
    else (rootOf characters assumed hs).1.or (rootOf characters assumed gs).1 := by
  rw [rootOf, rootOf, rootOf, characterRoot?_append]
  cases characterRoot? characters hs with
  | some _ => rfl
  | none =>
    by_cases h : characters.isEmpty ∨ assumed.isSome
    · simp only [if_pos h, List.find?_append, Option.map_or]
      cases characterRoot? characters gs <;> rfl
    · simp only [if_neg h]
      cases characterRoot? characters gs <;> rfl

/-! ## Documents -/

/-- **A document and one behind it**, which stands `n` lines further down. Of the sections of a name
the first one counts. The root of a character comes before that of an assumed one, and of two roots
of one kind the first. -/
def followedBy (p : Document) (n : Nat) (q : Document) : Document where
  sections := p.sections ++
    (q.sections.filter fun s => !p.names.contains s.name).map (Section.shift n)
  root :=
    if p.character.isSome then p.root
    else if q.character.isSome then q.root
    else p.root.or q.root
  character := p.character.or q.character
  isMod := p.isMod || q.isMod
  isFixed := p.isFixed || q.isFixed

theorem ofLines_append {header : Text} (hh : Line.isHeader header = true) (ls ms : List Text) :
    ofLines characters assumed (ls ++ header :: ms) = (ofLines characters assumed ls).followedBy
      ls.length (ofLines characters assumed (header :: ms)) := by
  rw [ofLines, followedBy, Document.mk.injEq]
  refine ⟨sections_ofLines_append characters assumed hh ls ms, ?_, ?_, ?_, List.any_append⟩
  · rw [List.filter_append, rootOf_append_fst]
    rfl
  · rw [List.filter_append, rootOf_append_snd]
    rfl
  · rw [List.filter_append, List.any_append]
    rfl

/-- **The document of two texts put together**, where the first one ends with a full line and the
second one begins with a header: the document of the first, followed by that of the second. -/
theorem ofText_append {t u header : Text} {rest : List Text} (ht : Text.Whole t)
    (hu : Text.lines u = header :: rest) (hh : Line.isHeader header = true) :
    ofText characters assumed (t ++ u) = (ofText characters assumed t).followedBy
      (Text.lines t).length (ofText characters assumed u) := by
  simp only [ofText, Text.lines_append ht, hu]
  exact ofLines_append characters assumed hh (Text.lines t) rest

/-- A text whose second section the text behind it repeats, ahead of a root of its own. -/
theorem ofText_append_repeated :
    let t := "[A]\nx = 1\n[B]\n".toList
    let u := "[B]\ny = 2\n[TextureOverrideBlend]\nhash = 3\n".toList
    Text.Whole t ∧ Line.isHeader "[B]\n".toList = true ∧
      ofText [] none (t ++ u) = (ofText [] none t).followedBy 3 (ofText [] none u) ∧
      (ofText [] none (t ++ u)).names = ["A".toList, "B".toList, "TextureOverrideBlend".toList] ∧
      (ofText [] none (t ++ u)).root = some "TextureOverrideBlend".toList := by
  intro t u
  have ht : Text.Whole t := by simp [Text.Whole, t]
  have hh : Line.isHeader "[B]\n".toList = true := by decide +kernel
  have hu : Text.lines u = "[B]\n".toList :: ["y = 2\n".toList, "[TextureOverrideBlend]\n".toList,
    "hash = 3\n".toList] := by decide +kernel
  have hlength : (Text.lines t).length = 3 := by decide +kernel
  exact ⟨ht, hh, hlength ▸ ofText_append [] none ht hu hh, by decide +kernel, by decide +kernel⟩

end Document

end Reskin.Ini
