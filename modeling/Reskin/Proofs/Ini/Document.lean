import Reskin.Proofs.CallGraph
import Reskin.Proofs.Ini.Body

/-!
# Sections of a text

Where a section that a document declares stands in the text: below its header, up to the next one.
Of the lines of a text in three pieces, a section whose name only the middle piece has takes its
lines from that piece and from what follows it up to the next header.

## Main results

* `Ini.mem_chunks`: where chunks stand
* `Ini.Document.get?_bodies`: the body of a name is that of the first chunk with it
* `Ini.Document.isMod_of_root`: a document with a root is that of a mod
* `Ini.Document.exists_body_of_middle`: sections that only the middle of a text has
-/

namespace Reskin.Ini

/-! ## Chunks -/

/-- The lines that follow a header belong to it up to the next header. -/
theorem mem_chunks {start : Nat} {ls : List Text} {c : Chunk} (h : c ∈ chunks start ls) :
    ∃ xs ys, ls = xs ++ c.header :: ys ∧ Line.isHeader c.header = true ∧
      c.lines = ys.takeWhile (!Line.isHeader ·) := by
  induction ls generalizing start with
  | nil => simp [chunks] at h
  | cons line ls ih =>
    rw [chunks] at h
    have later (hc : c ∈ chunks (start + 1) ls) : ∃ xs ys, line :: ls = xs ++ c.header :: ys ∧
        Line.isHeader c.header = true ∧ c.lines = ys.takeWhile (!Line.isHeader ·) := by
      obtain ⟨xs, ys, rfl, hh, hl⟩ := ih hc
      exact ⟨line :: xs, ys, rfl, hh, hl⟩
    split at h
    · next hh =>
      rcases List.mem_cons.1 h with rfl | h
      · exact ⟨[], ls, rfl, hh, rfl⟩
      · exact later h
    · exact later h

theorem exists_chunk (start : Nat) {ls : List Text} {header : Text} (h : header ∈ ls)
    (hh : Line.isHeader header = true) : ∃ c ∈ chunks start ls, c.header = header := by
  induction ls generalizing start with
  | nil => simp at h
  | cons line ls ih =>
    rw [chunks]
    rcases List.mem_cons.1 h with rfl | h
    · rw [if_pos hh]
      exact ⟨_, List.mem_cons_self, rfl⟩
    · obtain ⟨c, hc, he⟩ := ih (start + 1) h
      split
      · exact ⟨c, List.mem_cons_of_mem _ hc, he⟩
      · exact ⟨c, hc, he⟩

theorem mem_lines_of_mem_chunks {start : Nat} {ls : List Text} {c : Chunk}
    (h : c ∈ chunks start ls) : c.header ∈ ls ∧
      ∀ line ∈ c.lines, line ∈ ls ∧ Line.isHeader line = false := by
  obtain ⟨xs, ys, rfl, -, hl⟩ := mem_chunks h
  refine ⟨by simp, fun line hm => ?_⟩
  rw [hl] at hm
  have : line ∈ ys := (List.takeWhile_prefix _).subset hm
  exact ⟨by simp [this], by simpa using List.mem_takeWhile_imp hm⟩

/-! ## Bodies -/

theorem find?_firstOfEachName (n : Text) (ss : List Section) :
    (firstOfEachName ss).find? (·.name == n) = ss.find? (·.name == n) := by
  induction ss with
  | nil => rfl
  | cons s ss ih =>
    by_cases hs : s.name = n
    · simp [firstOfEachName, hs]
    · rw [firstOfEachName, List.find?_cons_of_neg (by simpa using hs),
        List.find?_cons_of_neg (by simpa using hs), List.find?_filter, ← ih]
      congr 1
      funext t
      by_cases ht : t.name = n
      · simp [ht, Ne.symm hs]
      · simp [ht]

namespace Document

variable {characters : List Character} {assumed : Option Character} {ls : List Text}

/-- **The body of a name** is that of the first chunk with the name. -/
theorem get?_bodies (n : Text) : (ofLines characters assumed ls).bodies.get? n =
    ((chunks 0 ls).find? (·.name == n)).map fun c => Body.ofLines c.lines := by
  have hs : (ofLines characters assumed ls).sections =
      firstOfEachName ((chunks 0 ls).map Chunk.toSection) := rfl
  have hf : (firstOfEachName ((chunks 0 ls).map Chunk.toSection)).find? (·.name == n) =
      ((chunks 0 ls).find? (·.name == n)).map Chunk.toSection := by
    rw [find?_firstOfEachName, List.find?_map]
    rfl
  have hb : ∀ ss : List Section, Table.get? (ss.map fun s => (s.name, s.body)) n =
      (ss.find? (·.name == n)).map (·.body) := by
    intro ss
    rw [Table.get?, List.find?_map, Option.map_map]
    rfl
  rw [bodies, hb, hs, hf, Option.map_map]
  rfl

/-- A section that a document declares, as it stands on its lines. -/
theorem exists_chunk_of_get?_bodies {n : Text} {b : Body}
    (h : (ofLines characters assumed ls).bodies.get? n = some b) :
    ∃ c ∈ chunks 0 ls, Line.sectionName c.header = n ∧ b = Body.ofLines c.lines := by
  rw [get?_bodies, Option.map_eq_some_iff] at h
  obtain ⟨c, hc, rfl⟩ := h
  exact ⟨c, List.mem_of_find?_eq_some hc, by simpa [Chunk.name] using List.find?_some hc, rfl⟩

/-- The body of a name that a document declares is read from lines. -/
theorem exists_eq_ofLines {n : Text} {b : Body}
    (h : (ofLines characters assumed ls).bodies.get? n = some b) : ∃ ms, b = Body.ofLines ms := by
  obtain ⟨c, -, -, hb⟩ := exists_chunk_of_get?_bodies h
  exact ⟨c.lines, hb⟩

/-- A name that a document declares has no blanks around it. -/
theorem trim_name {n : Text} {b : Body} (h : (ofLines characters assumed ls).bodies.get? n = some b) :
    Text.trim n = n := by
  obtain ⟨c, -, rfl, -⟩ := exists_chunk_of_get?_bodies h
  rw [Line.sectionName, Text.trim_trim]

/-- A name that a document declares has a header. -/
theorem exists_header_of_has {n : Text}
    (h : (ofLines characters assumed ls).bodies.has n = true) :
    ∃ l ∈ ls, Line.isHeader l = true ∧ Line.sectionName l = n := by
  obtain ⟨b, hb⟩ := Option.isSome_iff_exists.1 h
  obtain ⟨c, hc, hname, -⟩ := exists_chunk_of_get?_bodies hb
  obtain ⟨-, -, -, hh, -⟩ := mem_chunks hc
  exact ⟨c.header, (mem_lines_of_mem_chunks hc).1, hh, hname⟩

/-- **A root makes a mod**: the header that it stands in tells that the file is one. -/
theorem isMod_of_root (h : (ofLines characters assumed ls).root.isSome = true) :
    (ofLines characters assumed ls).isMod = true := by
  have hroot : (rootOf characters assumed (ls.filter Line.isHeader)).1.isSome = true := h
  refine List.any_eq_true.2 ?_
  unfold rootOf at hroot
  split at hroot
  · next header c hc =>
    obtain ⟨l, hl, hfind⟩ := List.exists_of_findSome?_eq_some hc
    obtain ⟨c', hc', -⟩ := Option.map_eq_some_iff.1 hfind
    have hlc : c'.isRoot l = true := by simpa using List.find?_some hc'
    have hany : characters.any (·.isRoot l) = true :=
      List.any_eq_true.2 ⟨c', List.mem_of_find?_eq_some hc', hlc⟩
    exact ⟨l, hl, by rw [isTelling, hany, Bool.true_or]⟩
  · split at hroot
    · next hasked =>
      rw [Option.isSome_map] at hroot
      obtain ⟨l, hl⟩ := Option.isSome_iff_exists.1 hroot
      refine ⟨l, List.mem_of_find?_eq_some hl, ?_⟩
      have hasked : (characters.isEmpty || assumed.isSome) = true := by simpa using hasked
      rw [isTelling, hasked, List.find?_some hl, Bool.and_true, Bool.or_true]
    · cases hroot

variable (characters assumed)

theorem exists_get?_bodies {header : Text} (h : header ∈ ls)
    (hh : Line.isHeader header = true) :
    ∃ b, (ofLines characters assumed ls).bodies.get? (Line.sectionName header) = some b := by
  obtain ⟨c, hc, he⟩ := exists_chunk 0 h hh
  rw [get?_bodies]
  cases hf : (chunks 0 ls).find? (·.name == Line.sectionName header) with
  | some c' => exact ⟨_, rfl⟩
  | none =>
    have := List.find?_eq_none.1 hf c hc
    simp [Chunk.name, he] at this

/-- A line that only the middle of three pieces has: what follows it ends with the last piece. -/
theorem exists_of_append_middle {before middle after xs ys : List Text} {l : Text}
    (he : before ++ middle ++ after = xs ++ l :: ys) (hb : l ∉ before) (ha : l ∉ after) :
    ∃ ys', ys = ys' ++ after ∧ ∀ x ∈ ys', x ∈ middle := by
  rw [List.append_assoc] at he
  rcases List.append_eq_append_iff.1 he with ⟨as, rfl, hm⟩ | ⟨bs, rfl, hm⟩
  · rcases List.append_eq_append_iff.1 hm with ⟨cs, rfl, hafter⟩ | ⟨cs, rfl, hmid⟩
    · exact absurd (by simp [hafter]) ha
    · cases cs with
      | nil =>
        rw [List.nil_append] at hmid
        exact absurd (by simp [← hmid]) ha
      | cons d cs =>
        obtain ⟨rfl, rfl⟩ := List.cons.inj hmid
        exact ⟨cs, rfl, fun x hx => by simp [hx]⟩
  · cases bs with
    | nil =>
      rw [List.nil_append] at hm
      cases middle with
      | nil => exact absurd (by simp [← show l :: ys = after by simpa using hm]) ha
      | cons d middle =>
        obtain ⟨rfl, rfl⟩ := List.cons.inj hm
        exact ⟨middle, rfl, fun x hx => by simp [hx]⟩
    | cons d bs =>
      obtain ⟨rfl, -⟩ := List.cons.inj hm
      exact absurd (by simp) hb

/-- **Sections in the middle**: a name that no header before or after the middle has belongs to a
section whose lines stand in the middle, or behind it before any header. -/
theorem exists_body_of_middle {before middle after : List Text} {header : Text}
    (h : header ∈ middle) (hh : Line.isHeader header = true)
    (hb : ∀ l ∈ before, Line.isHeader l = true → Line.sectionName l ≠ Line.sectionName header)
    (ha : ∀ l ∈ after, Line.isHeader l = true → Line.sectionName l ≠ Line.sectionName header) :
    ∃ lines, (ofLines characters assumed (before ++ middle ++ after)).bodies.get?
        (Line.sectionName header) = some (Body.ofLines lines) ∧
      ∀ l ∈ lines, Line.isHeader l = false ∧
        (l ∈ middle ∨ l ∈ after.takeWhile (!Line.isHeader ·)) := by
  have hmem : header ∈ before ++ middle ++ after := by simp [h]
  obtain ⟨b, hget⟩ := exists_get?_bodies characters assumed hmem hh
  obtain ⟨c, hc, hname, rfl⟩ := exists_chunk_of_get?_bodies hget
  refine ⟨c.lines, hget, fun l hl => ⟨(mem_lines_of_mem_chunks hc).2 l hl |>.2, ?_⟩⟩
  obtain ⟨xs, ys, he, hch, hlines⟩ := mem_chunks hc
  have hnb : c.header ∉ before := fun hm => hb _ hm hch hname
  have hna : c.header ∉ after := fun hm => ha _ hm hch hname
  obtain ⟨ys', rfl, hys⟩ := exists_of_append_middle he hnb hna
  rw [hlines, List.takeWhile_append] at hl
  split at hl
  · rcases List.mem_append.1 hl with hl | hl
    · exact .inl (hys l hl)
    · exact .inr hl
  · exact .inl (hys l ((List.takeWhile_prefix _).subset hl))

end Document

end Reskin.Ini
