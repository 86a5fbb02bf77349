import Mathlib.Data.List.Forall2
import Reskin.Proofs.Ini.Dense

/-!
# What sections say

A row of lines is read header by header: a header gives a name, and the lines below it a body. Of
two texts that differ in their blank ends only, the shorter one has the same sections with the same
bodies, except that blanks behind a control line at the very end may be gone.

## Main definitions

* `Ini.Chunk.reading`, `Ini.readings`: the names of headers, each with what the lines below it say
* `Ini.Line.Alike`: lines that are read alike
* `Ini.SameEntries`, `Ini.Survives`: sections that say the same up to blanks at the end of a text

## Main results

* `Ini.readings_append`, `Ini.readings_append_idle`: the readings of lines one after the other
* `Ini.readings_of_alike`: lines that are read alike say the same
* `Ini.firstOfEachName_append`: sections behind other ones
* `Ini.forall₂_sections_trimEnd`: the sections of a text without its blank end
-/

namespace Reskin.Ini

open Text (Blank)

/-! ## Readings -/

/-- The name of a chunk and what its body says. -/
def Chunk.reading (c : Chunk) : Text × Body := (c.name, (Body.ofLines c.lines).dense)

/-- The names of the headers of a row of lines, each with what the lines below it say. -/
def readings (ls : List Text) : List (Text × Body) := (chunks 0 ls).map Chunk.reading

/-- The number of the first line does not matter for what the chunks say. -/
theorem map_reading_chunks (start : Nat) (ls : List Text) :
    (chunks start ls).map Chunk.reading = readings ls := by
  have shift (i j : Nat) : (chunks i ls).map Chunk.reading = (chunks j ls).map Chunk.reading := by
    induction ls generalizing i j with
    | nil => rfl
    | cons l ls ih =>
      rw [chunks, chunks]
      split
      · rw [List.map_cons, List.map_cons, ih (i + 1) (j + 1)]
        rfl
      · exact ih (i + 1) (j + 1)
  exact shift start 0

theorem readings_cons_header {h : Text} (hh : Line.isHeader h = true) (ls : List Text) :
    readings (h :: ls) = (Line.sectionName h,
      (Body.ofLines (ls.takeWhile (!Line.isHeader ·))).dense) :: readings ls := by
  rw [readings, chunks, if_pos hh, List.map_cons, map_reading_chunks]
  rfl

theorem readings_cons_of_not_header {l : Text} (hl : Line.isHeader l = false) (ls : List Text) :
    readings (l :: ls) = readings ls := by
  rw [readings, chunks, if_neg (by simp [hl]), map_reading_chunks]

theorem readings_of_no_header {ls : List Text} (h : ∀ l ∈ ls, Line.isHeader l = false) :
    readings ls = [] := by
  rw [readings, chunks_of_no_header h]
  rfl

/-- Blank lines and comments up to the first header. -/
def IdleStart (ls : List Text) : Prop :=
  ∀ l ∈ ls.takeWhile (!Line.isHeader ·), Line.isIdle l = true

theorem IdleStart.append {ls ms : List Text} (hl : IdleStart ls) (hm : IdleStart ms) :
    IdleStart (ls ++ ms) := by
  intro l h
  rw [List.takeWhile_append] at h
  split at h
  · next hall =>
    rcases List.mem_append.1 h with h | h
    · exact hl l (by rwa [(List.takeWhile_prefix _).eq_of_length hall])
    · exact hm l h
  · exact hl l h

theorem idleStart_of_header {l : Text} (h : Line.isHeader l = true) (ls : List Text) :
    IdleStart (l :: ls) := by
  intro x hx
  rw [List.takeWhile_cons_of_neg (by simp [h])] at hx
  simp at hx

theorem idleStart_of_idle {ls : List Text} (h : ∀ l ∈ ls, Line.isIdle l = true) : IdleStart ls :=
  fun l hl => h l ((List.takeWhile_prefix _).subset hl)

/-- **Lines one after the other** say what they say apart, if the later ones begin idly. -/
theorem readings_append (ls : List Text) {ms : List Text} (h : IdleStart ms) :
    readings (ls ++ ms) = readings ls ++ readings ms := by
  induction ls with
  | nil => rfl
  | cons l ls ih =>
    rw [List.cons_append]
    by_cases hl : Line.isHeader l = true
    · rw [readings_cons_header hl, readings_cons_header hl, ih, List.takeWhile_append]
      split
      · next hall =>
        rw [(List.takeWhile_prefix _).eq_of_length hall, Body.dense_ofLines_append_idle ls h,
          List.cons_append]
      · rfl
    · rw [Bool.not_eq_true] at hl
      rw [readings_cons_of_not_header hl, readings_cons_of_not_header hl, ih]

/-- Idle lines say nothing. -/
theorem readings_of_idle {ls : List Text} (h : ∀ l ∈ ls, Line.isIdle l = true) :
    readings ls = [] :=
  readings_of_no_header fun l hl => Line.isHeader_of_isIdle (h l hl)

/-- Nor do they say anything behind other lines. -/
theorem readings_append_idle (ls : List Text) {ms : List Text}
    (h : ∀ l ∈ ms, Line.isIdle l = true) : readings (ls ++ ms) = readings ls := by
  rw [readings_append _ (idleStart_of_idle h), readings_of_idle h, List.append_nil]

/-! ## Lines that are read alike -/

/-- **Lines that are read alike**: they are of one kind, and as headers they have one name. -/
structure Line.Alike (l l' : Text) : Prop where
  kind : LineKind.ofLine l' = LineKind.ofLine l
  header : isHeader l' = isHeader l
  name : sectionName l' = sectionName l

namespace Line

theorem Alike.refl (l : Text) : Alike l l := ⟨rfl, rfl, rfl⟩

/-- What a line is does not depend on the ending it is written with. -/
theorem alike_append_ending (e : Text.LineEnding) (l : Text) : Alike l (l ++ e.text) := by
  have hbreak : withoutBreak (l ++ e.text) = withoutBreak l := by
    cases e <;> simp [withoutBreak, Text.LineEnding.text]
  refine ⟨?_, isHeader_append_blank e.blank l, sectionName_append_blank e.blank l⟩
  rw [LineKind.ofLine, LineKind.ofLine, hbreak]

theorem forall₂_alike_map_ending (e : Text.LineEnding) (ls : List Text) :
    List.Forall₂ Alike ls (ls.map (· ++ e.text)) :=
  List.forall₂_map_right_iff.2 (List.forall₂_same.2 fun l _ => alike_append_ending e l)

theorem takeWhile_of_alike {ls ls' : List Text} (h : List.Forall₂ Alike ls ls') :
    List.Forall₂ Alike (ls.takeWhile (!isHeader ·)) (ls'.takeWhile (!isHeader ·)) := by
  induction h with
  | nil => exact .nil
  | @cons l l' ls ls' hl _ ih =>
    rw [List.takeWhile_cons, List.takeWhile_cons, hl.header]
    split
    · exact .cons hl ih
    · exact .nil

end Line

theorem Body.readLines_of_alike {ls ls' : List Text} (h : List.Forall₂ Line.Alike ls ls')
    (data : List Text) : readLines data ls' = readLines data ls := by
  induction h generalizing data with
  | nil => rfl
  | cons hl _ ih =>
    rw [readLines, readLines, hl.kind]
    split
    · rw [ih]
    · exact ih _

theorem Body.ofLines_of_alike {ls ls' : List Text} (h : List.Forall₂ Line.Alike ls ls') :
    ofLines ls' = ofLines ls := by
  rw [ofLines, ofLines, readLines_of_alike h]

theorem Body.ofLines_map_ending (e : Text.LineEnding) (ls : List Text) :
    ofLines (ls.map (· ++ e.text)) = ofLines ls :=
  ofLines_of_alike (Line.forall₂_alike_map_ending e ls)

/-- **Lines that are read alike** say the same. -/
theorem readings_of_alike {ls ls' : List Text} (h : List.Forall₂ Line.Alike ls ls') :
    readings ls' = readings ls := by
  induction h with
  | nil => rfl
  | @cons l l' ls ls' hl hls ih =>
    cases hh : Line.isHeader l with
    | true =>
      rw [readings_cons_header hh, readings_cons_header (hl.header.trans hh), ih, hl.name,
        Body.ofLines_of_alike (Line.takeWhile_of_alike hls)]
    | false =>
      rw [readings_cons_of_not_header hh, readings_cons_of_not_header (hl.header.trans hh), ih]

theorem readings_map_ending (e : Text.LineEnding) (ls : List Text) :
    readings (ls.map (· ++ e.text)) = readings ls :=
  readings_of_alike (Line.forall₂_alike_map_ending e ls)

theorem idleStart_map_ending (e : Text.LineEnding) {ls : List Text} (h : IdleStart ls) :
    IdleStart (ls.map (· ++ e.text)) := by
  intro l hl
  rw [List.takeWhile_map] at hl
  obtain ⟨m, hm, rfl⟩ := List.mem_map.1 hl
  have hheader : (fun m : Text => !Line.isHeader (m ++ e.text)) = fun m => !Line.isHeader m := by
    funext m
    rw [Line.isHeader_append_blank e.blank]
  rw [Line.isIdle_congr (Text.trim_append_of_blank e.blank m)]
  exact h m (by simpa only [Function.comp_def, hheader] using hm)

/-! ## Names of headers -/

/-- The names of the headers of a row of lines. -/
def headerNames (ls : List Text) : List Text := (ls.filter Line.isHeader).map Line.sectionName

theorem headerNames_append (ls ms : List Text) :
    headerNames (ls ++ ms) = headerNames ls ++ headerNames ms := by simp [headerNames]

theorem map_fst_readings (ls : List Text) : (readings ls).map (·.1) = headerNames ls := by
  induction ls with
  | nil => rfl
  | cons l ls ih =>
    by_cases hl : Line.isHeader l = true
    · rw [readings_cons_header hl, List.map_cons, ih, headerNames, headerNames,
        List.filter_cons_of_pos hl, List.map_cons]
    · rw [readings_cons_of_not_header (by simpa using hl), ih, headerNames, headerNames,
        List.filter_cons_of_neg hl]

/-- The blank end of a text holds no header. -/
theorem headerNames_lines_trimEnd (t : Text) :
    headerNames (Text.lines (Text.trimEnd t)) = headerNames (Text.lines t) := by
  have hnone {ls : List Text} (h : ∀ l ∈ ls, Blank l) : headerNames ls = [] := by
    rw [headerNames, List.filter_eq_nil_iff.2 fun l hl => by simp [Line.isHeader_of_blank (h l hl)]]
    rfl
  by_cases hne : Text.trimEnd t = []
  · rw [hne]
    exact (hnone fun l hl c hc =>
      Text.blank_of_trimEnd_eq_nil hne c ((Text.infix_of_mem_lines hl).subset hc)).symm
  · obtain ⟨init, l, w, bs, hlines, ht, hw, hb⟩ := Text.exists_lines_trimEnd hne
    have hl : headerNames [l ++ w] = headerNames [l] := by
      simp [headerNames, List.filter_cons, Line.isHeader_append_blank hw,
        apply_ite (List.map Line.sectionName), Line.sectionName_append_blank hw]
    rw [hlines, ht, headerNames_append, List.append_cons init, headerNames_append,
      headerNames_append, hnone hb, hl, List.append_nil]

/-! ## First sections of a name -/

theorem forall₂_firstOfEachName {R : Section → Section → Prop}
    (hR : ∀ s s', R s s' → s'.name = s.name) {ss ss' : List Section} (h : List.Forall₂ R ss ss') :
    List.Forall₂ R (firstOfEachName ss) (firstOfEachName ss') := by
  induction h with
  | nil => exact .nil
  | @cons s s' ss ss' hs _ ih =>
    refine .cons hs (List.rel_filter (fun t t' ht => ?_) ih)
    simp [hR t t' ht, hR s s' hs]

/-- **Sections behind other ones**: those that are named like one ahead of them are passed over. -/
theorem firstOfEachName_append (as bs : List Section) : firstOfEachName (as ++ bs) =
    firstOfEachName as ++ (firstOfEachName bs).filter fun s => decide (s.name ∉ as.map (·.name)) := by
  induction as with
  | nil => simp [firstOfEachName]
  | cons a as ih =>
    rw [List.cons_append, firstOfEachName, ih, List.filter_append, List.filter_filter,
      firstOfEachName, List.cons_append]
    congr 2
    refine List.filter_congr fun s _ => ?_
    simp

theorem mem_of_mem_firstOfEachName {ss : List Section} {s : Section}
    (h : s ∈ firstOfEachName ss) : s ∈ ss := by
  induction ss with
  | nil => exact h
  | cons a ss ih =>
    rcases List.mem_cons.1 h with rfl | h
    · exact List.mem_cons_self
    · exact List.mem_cons_of_mem _ (ih (List.mem_of_mem_filter h))

/-- Sections of some names only, before or after the later ones of a name are dropped. -/
theorem firstOfEachName_filter (p : Text → Bool) (ss : List Section) :
    firstOfEachName (ss.filter fun s => p s.name) =
      (firstOfEachName ss).filter fun s => p s.name := by
  induction ss with
  | nil => rfl
  | cons s ss ih =>
    cases hs : p s.name with
    | true => simp [firstOfEachName, hs, ih, List.filter_filter, Bool.and_comm]
    | false =>
      rw [List.filter_cons_of_neg (by simp [hs]), ih, firstOfEachName,
        List.filter_cons_of_neg (by simp [hs]), List.filter_filter]
      refine List.filter_congr fun t _ => ?_
      by_cases ht : t.name = s.name
      · simp [ht, hs]
      · simp [ht]

/-- The names of sections, before or after the later ones of a name are dropped. -/
theorem map_name_firstOfEachName (ss : List Section) :
    (firstOfEachName ss).map (·.name) = (ss.map (·.name)).eraseDups := by
  induction hn : ss.length using Nat.strong_induction_on generalizing ss with
  | _ n ih =>
    cases ss with
    | nil => rfl
    | cons s ss =>
      have hlen := List.length_filter_le (fun t : Section => decide (t.name ≠ s.name)) ss
      have ih := ih _ (by simp only [List.length_cons] at hn; omega) (ss.filter (·.name ≠ s.name)) rfl
      rw [firstOfEachName, List.map_cons, List.map_cons, List.eraseDups_cons,
        ← firstOfEachName_filter (fun n => decide (n ≠ s.name)), ih, List.filter_map]
      have hne : ((fun n => !n == s.name) ∘ fun t : Section => t.name) =
          fun t => decide (t.name ≠ s.name) := by
        funext t
        by_cases ht : t.name = s.name <;> simp [ht]
      rw [hne]

/-- **The names of a document** are those of the headers, each once. -/
theorem Document.names_ofLines (characters : List Character) (assumed : Option Character)
    (ls : List Text) : (ofLines characters assumed ls).names = (headerNames ls).eraseDups := by
  have hs : (ofLines characters assumed ls).sections =
      firstOfEachName ((chunks 0 ls).map Chunk.toSection) := rfl
  rw [names, hs, map_name_firstOfEachName, ← map_fst_readings, readings, List.map_map, List.map_map]
  rfl

/-- A document of which one name is read has one section. -/
theorem Document.exists_section (characters : List Character) (assumed : Option Character)
    {ls : List Text} {r : Text × Body} (h : readings ls = [r]) :
    ∃ x : Section, (ofLines characters assumed ls).sections = [x] ∧ (x.name, x.body.dense) = r := by
  obtain ⟨c, hc, rfl⟩ := List.map_eq_singleton_iff.1 h
  refine ⟨c.toSection, ?_, rfl⟩
  show firstOfEachName ((chunks 0 ls).map Chunk.toSection) = _
  rw [hc]
  rfl

/-- **What the section of a name says** is what is read first of it. -/
theorem Document.map_dense_get?_bodies (characters : List Character) (assumed : Option Character)
    (ls : List Text) (n : Text) : ((ofLines characters assumed ls).bodies.get? n).map Body.dense =
      ((readings ls).find? (·.1 == n)).map (·.2) := by
  rw [get?_bodies, readings, List.find?_map, Option.map_map, Option.map_map]
  rfl

/-! ## Blank ends -/

/-- A section has the entries of another one but for empty parts. Only if its last entry is a
control line that ends the text, blanks behind that may be gone. -/
def SameEntries (t : Text) (s s' : Section) : Prop :=
  s'.body.dense = s.body.dense ∨ ∃ es line, s.body.dense = es ++ [.control line] ∧
    s'.body.dense = es ++ [.control (Text.trimEnd line)] ∧
    s'.stop = (Text.lines t).length ∧ (Text.lines t).getLast? = some (Text.trimEnd line)

/-- **A section that survives** as one of a text: it has the same name and the same entries, and so
it runs the same sections and overrides the same assets. -/
structure Survives (t : Text) (s s' : Section) : Prop where
  name : s'.name = s.name
  entries : SameEntries t s s'
  callees : s'.body.callees = s.body.callees
  hashes : s'.body.hashes = s.body.hashes
  indices : s'.body.indices = s.body.indices

/-- Entries decide what a section refers to. -/
theorem Survives.of_entries {t : Text} {s s' : Section} (hn : s'.name = s.name)
    (he : SameEntries t s s') : Survives t s s' := by
  have hvalues (key : Key) : s'.body.valuesOf key = s.body.valuesOf key := by
    rw [← Body.valuesOf_dense, ← Body.valuesOf_dense s.body]
    rcases he with he | ⟨es, line, hs, hs', -⟩
    · rw [he]
    · simp [hs, hs', Body.valuesOf_append]
  exact ⟨hn, he, hvalues .run, by rw [Body.hashes, hvalues, Body.hashes],
    by rw [Body.indices, hvalues, Body.indices]⟩

/-- The name of a section and what its body says. -/
def Section.reading (s : Section) : Text × Body := (s.name, s.body.dense)

/-- The sections of lines say what is read of them. -/
theorem map_reading_toSection (ls : List Text) :
    ((chunks 0 ls).map Chunk.toSection).map Section.reading = readings ls := by
  rw [List.map_map]
  rfl

/-- What sections say decides what survives of them. -/
theorem forall₂_survives_of_map_reading {t : Text} {ss rs ss' : List Section}
    (he : ss.map Section.reading = rs.map Section.reading)
    (h : List.Forall₂ (Survives t) rs ss') : List.Forall₂ (Survives t) ss ss' := by
  induction h generalizing ss with
  | nil =>
    obtain rfl : ss = [] := by simpa using he
    exact .nil
  | cons hr _ ih =>
    obtain ⟨s, ss, rfl, hs, hss⟩ := List.map_eq_cons_iff.1 he
    obtain ⟨hname, hdense⟩ := Prod.mk.inj hs
    have hentries := hr.entries
    rw [SameEntries, ← hdense] at hentries
    exact .cons (.of_entries (hr.name.trans hname.symm) hentries) (ih hss)

/-- **The lines of a section** at the end of a text, with and without the blank end. -/
theorem dense_ofLines_trimmed {l w : Text} {bs : List Text} (hl : Text.trimEnd l = l)
    (hw : Blank w) (hb : ∀ b ∈ bs, Blank b) (ls : List Text) :
    (Body.ofLines (ls ++ [l])).dense = (Body.ofLines (ls ++ (l ++ w) :: bs)).dense ∨
      ∃ es line, (Body.ofLines (ls ++ (l ++ w) :: bs)).dense = es ++ [.control line] ∧
        (Body.ofLines (ls ++ [l])).dense = es ++ [.control (Text.trimEnd line)] ∧
        Text.trimEnd line = l := by
  by_cases hc : Line.isControl l = true
  · have hcw : Line.isControl (l ++ w) = true := by rw [Line.isControl_append_blank hw, hc]
    have hblank : (Body.ofLines bs).dense = [] :=
      Body.dense_ofLines_of_idle fun b hm => Line.isIdle_of_blank (hb b hm)
    have htrim {x : Text} : Text.trimEnd (Line.withoutBreak x) = Text.trimEnd x := by
      obtain ⟨v, hv, hx⟩ := Line.withoutBreak_append x
      conv => rhs; rw [hx, Text.trimEnd_append_of_blank hv]
    have hself : Line.withoutBreak l = l := by
      obtain ⟨v, hv, hx⟩ := Line.withoutBreak_append l
      have := (Text.trimEnd_infix_self (Line.withoutBreak l)).length_le
      rw [htrim, hl] at this
      have hlen := congrArg List.length hx
      rw [List.length_append] at hlen
      have hnil : v = [] := List.length_eq_zero_iff.1 (by omega)
      conv => rhs; rw [hx, hnil, List.append_nil]
    have hline : Text.trimEnd (Line.withoutBreak (l ++ w)) = l := by
      rw [htrim, Text.trimEnd_append_of_blank hw, hl]
    refine .inr ⟨(Body.ofLines ls).dense, Line.withoutBreak (l ++ w), ?_, ?_, hline⟩
    · rw [Body.dense_ofLines_append_control hcw, hblank]
    · rw [Body.dense_ofLines_append_control hc, hline, hself]
      rfl
  · rw [Bool.not_eq_true] at hc
    exact .inl (by rw [Body.ofLines_append_blank hc hw hb])

/-- The lines below a header in front of a last line: they end ahead of that line on both sides, or
on neither. -/
theorem takeWhile_trimmed {l w : Text} {bs : List Text} (hw : Blank w) (hb : ∀ b ∈ bs, Blank b)
    (ls : List Text) :
    (ls ++ (l ++ w) :: bs).takeWhile (!Line.isHeader ·) = ls.takeWhile (!Line.isHeader ·) ∧
        (ls ++ [l]).takeWhile (!Line.isHeader ·) = ls.takeWhile (!Line.isHeader ·) ∨
      (ls ++ (l ++ w) :: bs).takeWhile (!Line.isHeader ·) = ls ++ (l ++ w) :: bs ∧
        (ls ++ [l]).takeWhile (!Line.isHeader ·) = ls ++ [l] := by
  have hwhole : bs.takeWhile (!Line.isHeader ·) = bs :=
    List.takeWhile_eq_self_iff.2 fun b hm => by simp [Line.isHeader_of_blank (hb b hm)]
  have hhw : Line.isHeader (l ++ w) = Line.isHeader l := Line.isHeader_append_blank hw l
  rw [List.takeWhile_append, List.takeWhile_append]
  split
  · next hall =>
    have hself := (List.takeWhile_prefix (!Line.isHeader ·)).eq_of_length hall
    cases hh : Line.isHeader l with
    | true => simp [hh, hhw, hself]
    | false => simp [hh, hhw, hwhole]
  · exact .inl ⟨rfl, rfl⟩

/-- The section reaches to the end of the text. -/
def Section.ReachesEnd (s : Section) (t : Text) : Prop := s.stop = (Text.lines t).length

/-- Sections in front of a last line survive as sections without the blank end, and those that reach
to the end do so on both sides. -/
theorem forall₂_chunks_trimmed {t t' l w : Text} {bs : List Text} (hl : Text.trimEnd l = l)
    (hw : Blank w) (hb : ∀ b ∈ bs, Blank b) (hlast : (Text.lines t').getLast? = some l)
    (init : List Text) (i j : Nat) (hlen : (Text.lines t).length = i + init.length + 1 + bs.length)
    (hlen' : (Text.lines t').length = j + init.length + 1) :
    List.Forall₂ (fun s s' => Survives t' s s' ∧ (s'.ReachesEnd t' → s.ReachesEnd t))
      ((chunks i (init ++ (l ++ w) :: bs)).map Chunk.toSection)
      ((chunks j (init ++ [l])).map Chunk.toSection) := by
  have hbs : ∀ b ∈ bs, Line.isHeader b = false := fun b hm => Line.isHeader_of_blank (hb b hm)
  have hwhole : bs.takeWhile (!Line.isHeader ·) = bs :=
    List.takeWhile_eq_self_iff.2 fun b hm => by simp [hbs b hm]
  -- Induction on the lines in front; a header among them has the last line below it or not.
  induction init generalizing i j with
  | nil =>
    rw [List.nil_append, List.nil_append, chunks, chunks, Line.isHeader_append_blank hw,
      chunks_of_no_header hbs]
    split
    · refine .cons ⟨.of_entries (Line.sectionName_append_blank hw l).symm (.inl ?_), fun _ => ?_⟩ .nil
      · exact (Body.dense_ofLines_of_idle fun b hm =>
          Line.isIdle_of_blank (hb b ((List.takeWhile_prefix _).subset hm))).symm
      · rw [Section.ReachesEnd, hlen]
        simp [Chunk.toSection, hwhole]
    · exact .nil
  | cons m init ih =>
    rw [List.length_cons] at hlen hlen'
    have ih := ih (i + 1) (j + 1) (by omega) (by omega)
    rw [List.cons_append, List.cons_append, chunks, chunks]
    split
    · refine .cons ?_ ih
      rcases takeWhile_trimmed (l := l) hw hb init with ⟨he, he'⟩ | ⟨he, he'⟩
      · refine ⟨.of_entries rfl (.inl (by simp only [Chunk.toSection, he, he'])), fun hend => ?_⟩
        have hle := (List.takeWhile_prefix (l := init) (!Line.isHeader ·)).length_le
        simp only [Section.ReachesEnd, Chunk.toSection, he', hlen'] at hend
        omega
      · refine ⟨.of_entries rfl ?_, fun _ => ?_⟩
        · simp only [Chunk.toSection, he, he']
          rcases dense_ofLines_trimmed hl hw hb init with hd | ⟨es, line, hd, hd', ht⟩
          · exact .inl hd
          · refine .inr ⟨es, line, hd, hd', ?_, ht ▸ hlast⟩
            rw [hlen']
            simp only [List.length_append, List.length_singleton]
            omega
        · rw [Section.ReachesEnd, hlen]
          simp only [Chunk.toSection, he, List.length_append, List.length_cons]
          omega
    · exact ih

/-- **Without its blank end** a text has the same sections, and the one that reaches to its end
still does. -/
theorem forall₂_reachesEnd_trimEnd (characters : List Character) (assumed : Option Character)
    (t : Text) : List.Forall₂
      (fun s s' => Survives (Text.trimEnd t) s s' ∧ (s'.ReachesEnd (Text.trimEnd t) → s.ReachesEnd t))
      (Document.ofText characters assumed t).sections
      (Document.ofText characters assumed (Text.trimEnd t)).sections := by
  refine forall₂_firstOfEachName (fun _ _ h => h.1.name) ?_
  by_cases hne : Text.trimEnd t = []
  · have hblank : ∀ l ∈ Text.lines t, Line.isHeader l = false := fun l hl =>
      Line.isHeader_of_blank fun c hc =>
        Text.blank_of_trimEnd_eq_nil hne c ((Text.infix_of_mem_lines hl).subset hc)
    rw [hne, chunks_of_no_header hblank]
    exact .nil
  · obtain ⟨init, l, w, bs, hlines, ht, hw, hb⟩ := Text.exists_lines_trimEnd hne
    have hl : Text.trimEnd l = l := by
      refine Text.trimEnd_eq_self fun c hc => ?_
      have hflat := Text.flatten_lines (Text.trimEnd t)
      refine Text.getLast?_trimEnd (t := t) ?_
      rw [← hflat, hlines, List.flatten_append, List.getLast?_append]
      simpa using .inl hc
    have hlast : (Text.lines (Text.trimEnd t)).getLast? = some l := by simp [hlines]
    have hlen : (Text.lines t).length = 0 + init.length + 1 + bs.length := by
      rw [ht, List.length_append, List.length_cons]
      omega
    have hchunks := forall₂_chunks_trimmed hl hw hb hlast init 0 0 hlen (by simp [hlines])
    rwa [← ht, ← hlines] at hchunks

/-- **Without its blank end** a text has the same sections. -/
theorem forall₂_sections_trimEnd (characters : List Character) (assumed : Option Character)
    (t : Text) : List.Forall₂ (Survives (Text.trimEnd t))
      (Document.ofText characters assumed t).sections
      (Document.ofText characters assumed (Text.trimEnd t)).sections :=
  (forall₂_reachesEnd_trimEnd characters assumed t).imp fun _ _ h => h.1

end Reskin.Ini
