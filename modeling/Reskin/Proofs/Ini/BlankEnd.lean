import Reskin.Proofs.Ini.Document

/-!
# The blank end of a text

The blanks at the end of a text are part of its last lines. If the last line that is not blank is a
line of data, they do not matter for what the text says: the same sections are read, and the same
root and character are found.

## Main definitions

* `Ini.EndsInData`: texts whose last line that is not blank is a line of data
* `Ini.Document.Agrees`: documents that say the same

## Main results

* `Text.lineEnding_trimEnd`: the line ending of a text without its blank end
* `Ini.Body.ofLines_append_blank`: blanks at the end of a body that ends in a line of data
* `Ini.Document.agrees_trimEnd`: what a text says without its blank end
-/

namespace Reskin

open Text (Blank)

namespace Text

/-- The line ending of a text with a line break ahead of its blank end. -/
theorem lineEnding_trimEnd {t : Text} (h : '\n' ∈ trimEnd t) :
    lineEnding (trimEnd t) = lineEnding t := by
  obtain ⟨w, -, ht⟩ := exists_trimEnd_append t
  obtain ⟨p, q, hpq, hp⟩ := List.eq_append_cons_of_mem h
  conv => rhs; rw [ht, hpq, List.append_assoc, List.cons_append]
  rw [hpq, lineEnding, lineEnding, splitFirst_append hp, splitFirst_append hp]

end Text

namespace Ini

/-! ## Bodies -/

namespace Pairs

theorem ofLine_congr {line line' : Text} (h : Text.trim line = Text.trim line') (n : Nat) :
    ofLine n line = ofLine n line' := by
  unfold ofLine
  simp only [h]

/-- Blanks at the end of the last line, and blank lines behind it, assign nothing. -/
theorem readLines_append_blank {l l' : Text} (h : Text.trim l = Text.trim l') {bs : List Text}
    (hb : ∀ b ∈ bs, Blank b) (n : Nat) (read : Pairs) (ls : List Text) :
    readLines n read (ls ++ l :: bs) = readLines n read (ls ++ [l']) := by
  have blank (n : Nat) (read : Pairs) : readLines n read bs = .ok read := by
    induction bs generalizing n with
    | nil => rfl
    | cons b bs ih =>
      have ho : ofLine n b = .ok none :=
        ofLine_of_gives (.nothing (.inl (hb b List.mem_cons_self))) n
      rw [readLines, ho]
      exact ih (fun b hm => hb b (List.mem_cons_of_mem _ hm)) _
  induction ls generalizing n read with
  | nil =>
    rw [List.nil_append, List.nil_append, readLines, readLines, ofLine_congr h n]
    simp only [blank]
    rfl
  | cons m ls ih =>
    rw [List.cons_append, List.cons_append, readLines, readLines]
    simp only [ih]

end Pairs

namespace Body

/-- Lines of data make one row. -/
theorem readLines_of_data {ls : List Text} (h : ∀ l ∈ ls, Line.isControl l = false)
    (data : List Text) : readLines data ls = ofData (data ++ ls.map Line.withoutBreak) := by
  induction ls generalizing data with
  | nil => simp [readLines]
  | cons l ls ih =>
    have hl : LineKind.ofLine l = .data (Line.withoutBreak l) := by
      simp [LineKind.ofLine, Line.isControl_withoutBreak, h l List.mem_cons_self]
    rw [readLines, hl]
    simp only
    rw [ih fun m hm => h m (List.mem_cons_of_mem _ hm)]
    simp

theorem ofData_eq {ls : List Text} (h : ls ≠ []) : ofData ls = match Pairs.ofLines ls with
    | .ok ps => [.content ps]
    | .error _ => [.content []] := by
  cases ls with
  | nil => exact absurd rfl h
  | cons l ls => rfl

/-- **A body that ends in a line of data** says the same without the blanks at its end. -/
theorem ofLines_append_blank {l w : Text} {bs : List Text} (hl : Line.isControl l = false)
    (hw : Blank w) (hb : ∀ b ∈ bs, Blank b) (ls : List Text) :
    ofLines (ls ++ (l ++ w) :: bs) = ofLines (ls ++ [l]) := by
  have hlw : Line.isControl (l ++ w) = false := by rw [Line.isControl_append_blank hw, hl]
  have hbs : ∀ b ∈ bs, Line.isControl b = false := fun b hm => Line.isControl_of_blank (hb b hm)
  have htrim : Text.trim (Line.withoutBreak (l ++ w)) = Text.trim (Line.withoutBreak l) := by
    rw [Line.trim_withoutBreak, Line.trim_withoutBreak, Text.trim_append_of_blank hw]
  have hblank : ∀ b ∈ bs.map Line.withoutBreak, Blank b := by
    intro b hm
    obtain ⟨b, hmem, rfl⟩ := List.mem_map.1 hm
    exact fun c hc => hb b hmem c ((Line.withoutBreak_infix_self b).subset hc)
  have hread (data : List Text) : readLines data (ls ++ (l ++ w) :: bs) =
      readLines data (ls ++ [l]) := by
    induction ls generalizing data with
    | nil =>
      rw [List.nil_append, List.nil_append, readLines_of_data (by simpa [hlw] using hbs),
        readLines_of_data (by simpa using hl), ofData_eq (by simp), ofData_eq (by simp)]
      simp only [List.map_cons, List.map_nil, Pairs.ofLines,
        Pairs.readLines_append_blank htrim hblank]
    | cons m ls ih =>
      rw [List.cons_append, List.cons_append, readLines, readLines]
      simp only [ih]
  unfold ofLines
  rw [hread]

end Body

/-! ## Documents -/

/-- The last line that is not blank is a line of data: it is neither a header nor a control line. -/
def EndsInData (t : Text) : Prop :=
  ∃ l, (Text.lines (Text.trimEnd t)).getLast? = some l ∧ Line.isHeader l = false ∧
    Line.isControl l = false

theorem chunks_of_no_header {ls : List Text} (h : ∀ l ∈ ls, Line.isHeader l = false)
    (start : Nat) : chunks start ls = [] := by
  induction ls generalizing start with
  | nil => rfl
  | cons l ls ih =>
    rw [chunks, if_neg (by simp [h l List.mem_cons_self])]
    exact ih (fun m hm => h m (List.mem_cons_of_mem _ hm)) _

/-- Chunks whose last one goes on differently without saying anything else. -/
theorem map_chunks_append {ls ls' : List Text} (h : ∀ l ∈ ls, Line.isHeader l = false)
    (h' : ∀ l ∈ ls', Line.isHeader l = false)
    (hb : ∀ pre, Body.ofLines (pre ++ ls) = Body.ofLines (pre ++ ls')) (init : List Text)
    (start : Nat) :
    (chunks start (init ++ ls)).map (fun c => (c.name, Body.ofLines c.lines)) =
      (chunks start (init ++ ls')).map fun c => (c.name, Body.ofLines c.lines) := by
  have whole {ls : List Text} (h : ∀ l ∈ ls, Line.isHeader l = false) :
      ls.takeWhile (!Line.isHeader ·) = ls :=
    List.takeWhile_eq_self_iff.2 fun l hl => by simp [h l hl]
  induction init generalizing start with
  | nil =>
    rw [List.nil_append, List.nil_append, chunks_of_no_header h, chunks_of_no_header h']
  | cons m init ih =>
    rw [List.cons_append, List.cons_append, chunks, chunks]
    split
    · rw [List.map_cons, List.map_cons, ih, List.takeWhile_append, List.takeWhile_append, whole h,
        whole h']
      congr 1
      split
      · simp only [hb, Chunk.name]
      · rfl
    · exact ih _

/-- What is read off sections beside their names, before or after later ones of a name are
dropped. -/
theorem map_firstOfEachName {α : Type} {f : Section → Text × α} (hf : ∀ s, (f s).1 = s.name)
    {ss ss' : List Section} (h : ss.map f = ss'.map f) :
    (firstOfEachName ss).map f = (firstOfEachName ss').map f := by
  have hfilter (n : Text) (ss : List Section) :
      (ss.filter (·.name ≠ n)).map f = (ss.map f).filter (·.1 ≠ n) := by
    rw [List.filter_map]
    congr 1
    exact List.filter_congr fun s _ => by simp [hf]
  -- Induction on the sections; a name drops the same later ones from both.
  induction ss generalizing ss' with
  | nil => simp_all [List.map_eq_nil_iff.1 h.symm]
  | cons s ss ih =>
    obtain ⟨s', ss', rfl, hs, hss⟩ := List.map_eq_cons_iff.1 h.symm
    have hname : s'.name = s.name := by rw [← hf, ← hf, hs]
    rw [firstOfEachName, firstOfEachName, List.map_cons, List.map_cons, hfilter, hfilter,
      ih hss.symm, hs, hname]

namespace Document

/-- **Two documents that say the same**, whatever lines their sections take. -/
structure Agrees (d d' : Document) : Prop where
  bodies : d.bodies = d'.bodies
  root : d.root = d'.root
  character : d.character = d'.character
  isFixed : d.isFixed = d'.isFixed

theorem isFixedLine_append_blank {w : Text} (hw : Blank w) (l : Text) :
    isFixedLine (l ++ w) = isFixedLine l := by
  rw [isFixedLine, isFixedLine, Line.isRemapBlendHeader, Line.isRemapBlendHeader,
    Line.isOverrideHeader_append_blank hw, Line.isBlockHeading_append_blank hw]

theorem isFixedLine_of_blank {w : Text} (hw : Blank w) : isFixedLine w = false :=
  isFixedLine_append_blank hw []

/-- **Without its blank end** a text that ends in data says the same. -/
theorem agrees_trimEnd {t : Text} (h : EndsInData t) (characters : List Character)
    (assumed : Option Character) :
    Agrees (ofText characters assumed (Text.trimEnd t)) (ofText characters assumed t) := by
  obtain ⟨l, hlast, hh, hc⟩ := h
  have hne : Text.trimEnd t ≠ [] := by
    intro he
    simp [he, Text.lines] at hlast
  obtain ⟨init, l', w, bs, hl, ht, hw, hb⟩ := Text.exists_lines_trimEnd hne
  obtain rfl : l' = l := by simpa [hl] using hlast
  have hhw : ∀ x ∈ (l' ++ w) :: bs, Line.isHeader x = false := by
    intro x hx
    rcases List.mem_cons.1 hx with rfl | hx
    · rw [Line.isHeader_append_blank hw, hh]
    · exact Line.isHeader_of_blank (hb x hx)
  have hheaders : (init ++ (l' ++ w) :: bs).filter Line.isHeader =
      (init ++ [l']).filter Line.isHeader := by
    have hnone : ((l' ++ w) :: bs).filter Line.isHeader = [] :=
      List.filter_eq_nil_iff.2 fun x hx => by simp [hhw x hx]
    rw [List.filter_append, List.filter_append, hnone]
    simp [hh]
  unfold ofText
  rw [hl, ht]
  constructor
  · have hlast : ∀ x ∈ [l'], Line.isHeader x = false := by simpa using hh
    have hchunks := map_chunks_append hlast hhw
      (fun pre => (Body.ofLines_append_blank hc hw hb pre).symm) init 0
    refine map_firstOfEachName (f := fun s => (s.name, s.body)) (fun _ => rfl) ?_
    rw [List.map_map, List.map_map]
    exact hchunks
  · simp only [ofLines, hheaders]
  · simp only [ofLines, hheaders]
  · have hbs : bs.any isFixedLine = false := by
      simpa using fun b hm => isFixedLine_of_blank (hb b hm)
    simp [ofLines, isFixedLine_append_blank hw, hbs]

end Document

end Ini

end Reskin
