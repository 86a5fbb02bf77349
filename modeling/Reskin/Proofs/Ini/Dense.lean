import Reskin.Proofs.Ini.BlankEnd

/-!
# What a body says

Blank lines and comments assign nothing, and an empty part of a body says nothing. Two bodies that
are the same without their empty parts have the same control lines and the same assignments at the
same places between them, hence the same values of every key. Whether a body is read from some lines
or from these lines without the idle ones makes a difference for empty parts only.

## Main definitions

* `Ini.Line.isIdle`: blank lines and comments
* `Ini.Body.dense`: a body without its empty parts
* `Ini.Body.rows`: what a body assigns between its control lines

## Main results

* `Ini.Body.valuesOf_dense`, `Ini.Body.map_rowsFrom_dense`: neither the values of a key nor the rows
  depend on empty parts
* `Ini.Body.dense_ofLines_filter`: idle lines do not matter for what a body says
-/

namespace Reskin.Ini

open Text (Blank)

/-! ## Idle lines -/

namespace Line

/-- A blank line or a comment. -/
def isIdle (line : Text) : Bool := Text.trim line == [] || isComment (Text.trim line)

theorem isIdle_congr {line line' : Text} (h : Text.trim line = Text.trim line') :
    isIdle line = isIdle line' := by
  unfold isIdle
  rw [h]

theorem isIdle_withoutBreak (line : Text) : isIdle (withoutBreak line) = isIdle line :=
  isIdle_congr (trim_withoutBreak line)

theorem isIdle_iff {line : Text} : isIdle line = true ↔ Blank line ∨ IsComment line := by
  rw [isIdle, Bool.or_eq_true, beq_iff_eq, idle_iff]

theorem isIdle_of_blank {line : Text} (h : Blank line) : isIdle line = true :=
  isIdle_iff.2 (.inl h)

theorem isIdle_comment (x : Text) : isIdle (';' :: x) = true :=
  isIdle_iff.2 (.inr ⟨[], ';', x, rfl, by simp [Blank], .inl rfl⟩)

/-- What an idle line begins with, blanks aside, if it begins with anything. -/
theorem head?_of_isIdle {line : Text} (h : isIdle line = true) {c : Char}
    (hc : (Text.trimStart line).head? = some c) : c = ';' ∨ c = '#' := by
  rcases isIdle_iff.1 h with hblank | ⟨indent, d, rest, rfl, hindent, hd⟩
  · simp [Text.trimStart_of_blank hblank] at hc
  · have hopens : isBlank d = false := by rcases hd with rfl | rfl <;> decide
    rw [Text.trimStart_append_cons hopens, Text.trimStart_of_blank hindent] at hc
    obtain rfl : d = c := by simpa using hc
    exact hd

theorem isHeader_of_isIdle {line : Text} (h : isIdle line = true) : isHeader line = false := by
  refine isHeader_eq_false fun hh => ?_
  rcases head?_of_isIdle h hh with he | he <;> revert he <;> decide

theorem isControl_of_isIdle {line : Text} (h : isIdle line = true) : isControl line = false := by
  have hwords : ∀ word ∈ controlWords, word.head? ≠ some ';' ∧ word.head? ≠ some '#' ∧
      word ≠ [] := by decide
  rw [isControl_eq, List.any_eq_false]
  intro word hw hopen
  obtain ⟨h1, h2, hne⟩ := hwords word hw
  unfold opensWith at hopen
  cases hd : Text.dropStart? word (Text.trimStart line) with
  | none => simp [hd] at hopen
  | some rest =>
    obtain ⟨c, m, rfl⟩ := List.exists_cons_of_ne_nil hne
    rw [Text.dropStart?_eq_some] at hd
    rcases head?_of_isIdle h (c := c) (by simp [hd]) with rfl | rfl
    · exact h1 rfl
    · exact h2 rfl

end Line

namespace LineKind

theorem ofLine_of_isControl {line : Text} (h : Line.isControl line = true) :
    ofLine line = .control (Line.withoutBreak line) := by
  simp [ofLine, Line.isControl_withoutBreak, h]

theorem ofLine_of_not_isControl {line : Text} (h : Line.isControl line = false) :
    ofLine line = .data (Line.withoutBreak line) := by
  simp [ofLine, Line.isControl_withoutBreak, h]

end LineKind

namespace Pairs

theorem ofLine_of_isIdle {line : Text} (h : Line.isIdle line = true) (n : Nat) :
    ofLine n line = .ok none :=
  ofLine_of_gives (.nothing (Line.isIdle_iff.1 h)) n

/-- **Idle lines assign nothing**, wherever they stand. -/
theorem toOption_readLines_filter (n m : Nat) (read : Pairs) (ls : List Text) :
    (readLines n read (ls.filter (!Line.isIdle ·))).toOption =
      (readLines m read ls).toOption := by
  induction ls generalizing n m read with
  | nil => rfl
  | cons l ls ih =>
    by_cases h : Line.isIdle l = true
    · rw [List.filter_cons_of_neg (by simp [h]), readLines, ofLine_of_isIdle h]
      exact ih n (m + 1) read
    · rw [List.filter_cons_of_pos (by simp [h])]
      rcases Line.gives_or_isFaulty l with ⟨said, hgives⟩ | hfaulty
      · rw [readLines_cons_of_gives hgives, readLines_cons_of_gives hgives]
        exact ih (n + 1) (m + 1) _
      · obtain ⟨fault, hn⟩ := hfaulty n
        obtain ⟨fault', hm⟩ := hfaulty m
        rw [readLines_cons_of_isFaulty hn, readLines_cons_of_isFaulty hm]
        rfl

end Pairs

/-! ## Dense bodies -/

namespace Body

/-- **What a body says**: its entries without the empty parts. -/
def dense (b : Body) : Body := b.filter (· ≠ .content [])

theorem dense_append (a b : Body) : dense (a ++ b) = dense a ++ dense b := by simp [dense]

@[simp] theorem dense_nil : dense [] = [] := rfl

@[simp] theorem dense_cons_control (line : Text) (b : Body) :
    dense (.control line :: b) = .control line :: dense b := rfl

@[simp] theorem dense_cons_empty (b : Body) : dense (.content [] :: b) = dense b := rfl

theorem dense_cons_content {ps : Pairs} (h : ps ≠ []) (b : Body) :
    dense (.content ps :: b) = .content ps :: dense b := by
  simp [dense, h]

theorem map_partsFrom (i j : Nat) (key : Key) (b : Body) :
    (partsFrom i b).filterMap (fun p => p.2.value? key) =
      (partsFrom j b).filterMap fun p => p.2.value? key := by
  induction b generalizing i j with
  | nil => rfl
  | cons e b ih =>
    cases e with
    | control line => exact ih (i + 1) (j + 1)
    | content ps => simp only [partsFrom, List.filterMap_cons, ih (i + 1) (j + 1)]

theorem valuesOf_eq (b : Body) (key : Key) :
    b.valuesOf key = (partsFrom 0 b).filterMap fun p => p.2.value? key := by
  rw [valuesOf, placed, List.map_filterMap]
  refine List.filterMap_congr fun p _ => ?_
  cases h : p.2.value? key <;> simp [h]

@[simp] theorem valuesOf_nil (key : Key) : valuesOf [] key = [] := rfl

@[simp] theorem valuesOf_cons_control (line : Text) (b : Body) (key : Key) :
    valuesOf (.control line :: b) key = b.valuesOf key := by
  rw [valuesOf_eq, valuesOf_eq, partsFrom, map_partsFrom 1 0]

@[simp] theorem valuesOf_cons_content (ps : Pairs) (b : Body) (key : Key) :
    valuesOf (.content ps :: b) key = (ps.value? key).toList ++ b.valuesOf key := by
  rw [valuesOf_eq, valuesOf_eq, partsFrom, List.filterMap_cons, map_partsFrom 1 0]
  cases ps.value? key <;> rfl

theorem valuesOf_append (a b : Body) (key : Key) :
    valuesOf (a ++ b) key = a.valuesOf key ++ b.valuesOf key := by
  induction a with
  | nil => rfl
  | cons e a ih => cases e <;> simp [ih]

/-- **The values of a key** do not depend on empty parts. -/
theorem valuesOf_dense (b : Body) (key : Key) : b.dense.valuesOf key = b.valuesOf key := by
  induction b with
  | nil => rfl
  | cons e b ih =>
    cases e with
    | control line => simpa using ih
    | content ps =>
      cases ps with
      | nil => simpa [Pairs.value?, Pairs.get?] using ih
      | cons p ps => simpa [dense_cons_content] using ih

theorem mem_controls {b : Body} {line : Text} : line ∈ b.controls ↔ .control line ∈ b := by
  induction b with
  | nil => simp [controls]
  | cons e b ih => cases e <;> simp [controls, ih]

theorem controls_append (a b : Body) : controls (a ++ b) = controls a ++ controls b := by
  induction a with
  | nil => rfl
  | cons e a ih => cases e <;> simp [controls, ih]

theorem controls_dense (b : Body) : b.dense.controls = b.controls := by
  induction b with
  | nil => rfl
  | cons e b ih =>
    cases e with
    | control line => simpa [controls] using ih
    | content ps =>
      cases ps with
      | nil => simpa [controls] using ih
      | cons p ps => simpa [dense_cons_content, controls] using ih

/-- The assignments ahead of, between and behind the control lines, each row with the place of its
part; places are counted from `start`. -/
def rowsFrom (start : Nat) : Body → List (Nat × Pairs)
  | [] => [(start, [])]
  | .control _ :: es => (start, []) :: rowsFrom (start + 1) es
  | .content ps :: es => (rowsFrom (start + 1) es).modifyHead fun r => (start, ps ++ r.2)

/-- **The rows of assignments** of a body, one more than it has control lines. -/
def rows (b : Body) : List (Nat × Pairs) := rowsFrom 0 b

theorem map_modifyHead_row (i : Nat) (ps : Pairs) (rs : List (Nat × Pairs)) :
    (rs.modifyHead fun r => (i, ps ++ r.2)).map (·.2) = (rs.map (·.2)).modifyHead (ps ++ ·) := by
  cases rs <;> rfl

/-- **The rows** do not depend on empty parts. -/
theorem map_rowsFrom_dense (i j : Nat) (b : Body) :
    (rowsFrom i b.dense).map (·.2) = (rowsFrom j b).map (·.2) := by
  induction b generalizing i j with
  | nil => rfl
  | cons e b ih =>
    cases e with
    | control line =>
      rw [dense_cons_control, rowsFrom, rowsFrom, List.map_cons, List.map_cons, ih (i + 1) (j + 1)]
    | content ps =>
      rw [rowsFrom, map_modifyHead_row]
      cases ps with
      | nil =>
        rw [dense_cons_empty, ih i (j + 1)]
        cases (rowsFrom (j + 1) b).map (·.2) <;> rfl
      | cons p ps =>
        rw [dense_cons_content (by simp), rowsFrom, map_modifyHead_row, ih (i + 1) (j + 1)]

/-- What a control line at the end says does not matter for the rows. -/
theorem rowsFrom_append_control (start : Nat) (es : Body) (line line' : Text) :
    rowsFrom start (es ++ [.control line]) = rowsFrom start (es ++ [.control line']) := by
  induction es generalizing start with
  | nil => rfl
  | cons e es ih => cases e <;> simp [rowsFrom, ih]

/-- What a row of data lines says: its assignments if it has no fault. -/
theorem dense_ofData (data : List Text) :
    dense (ofData data) = dense [.content ((Pairs.ofLines data).toOption.getD [])] := by
  cases data with
  | nil => rfl
  | cons d data =>
    rw [ofData_eq (by simp)]
    cases Pairs.ofLines (d :: data) <;> rfl

theorem dense_ofData_filter (data : List Text) :
    dense (ofData (data.filter (!Line.isIdle ·))) = dense (ofData data) := by
  rw [dense_ofData, dense_ofData, Pairs.ofLines, Pairs.toOption_readLines_filter 1 1]
  rfl

theorem dense_readLines_filter (data ls : List Text) :
    dense (readLines (data.filter (!Line.isIdle ·)) (ls.filter (!Line.isIdle ·))) =
      dense (readLines data ls) := by
  -- Induction on the lines; a control line ends the row of data gathered so far.
  induction ls generalizing data with
  | nil => exact dense_ofData_filter data
  | cons l ls ih =>
    by_cases h : Line.isIdle l = true
    · rw [List.filter_cons_of_neg (by simp [h]), readLines,
        LineKind.ofLine_of_not_isControl (Line.isControl_of_isIdle h), ← ih]
      simp [Line.isIdle_withoutBreak, h]
    · rw [List.filter_cons_of_pos (by simp [h]), readLines, readLines]
      by_cases hc : Line.isControl l = true
      · rw [LineKind.ofLine_of_isControl hc]
        simp only [dense_append, dense_cons_control, dense_ofData_filter]
        rw [← ih []]
        rfl
      · rw [LineKind.ofLine_of_not_isControl (by simpa using hc)]
        have := ih (data ++ [Line.withoutBreak l])
        rwa [List.filter_append,
          List.filter_cons_of_pos (by simp [Line.isIdle_withoutBreak, h])] at this

theorem dense_ofLines (ls : List Text) : dense (ofLines ls) = dense (readLines [] ls) := by
  unfold ofLines
  split
  · next h => rw [h]; rfl
  · rfl

/-- **Idle lines do not matter** for what a body says. -/
theorem dense_ofLines_filter (ls : List Text) :
    dense (ofLines (ls.filter (!Line.isIdle ·))) = dense (ofLines ls) := by
  rw [dense_ofLines, dense_ofLines]
  exact dense_readLines_filter [] ls

/-- Rows of lines that differ in idle lines only say the same. -/
theorem dense_ofLines_congr {ls ls' : List Text}
    (h : ls.filter (!Line.isIdle ·) = ls'.filter (!Line.isIdle ·)) :
    dense (ofLines ls) = dense (ofLines ls') := by
  rw [← dense_ofLines_filter ls, h, dense_ofLines_filter]

/-- Idle lines at the end of a body say nothing. -/
theorem dense_ofLines_append_idle (ls : List Text) {bs : List Text}
    (h : ∀ b ∈ bs, Line.isIdle b = true) : dense (ofLines (ls ++ bs)) = dense (ofLines ls) := by
  have hnone : bs.filter (!Line.isIdle ·) = [] :=
    List.filter_eq_nil_iff.2 fun b hb => by simp [h b hb]
  exact dense_ofLines_congr (by rw [List.filter_append, hnone, List.append_nil])

theorem dense_ofLines_of_idle {ls : List Text} (h : ∀ l ∈ ls, Line.isIdle l = true) :
    dense (ofLines ls) = [] :=
  dense_ofLines_append_idle [] h

/-- A control line ends the row of data ahead of it. -/
theorem readLines_append_control {line : Text} (h : Line.isControl line = true)
    (data pre rest : List Text) : readLines data (pre ++ line :: rest) =
      readLines data pre ++ .control (Line.withoutBreak line) :: readLines [] rest := by
  induction pre generalizing data with
  | nil =>
    simp only [List.nil_append, readLines, LineKind.ofLine_of_isControl h]
  | cons l pre ih =>
    rw [List.cons_append, readLines, readLines]
    split
    · rw [ih, List.append_assoc]
      rfl
    · exact ih _

/-- What a body with a control line says: what stands ahead of it, and what stands behind it. -/
theorem dense_ofLines_append_control {line : Text} (h : Line.isControl line = true)
    (pre rest : List Text) : dense (ofLines (pre ++ line :: rest)) =
      dense (ofLines pre) ++ .control (Line.withoutBreak line) :: dense (ofLines rest) := by
  rw [dense_ofLines, readLines_append_control h, dense_append, dense_cons_control, dense_ofLines,
    dense_ofLines]

end Body

end Reskin.Ini
