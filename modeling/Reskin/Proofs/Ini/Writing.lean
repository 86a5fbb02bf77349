import Mathlib.Data.List.DropRight
import Reskin.Proofs.Ini.Readings

/-!
# Assignments written and read again

An assignment that is written on a line of its own, behind blanks, is read again with the blanks
around its value dropped. This takes a key that a line can assign to; those with a meaning are such
keys, and so are those that have been read from a line. Of the assignments written one after the
other none is lost if their keys differ.

## Main definitions

* `Ini.Line.IsKey`: the keys that a line can assign to
* `Ini.Line.assigning`: an indented line that assigns
* `Ini.Body.Apart`: bodies in which a control line stands between any two parts

## Main results

* `Ini.Line.isKey_of_assignment?`: whatever has been read from a line can be written again
* `Ini.Line.isHeader_of_isHeader_assigning`: what has been read from a line and is written again is
  no header
* `Ini.Body.dense_ofLines_assigning`: what a row of written assignments says
-/

namespace Reskin.Ini

open Text (Blank)

theorem isComment_append {a : Text} (h : a ≠ []) (b : Text) : isComment (a ++ b) = isComment a := by
  obtain ⟨c, a, rfl⟩ := List.exists_cons_of_ne_nil h
  rw [List.cons_append]
  unfold isComment
  split <;> split <;> simp_all

/-! ## Keys -/

namespace Line

theorem withoutBreak_withoutBreak (line : Text) :
    withoutBreak (withoutBreak line) = withoutBreak line := by
  simp only [withoutBreak, List.reverse_reverse, List.dropWhile_idempotent]

/-- **A key that a line can assign to.** -/
structure IsKey (k : Text) : Prop where
  trim_eq : Text.trim k = k
  ne_nil : k ≠ []
  noEquals : '=' ∉ k
  noComment : isComment k = false
  noControl : isControl k = false

theorem IsKey.isBlank_head {k : Text} (h : IsKey k) {rest : Text} :
    ∀ c ∈ (k ++ rest).head?, isBlank c = false := by
  intro c hc
  rw [List.head?_append_of_ne_nil _ h.ne_nil] at hc
  exact Text.isBlank_of_head?_trim (h.trim_eq.symm ▸ hc)

/-- The keys with a meaning. -/
theorem isKey_text (key : Key) : IsKey key.text := by
  constructor <;> cases key <;> decide

/-- The first word of a line ends where a character stands that is part of no word. -/
theorem opensWith_append_cons {k word : Text} {c : Char} (hw : isWord c = false) (hc : c ∉ word)
    (hstart : ∀ rest, Text.trimStart (k ++ rest) = k ++ rest) (rest : Text) :
    opensWith (k ++ c :: rest) word = opensWith k word := by
  have hk : Text.trimStart k = k := by simpa using hstart []
  unfold opensWith
  rw [hstart, hk]
  cases hd : Text.dropStart? word k with
  | some r =>
    have hsplit : k ++ c :: rest = word ++ (r ++ c :: rest) := by
      rw [Text.dropStart?_eq_some.1 hd, List.append_assoc]
    rw [hsplit, Text.dropStart?_append]
    cases r with
    | nil => simp [endsWord, hw]
    | cons d r => rfl
  | none =>
    cases hd' : Text.dropStart? word (k ++ c :: rest) with
    | none => rfl
    | some r =>
      obtain ⟨s, hs⟩ := Text.prefix_of_prefix_append_cons hc ⟨r, (Text.dropStart?_eq_some.1 hd').symm⟩
      rw [← hs, Text.dropStart?_append] at hd
      simp at hd

theorem isControl_append_cons {k : Text} {c : Char} (hne : k ≠ []) (ht : Text.trim k = k)
    (hw : isWord c = false) (hc : ∀ word ∈ controlWords, c ∉ word) (rest : Text) :
    isControl (k ++ c :: rest) = isControl k := by
  have hstart (rest : Text) : Text.trimStart (k ++ rest) = k ++ rest := by
    refine Text.trimStart_eq_self fun d hd => ?_
    rw [List.head?_append_of_ne_nil _ hne] at hd
    exact Text.isBlank_of_head?_trim (ht.symm ▸ hd)
  rw [isControl_eq, isControl_eq, Bool.eq_iff_iff, List.any_eq_true, List.any_eq_true]
  refine exists_congr fun word => and_congr_right fun h => ?_
  rw [opensWith_append_cons hw (hc word h) hstart]

theorem not_mem_controlWords {c : Char} (h : isBlank c = true ∨ c = '=') :
    isWord c = false ∧ ∀ word ∈ controlWords, c ∉ word := by
  have hwords : ∀ word ∈ controlWords, word.all (!isBlank ·) = true ∧ '=' ∉ word := by decide
  rcases h with h | rfl
  · refine ⟨isWord_eq_false_of_isBlank h, fun word hw hm => ?_⟩
    have := List.all_eq_true.1 (hwords word hw).1 c hm
    simp [h] at this
  · exact ⟨by decide +kernel, fun word hw => (hwords word hw).2⟩

theorem isControl_append_blank_left {w : Text} (hw : Blank w) (l : Text) :
    isControl (w ++ l) = isControl l := by
  unfold isControl
  rw [Text.trimStart_append_of_blank hw]

/-- **Whatever has been read from a line** is a key that a line can assign to. -/
theorem isKey_of_assignment? {line k v : Text} (h : assignment? line = some (k, v)) : IsKey k := by
  obtain ⟨a, b, hab, ha, rfl, -, hne⟩ := exists_of_assignment?_withoutBreak h
  obtain ⟨u, hu, hau⟩ := Text.exists_append_trimStart a
  obtain ⟨w, hw, haw⟩ := Text.exists_trimEnd_append (Text.trimStart a)
  obtain ⟨c, rest, hc, hcr⟩ : ∃ c rest, (isBlank c = true ∨ c = '=') ∧
      w ++ '=' :: b = c :: rest := by
    cases w with
    | nil => exact ⟨'=', b, .inr rfl, rfl⟩
    | cons c w => exact ⟨c, w ++ '=' :: b, .inl (hw c List.mem_cons_self), rfl⟩
  have hline : withoutBreak line = u ++ (Text.trim a ++ c :: rest) := by
    rw [hab, ← hcr, ← List.append_assoc, ← List.append_assoc, List.append_assoc u, Text.trim, ← haw,
      ← hau]
  obtain ⟨hword, hwords⟩ := not_mem_controlWords hc
  have hcontrol : isControl (withoutBreak line) = isControl (Text.trim a) := by
    rw [hline, isControl_append_blank_left hu,
      isControl_append_cons hne (Text.trim_trim a) hword hwords]
  refine ⟨Text.trim_trim a, hne, fun hm => ha ((Text.trim_infix_self a).subset hm), ?_, ?_⟩
  · by_contra hcomment
    rw [Bool.not_eq_false] at hcomment
    have htrim : Text.trim line = Text.trim a ++ (w ++ '=' :: Text.trimEnd b) := by
      rw [← trim_withoutBreak, hab, Text.trim_append_cons (by decide), Text.trim, ← List.append_assoc,
        ← haw]
    have hidle : isIdle line = true := by
      rw [isIdle, htrim, isComment_append hne, hcomment, Bool.or_true]
    rw [assignment?, LineKind.ofLine_of_not_isControl (isControl_of_isIdle hidle)] at h
    simp [Pairs.ofLine_of_isIdle, isIdle_withoutBreak, hidle, Except.toOption] at h
  · by_contra hk
    rw [Bool.not_eq_false] at hk
    rw [isControl_withoutBreak, hk] at hcontrol
    simp [assignment?_eq_none_of_isControl hcontrol] at h

/-- An indented line that assigns. -/
def assigning (indent : Text) (p : Text × Text) : Text := indent ++ p.1 ++ [' ', '=', ' '] ++ p.2

section Assigning

variable {k : Text} (hk : IsKey k) {indent : Text} (hi : Blank indent) (v : Text)

include hk hi

theorem trimStart_assigning :
    Text.trimStart (assigning indent (k, v)) = k ++ ([' ', '=', ' '] ++ v) := by
  rw [assigning, List.append_assoc, List.append_assoc, Text.trimStart_append_of_blank hi]
  exact Text.trimStart_eq_self hk.isBlank_head

theorem isControl_assigning : isControl (assigning indent (k, v)) = false := by
  obtain ⟨hword, hwords⟩ := not_mem_controlWords (c := ' ') (.inl (by decide))
  rw [assigning, List.append_assoc, List.append_assoc, isControl_append_blank_left hi,
    List.cons_append, isControl_append_cons hk.ne_nil hk.trim_eq hword hwords, hk.noControl]

/-- **What a written assignment assigns**: the key, and the value without blanks around it. -/
theorem ofLine_assigning (n : Nat) :
    Pairs.ofLine n (assigning indent (k, v)) = .ok (some (k, Text.trim v)) := by
  have hspace : Blank [' '] := by simp [Blank]; decide
  have hsplit : assigning indent (k, v) = (indent ++ (k ++ [' '])) ++ '=' :: ([' '] ++ v) := by
    simp [assigning]
  have hkey : Text.trim (indent ++ (k ++ [' '])) = k := by
    rw [Text.trim_append_blank_left hi, Text.trim_append_of_blank hspace, hk.trim_eq]
  have hvalue : Text.trim ([' '] ++ v) = Text.trim v := Text.trim_append_blank_left hspace v
  have hequals : '=' ∉ indent ++ (k ++ [' ']) := by
    simp [hk.noEquals, hi.not_mem (c := '=') (by decide)]
  have hblank : ¬ Blank (indent ++ (k ++ [' '])) := by
    rw [← Text.trim_eq_nil_iff, hkey]
    exact hk.ne_nil
  have hcomment : ¬ IsComment ((indent ++ (k ++ [' '])) ++ '=' :: ([' '] ++ v)) := by
    rw [← isComment_trim_iff, Text.trim_append_cons (by decide), Text.trimStart_append_of_blank hi,
      Text.trimStart_eq_self hk.isBlank_head, List.append_assoc, isComment_append hk.ne_nil,
      hk.noComment]
    exact Bool.false_ne_true
  rw [hsplit, Pairs.ofLine_of_gives (.assignment hcomment hequals hblank), hkey, hvalue]

theorem assignment?_assigning : assignment? (assigning indent (k, v)) = some (k, Text.trim v) := by
  have hline := ofLine_assigning hk hi v 0
  rw [← Pairs.ofLine_congr (trim_withoutBreak _) 0] at hline
  rw [assignment?, LineKind.ofLine_of_not_isControl (isControl_assigning hk hi v)]
  simp only [hline, Except.toOption]
  rfl

theorem isHeader_assigning (hh : k.head? ≠ some '[') : isHeader (assigning indent (k, v)) = false := by
  refine isHeader_eq_false ?_
  rw [trimStart_assigning hk hi, List.head?_append_of_ne_nil _ hk.ne_nil]
  exact hh

end Assigning

/-- **An assignment that is written as it was read** opens a section only if the old line does. -/
theorem isHeader_of_isHeader_assigning {line k v indent : Text}
    (ha : assignment? line = some (k, v)) (hi : Blank indent) (hn : '\n' ∉ withoutBreak line)
    (hn' : '\n' ∉ assigning indent (k, v)) (h : isHeader (assigning indent (k, v)) = true) :
    isHeader line = true := by
  have hk := isKey_of_assignment? ha
  obtain ⟨hh, hm⟩ := (isHeader_iff_head hn').1 h
  rw [trimStart_assigning hk hi, List.head?_append_of_ne_nil _ hk.ne_nil] at hh
  rw [← isHeader_withoutBreak, isHeader_iff_head hn]
  constructor
  · obtain ⟨a, b, he, -, rfl, -, hne⟩ := exists_of_assignment?_withoutBreak ha
    rw [Text.head?_trim hne] at hh
    rw [he, Text.trimStart_append_cons (by decide), List.head?_append, hh]
    rfl
  · obtain ⟨hki, hvi⟩ := infix_of_assignment? ha
    simp only [assigning, List.mem_append] at hm
    rcases hm with ((hm | hm) | hm) | hm
    · exact absurd hm (hi.not_mem (by decide))
    · exact hki.subset hm
    · exact absurd hm (by decide)
    · exact hvi.subset hm

end Line

/-! ## Rows of assignments -/

namespace Pairs

/-- The assignments without blanks around their values. -/
def trimmed (ps : Pairs) : Pairs := ps.map fun p => (p.1, Text.trim p.2)

/-- **Written assignments are read again**, if their keys differ. -/
theorem ofLines_assigning {indent : Text} (hi : Blank indent) {ps : Pairs}
    (hk : ∀ p ∈ ps, Line.IsKey p.1) (hd : ps.Distinct) :
    ofLines ((ps.map (Line.assigning indent)).map Line.withoutBreak) = .ok ps.trimmed := by
  have hgives : List.Forall₂ Line.Gives ((ps.map (Line.assigning indent)).map Line.withoutBreak)
      (ps.trimmed.map some) := by
    simp only [trimmed, List.forall₂_map_left_iff, List.forall₂_map_right_iff, List.forall₂_same]
    intro p hp
    rw [← ofLine_eq_ok_iff (n := 1), ofLine_congr (Line.trim_withoutBreak _),
      Line.ofLine_assigning (hk p hp) hi]
  have hdistinct : ps.trimmed.Distinct := List.pairwise_map.2 hd
  have hall : (ps.trimmed.map some).reduceOption = ps.trimmed := by
    simp [List.reduceOption]
  exact ofLines_eq_ok_iff.2 ⟨_, hgives, by rw [hall, hdistinct.eraseDupsBy_eq]⟩

end Pairs

/-- What has been read has no blanks around keys and values. -/
theorem Entry.ComesFrom.trim_eq {lines : List Text} {ps : Pairs}
    (h : (Entry.content ps).ComesFrom lines) {p : Text × Text} (hp : p ∈ ps) :
    Text.trim p.1 = p.1 ∧ Text.trim p.2 = p.2 := by
  obtain ⟨line, -, ha⟩ := h.2 p.1 p.2 hp
  obtain ⟨a, b, -, -, hk, hv, -⟩ := Line.exists_of_assignment? ha
  exact ⟨by rw [hk, Text.trim_trim], by rw [hv, Text.trim_trim]⟩

namespace Body

/-- The keys of a part that has been read differ, and have no blanks around them. -/
theorem keys_of_mem_ofLines {ls : List Text} {ps : Pairs} (h : .content ps ∈ ofLines ls) :
    ps.Distinct ∧ ∀ p ∈ ps, Text.trim p.1 = p.1 := by
  have hfrom := comesFrom_of_mem_ofLines h
  exact ⟨hfrom.1, fun p hp => (hfrom.trim_eq hp).1⟩

theorem trim_of_mem_valuesOf {ls : List Text} {key : Key} {v : Text}
    (h : v ∈ (ofLines ls).valuesOf key) : Text.trim v = v := by
  obtain ⟨ps, hps, hv⟩ := mem_valuesOf.1 h
  obtain ⟨k, hm, -⟩ := Pairs.mem_of_get?_eq_some hv
  exact ((comesFrom_of_mem_ofLines hps).trim_eq hm).2

/-- **A row of written assignments** says what they assign. -/
theorem dense_ofLines_assigning {indent : Text} (hi : Blank indent) {ps : Pairs}
    (hk : ∀ p ∈ ps, Line.IsKey p.1) (hd : ps.Distinct) :
    dense (ofLines (ps.map (Line.assigning indent))) = dense [.content ps.trimmed] := by
  have hdata : ∀ l ∈ ps.map (Line.assigning indent), Line.isControl l = false := by
    intro l hl
    obtain ⟨p, hp, rfl⟩ := List.mem_map.1 hl
    exact Line.isControl_assigning (hk p hp) hi p.2
  rw [dense_ofLines, readLines_of_data hdata, List.nil_append, dense_ofData,
    Pairs.ofLines_assigning hi hk hd]
  rfl

/-! ## Parts apart -/

/-- The body does not begin with a part. -/
def StartsApart (b : Body) : Prop := ∀ ps, b.head? ≠ some (.content ps)

/-- Between any two parts of the body stands a control line. -/
def Apart : Body → Prop
  | [] => True
  | .control _ :: es => Apart es
  | .content _ :: es => StartsApart es ∧ Apart es

theorem exists_rowsFrom_eq {b : Body} (h : b.StartsApart) (i : Nat) :
    ∃ rs, rowsFrom i b = (i, []) :: rs := by
  cases b with
  | nil => exact ⟨[], rfl⟩
  | cons e b =>
    cases e with
    | control line => exact ⟨rowsFrom (i + 1) b, rfl⟩
    | content ps => exact absurd rfl (h ps)

theorem apart_ofData (data : List Text) : Apart (ofData data) := by
  unfold ofData
  split
  · trivial
  · split <;> exact ⟨by simp [StartsApart], trivial⟩

theorem apart_ofData_append_control (data : List Text) {line : Text} {b : Body} (h : Apart b) :
    Apart (ofData data ++ .control line :: b) := by
  unfold ofData
  split
  · exact h
  · split <;> exact ⟨by simp [StartsApart], h⟩

theorem apart_readLines (data ls : List Text) : Apart (readLines data ls) := by
  induction ls generalizing data with
  | nil => exact apart_ofData data
  | cons l ls ih =>
    rw [readLines]
    split
    · exact apart_ofData_append_control data (ih [])
    · exact ih _

/-- **A body that is read** has its parts apart. -/
theorem apart_ofLines (ls : List Text) : Apart (ofLines ls) := by
  unfold ofLines
  split
  · exact ⟨by simp [StartsApart], trivial⟩
  · exact apart_readLines [] ls

/-- Lines ahead of a control line, and those from it on. -/
theorem dense_ofLines_append {ms : List Text} (h : ∀ m ∈ ms.head?, Line.isControl m = true)
    (ls : List Text) : dense (ofLines (ls ++ ms)) = dense (ofLines ls) ++ dense (ofLines ms) := by
  cases ms with
  | nil => simp [dense_ofLines_of_idle]
  | cons m ms =>
    have hm : Line.isControl m = true := h m (by simp)
    have hself := dense_ofLines_append_control hm [] ms
    rw [List.nil_append] at hself
    rw [dense_ofLines_append_control hm, hself]
    rfl

end Body

end Reskin.Ini
