import Mathlib.Data.List.Basic
import Reskin.Proofs.Text.Infix

/-!
# Splits and starts of texts

The sides of the first and of the last place of a character, and what blanks at the end of a text
do to the text that follows its start.

## Main results

* `Text.splitLast_append`, `Text.last_unique`: the sides of the last place of a character
* `Text.trim_append_cons`: blanks around a character that is not blank
* `Text.dropStart?_trimStart_append_blank`, `Text.apply_dropStart?_trimStart_append`: starts of texts
  with blanks at their end
* `Text.suffix_of_after?`: the first place of a mark is before every other
-/

namespace Reskin.Text

/-! ## Splitting -/

theorem splitFirst_append {c : Char} {l : Text} (h : c ∉ l) (r : Text) :
    splitFirst c (l ++ c :: r) = some (l, r) :=
  splitFirst_eq_some.2 ⟨rfl, h⟩

theorem splitFirst_eq_none_iff {c : Char} {t : Text} : splitFirst c t = none ↔ c ∉ t := by
  constructor
  · intro h hc
    obtain ⟨l, r, rfl, hl⟩ := List.eq_append_cons_of_mem hc
    simp [splitFirst_append hl] at h
  · intro hc
    rw [Option.eq_none_iff_forall_ne_some]
    rintro ⟨l, r⟩ h
    exact hc (by simp [(splitFirst_eq_some.1 h).1])

theorem exists_last_of_mem {c : Char} {t : Text} (h : c ∈ t) : ∃ l r, t = l ++ c :: r ∧ c ∉ r := by
  obtain ⟨x, y, he, hn⟩ := List.eq_append_cons_of_mem (List.mem_reverse.2 h)
  exact ⟨y.reverse, x.reverse, by simpa using congrArg List.reverse he, by simpa using hn⟩

theorem splitLast_of_not_mem {c : Char} {t : Text} (h : c ∉ t) : splitLast [c] t = none := by
  induction t with
  | nil => rfl
  | cons d t ih =>
    rw [List.mem_cons, not_or] at h
    simp [splitLast, ih h.2, dropStart?, h.1]

theorem splitLast_append {c : Char} (l : Text) {r : Text} (h : c ∉ r) :
    splitLast [c] (l ++ c :: r) = some (l, r) := by
  induction l with
  | nil => simp [splitLast, splitLast_of_not_mem h, dropStart?]
  | cons d l ih => simp [splitLast, ih]

/-- The last place of a character is the only one with none after it. -/
theorem last_unique {c : Char} {l r l' r' : Text} (h : l ++ c :: r = l' ++ c :: r') (hr : c ∉ r)
    (hr' : c ∉ r') : l = l' ∧ r = r' := by
  have := (splitLast_append l hr).symm.trans (h ▸ splitLast_append l' hr')
  simpa using this

theorem trimStart_append_cons {a b : Text} {c : Char} (hc : isBlank c = false) :
    trimStart (a ++ c :: b) = trimStart a ++ c :: b := by
  obtain ⟨w, hw, ha⟩ := exists_append_trimStart a
  cases hs : trimStart a with
  | nil =>
    rw [ha, hs, List.append_nil, trimStart_append_of_blank hw]
    simp [trimStart, hc]
  | cons d s =>
    have hd : isBlank d = false := head?_trimStart (t := a) (by simp [hs])
    rw [ha, hs, List.append_assoc, trimStart_append_of_blank hw]
    simp [trimStart, hd]

theorem trim_append_cons {a b : Text} {c : Char} (hc : isBlank c = false) :
    trim (a ++ c :: b) = trimStart a ++ c :: trimEnd b := by
  have hcons : trimEnd (c :: b) = c :: trimEnd b := by
    rw [← List.singleton_append, trimEnd_append]
    split
    · next h => rw [h, trimEnd_eq_self (by simpa using hc)]
    · rfl
  rw [trim, trimStart_append_cons hc, trimEnd_append, hcons, if_neg (by simp)]

/-- Blanks after a text that is more than blanks stay where they are. -/
theorem trimStart_append_of_ne_nil {w : Text} (h : trimStart w ≠ []) (b : Text) :
    trimStart (w ++ b) = trimStart w ++ b := by
  obtain ⟨v, hv, hw⟩ := exists_append_trimStart w
  obtain ⟨c, s, hs⟩ := List.exists_cons_of_ne_nil h
  have hc : isBlank c = false := head?_trimStart (t := w) (by simp [hs])
  rw [hs, hw, hs, List.append_assoc, trimStart_append_of_blank hv]
  simp [trimStart, hc]

theorem blank_of_trimStart_eq_nil {w : Text} (h : trimStart w = []) : Blank w := by
  obtain ⟨v, hv, hw⟩ := exists_append_trimStart w
  rw [hw, h, List.append_nil]
  exact hv

theorem trim_eq_nil_iff {w : Text} : trim w = [] ↔ Blank w := by
  constructor
  · intro h
    obtain ⟨v, hv, hw⟩ := exists_append_trimStart w
    rw [hw]
    exact hv.append (blank_of_trimEnd_eq_nil h)
  · intro h
    rw [trim, trimStart_of_blank h, trimEnd_nil]

/-- A text that ends in a character that is not blank, cut off before blanks. -/
theorem exists_of_append_blank {w b x y : Text} {c : Char} (hb : Blank b)
    (hc : isBlank c = false) (h : w ++ b = x ++ c :: y) : ∃ y', w = x ++ c :: y' ∧ y = y' ++ b := by
  rcases List.append_eq_append_iff.1 h with ⟨as, rfl, hbs⟩ | ⟨bs, rfl, hbs⟩
  · exact absurd (by simp [hbs]) (hb.not_mem hc)
  · cases bs with
    | nil => exact absurd (by simp [← show c :: y = b by simpa using hbs]) (hb.not_mem hc)
    | cons d bs =>
      obtain ⟨rfl, rfl⟩ := List.cons.inj hbs
      exact ⟨bs, rfl, rfl⟩

/-! ## Starts and blank ends -/

theorem dropStart?_append_start (a b t : Text) :
    dropStart? (a ++ b) t = (dropStart? a t).bind (dropStart? b) := by
  induction a generalizing t with
  | nil => rfl
  | cons m a ih =>
    cases t with
    | nil => rfl
    | cons c t =>
      by_cases h : m = c
      · simp [dropStart?, h, ih]
      · simp [dropStart?, h]

/-- Blanks after a text add nothing to what follows its start, unless they complete the start; then
nothing but blanks follows. -/
theorem dropStart?_append_blank {w : Text} (hw : Blank w) (start x : Text) :
    dropStart? start (x ++ w) = (dropStart? start x).map (· ++ w) ∨
      dropStart? start x = none ∧ ∃ r, Blank r ∧ dropStart? start (x ++ w) = some r := by
  induction start generalizing x with
  | nil => exact .inl rfl
  | cons m start ih =>
    cases x with
    | nil =>
      cases h : dropStart? (m :: start) ([] ++ w) with
      | none => exact .inl rfl
      | some r =>
        refine .inr ⟨rfl, r, fun c hc => hw c ?_, rfl⟩
        rw [← List.nil_append w, dropStart?_eq_some.1 h]
        exact List.mem_append_right _ hc
    | cons c x =>
      by_cases h : m = c
      · simpa [dropStart?, h] using ih x
      · exact .inl (by simp [dropStart?, h])

/-- The same for a text whose leading blanks are dropped first. -/
theorem dropStart?_trimStart_append_blank {w : Text} (hw : Blank w) {start : Text}
    (hne : start ≠ []) (l : Text) :
    dropStart? start (trimStart (l ++ w)) = (dropStart? start (trimStart l)).map (· ++ w) ∨
      dropStart? start (trimStart l) = none ∧
        ∃ r, Blank r ∧ dropStart? start (trimStart (l ++ w)) = some r := by
  by_cases h : trimStart l = []
  · left
    have hl := blank_of_trimStart_eq_nil h
    obtain ⟨m, start, rfl⟩ := List.exists_cons_of_ne_nil hne
    rw [h, trimStart_of_blank (hl.append hw)]
    rfl
  · rw [trimStart_append_of_ne_nil h]
    exact dropStart?_append_blank hw start _

/-- **What is read behind a start** does not depend on blanks at the end of the text, if blanks do
not count there and a start that blanks complete is worth as much as none. -/
theorem apply_dropStart?_trimStart_append {α : Type} (read : Option Text → α) {w : Text}
    (hw : Blank w) {start : Text} (hne : start ≠ [])
    (hsome : ∀ rest, read (some (rest ++ w)) = read (some rest))
    (hblank : ∀ r, Blank r → read (some r) = read none) (l : Text) :
    read (dropStart? start (trimStart (l ++ w))) = read (dropStart? start (trimStart l)) := by
  rcases dropStart?_trimStart_append_blank hw hne l with h | ⟨h, r, hr, h'⟩
  · rw [h]
    cases dropStart? start (trimStart l) with
    | none => rfl
    | some rest => exact hsome rest
  · rw [h, h']
    exact hblank r hr

/-- What follows some place of a mark ends what follows its first place. -/
theorem suffix_of_after? {mark l r tail : Text}
    (h : after? mark (l ++ mark ++ r) = some tail) : r <:+ tail := by
  induction l with
  | nil =>
    by_cases hm : mark = []
    · subst hm
      cases r with
      | nil => exact List.nil_suffix
      | cons c r => simp_all [after?, dropStart?]
    · rw [List.nil_append, after?_self hm] at h
      exact Option.some.inj h ▸ List.suffix_rfl
  | cons c l ih =>
    rw [List.cons_append, List.cons_append, after?] at h
    split at h
    · next rest hd =>
      obtain rfl := Option.some.inj h
      have he := dropStart?_eq_some.1 hd
      refine List.suffix_of_suffix_length_le ⟨c :: l ++ mark, by simp⟩
        ⟨mark, he.symm⟩ ?_
      have := congrArg List.length he
      simp only [List.length_cons, List.length_append] at this
      omega
    · exact ih h

end Reskin.Text
