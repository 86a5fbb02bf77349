import Mathlib.Data.List.TakeWhile
import Reskin.Text.Blank

/-!
# Marks inside texts, and blank ends

Where a mark can lie in a text that is put together from others: a character that the mark lacks
keeps it on one side, and blanks at an end neither hold nor complete a mark that ends in something
else.

## Main definitions

* `Text.Blank`: texts of blanks only

## Main results

* `Text.infix_append_cons`: a mark lies on one side of a character it lacks
* `Text.infix_append_left_iff`, `Text.infix_append_right_iff`: a mark lies before a text that lacks
  its last character, and after one that lacks its first
* `Text.infix_append_blank_iff`: a mark lies before the blanks at the end of a text
* `Text.exists_trimEnd_append`, `Text.trimEnd_append`: a text and its blank end
* `Text.infix_trim_iff`: trimming keeps every mark without blanks at its ends
* `Text.after?_append`: the first place of a mark
-/

namespace Reskin.Text

/-! ## Places of a mark -/

/-- A mark lies on one side of a character that it lacks. -/
theorem infix_append_cons {m a b : Text} {c : Char} (hc : c ∉ m) :
    m <:+: a ++ c :: b ↔ m <:+: a ∨ m <:+: b := by
  constructor
  · intro h
    rcases List.infix_append_iff.1 h with h | h | ⟨l, r, rfl, hl, hr⟩
    · exact .inl h
    · rcases List.infix_cons_iff.1 h with h | h
      · cases m with
        | nil => exact .inl (List.nil_infix)
        | cons d m =>
          obtain ⟨r, hr⟩ := h
          exact absurd (List.cons.inj hr).1 fun he => hc (he ▸ List.mem_cons_self)
      · exact .inr h
    · cases r with
      | nil => exact .inl (by simpa using hl.isInfix)
      | cons d r =>
        obtain ⟨t, ht⟩ := hr
        exact absurd (List.cons.inj ht).1 fun he => hc (by simp [he])
  · rintro (h | h)
    · exact List.infix_append_of_infix_left h
    · exact List.infix_append_of_infix_right (List.infix_cons h)

/-- A mark lies before a text that lacks its last character. -/
theorem infix_append_left_iff {m a b : Text} (h : ∀ c ∈ m.getLast?, c ∉ b) :
    m <:+: a ++ b ↔ m <:+: a := by
  refine ⟨fun hm => ?_, List.infix_append_of_infix_left⟩
  rcases List.eq_nil_or_concat m with rfl | ⟨m, c, rfl⟩
  · exact List.nil_infix
  · rw [List.concat_eq_append] at *
    have hb : c ∉ b := h c (by simp)
    rcases List.infix_append_iff.1 hm with hm | hm | ⟨l, r, he, hl, hr⟩
    · exact hm
    · exact absurd (hm.subset (by simp)) hb
    · rcases List.eq_nil_or_concat r with rfl | ⟨r, d, rfl⟩
      · rw [List.append_nil] at he
        exact he ▸ hl.isInfix
      · rw [List.concat_eq_append, ← List.append_assoc] at he
        have hd : c = d := by simpa using (List.append_inj' he rfl).2
        exact absurd (hr.subset (by simp [hd])) hb

/-- A mark lies after a text that lacks its first character. -/
theorem infix_append_right_iff {m a b : Text} (h : ∀ c ∈ m.head?, c ∉ a) :
    m <:+: a ++ b ↔ m <:+: b := by
  have := infix_append_left_iff (m := m.reverse) (a := b.reverse) (b := a.reverse)
    (by simpa using h)
  rwa [← List.reverse_append, List.reverse_infix, List.reverse_infix] at this

/-- A mark at the beginning of a text ends before a character that it lacks. -/
theorem prefix_of_prefix_append_cons {m a b : Text} {c : Char} (hc : c ∉ m)
    (h : m <+: a ++ c :: b) : m <+: a := by
  induction a generalizing m with
  | nil =>
    cases m with
    | nil => exact List.nil_prefix
    | cons d m =>
      obtain ⟨r, hr⟩ := h
      exact absurd (List.cons.inj hr).1 fun he => hc (he ▸ List.mem_cons_self)
  | cons d a ih =>
    cases m with
    | nil => exact List.nil_prefix
    | cons e m =>
      rw [List.cons_append, List.cons_prefix_cons] at h
      rw [List.cons_prefix_cons]
      exact ⟨h.1, ih (fun hm => hc (List.mem_cons_of_mem _ hm)) h.2⟩

theorem holds_iff_infix {mark t : Text} : holds mark t = true ↔ mark <:+: t := by
  rw [holds_iff]
  constructor <;> rintro ⟨l, r, h⟩ <;> exact ⟨l, r, h.symm⟩

/-! ## The first place of a mark -/

theorem after?_eq_none_iff {mark t : Text} : after? mark t = none ↔ ¬ mark <:+: t := by
  rw [← holds_iff_infix, holds]
  cases after? mark t <;> simp

theorem exists_of_after?_eq_some {mark t rest : Text} (h : after? mark t = some rest) :
    ∃ left, t = left ++ mark ++ rest := by
  induction t with
  | nil => exact ⟨[], by simpa using dropStart?_eq_some.1 h⟩
  | cons c t ih =>
    rw [after?] at h
    split at h
    · next hd => exact ⟨[], by simpa [← Option.some.inj h] using dropStart?_eq_some.1 hd⟩
    · obtain ⟨left, rfl⟩ := ih h
      exact ⟨c :: left, by simp⟩

/-- **First place**: what precedes a mark does not count if no mark begins there. -/
theorem after?_append {mark left : Text} (rest : Text)
    (h : ∀ a b, left = a ++ b → b ≠ [] → ¬ mark <+: b ++ rest) :
    after? mark (left ++ rest) = after? mark rest := by
  induction left with
  | nil => rfl
  | cons c left ih =>
    have hd : dropStart? mark (c :: (left ++ rest)) = none := by
      cases hd : dropStart? mark (c :: (left ++ rest)) with
      | none => rfl
      | some r =>
        exact absurd ⟨r, (dropStart?_eq_some.1 hd).symm⟩ (h [] (c :: left) rfl (by simp))
    rw [List.cons_append, after?, hd]
    exact ih fun a b he hb => h (c :: a) b (by simp [he]) hb

theorem after?_self {mark : Text} (hm : mark ≠ []) (rest : Text) :
    after? mark (mark ++ rest) = some rest := by
  obtain ⟨c, m, rfl⟩ := List.exists_cons_of_ne_nil hm
  rw [List.cons_append, after?, ← List.cons_append, dropStart?_append]

/-! ## Blanks -/

/-- Nothing but blanks. -/
def Blank (w : Text) : Prop := ∀ c ∈ w, isBlank c = true

theorem Blank.append {v w : Text} (hv : Blank v) (hw : Blank w) : Blank (v ++ w) := by
  intro c hc
  rcases List.mem_append.1 hc with hc | hc
  · exact hv c hc
  · exact hw c hc

theorem Blank.not_mem {w : Text} (h : Blank w) {c : Char} (hc : isBlank c = false) : c ∉ w :=
  fun hm => by simp [h c hm] at hc

/-- A mark that ends in something else lies before the blanks at the end of a text. -/
theorem infix_append_blank_iff {m w : Text} {c : Char} (hm : m.getLast? = some c)
    (hc : isBlank c = false) (hw : Blank w) (t : Text) : m <:+: t ++ w ↔ m <:+: t := by
  refine infix_append_left_iff ?_
  rw [hm]
  rintro d ⟨⟩
  exact hw.not_mem hc

theorem trimStart_append_of_blank {w : Text} (h : Blank w) (t : Text) :
    trimStart (w ++ t) = trimStart t :=
  List.dropWhile_append_of_pos h

theorem trimEnd_append_of_blank {w : Text} (h : Blank w) (t : Text) :
    trimEnd (t ++ w) = trimEnd t := by
  unfold trimEnd
  rw [List.reverse_append, List.dropWhile_append_of_pos fun c hc => h c (by simpa using hc)]

theorem trimStart_of_blank {w : Text} (h : Blank w) : trimStart w = [] := by
  simpa using trimStart_append_of_blank h []

theorem trimEnd_of_blank {w : Text} (h : Blank w) : trimEnd w = [] := by
  simpa using trimEnd_append_of_blank h []

/-- A text is itself without its blank end, and that end. -/
theorem exists_trimEnd_append (t : Text) : ∃ w, Blank w ∧ t = trimEnd t ++ w := by
  refine ⟨(t.reverse.takeWhile isBlank).reverse, fun c hc => ?_, ?_⟩
  · exact List.mem_takeWhile_imp (List.mem_reverse.1 hc)
  · rw [trimEnd, ← List.reverse_append, List.takeWhile_append_dropWhile, List.reverse_reverse]

theorem blank_of_trimEnd_eq_nil {t : Text} (h : trimEnd t = []) : Blank t := by
  obtain ⟨w, hw, ht⟩ := exists_trimEnd_append t
  rw [ht, h]
  exact hw

/-- What blanks at the end of a text do not change is the same for texts that differ there only. -/
theorem eq_of_trimEnd_eq {α : Type} {f : Text → α} (hf : ∀ w, Blank w → ∀ t, f (t ++ w) = f t)
    {a b : Text} (h : trimEnd a = trimEnd b) : f a = f b := by
  obtain ⟨v, hv, ha⟩ := exists_trimEnd_append a
  obtain ⟨w, hw, hb⟩ := exists_trimEnd_append b
  rw [ha, hb, hf v hv, hf w hw, h]

theorem exists_append_trimStart (t : Text) : ∃ w, Blank w ∧ t = w ++ trimStart t :=
  ⟨t.takeWhile isBlank, fun _ hc => List.mem_takeWhile_imp hc,
    (List.takeWhile_append_dropWhile).symm⟩

theorem head?_trimStart {t : Text} {c : Char} (h : (trimStart t).head? = some c) :
    isBlank c = false := by
  have := List.head?_dropWhile_not isBlank t
  unfold trimStart at h
  rw [h] at this
  simpa using this

theorem getLast?_trimEnd {t : Text} {c : Char} (h : (trimEnd t).getLast? = some c) :
    isBlank c = false := by
  rw [trimEnd, List.getLast?_reverse] at h
  exact head?_trimStart h

/-- A text that is empty or ends in something else has no blank end. -/
theorem trimEnd_eq_self {t : Text} (h : ∀ c ∈ t.getLast?, isBlank c = false) : trimEnd t = t := by
  rcases List.eq_nil_or_concat t with rfl | ⟨t, c, rfl⟩
  · rfl
  · rw [List.concat_eq_append] at *
    exact trimEnd_append_singleton (h c (by simp))

@[simp] theorem trimEnd_trimEnd (t : Text) : trimEnd (trimEnd t) = trimEnd t :=
  trimEnd_eq_self fun _ h => getLast?_trimEnd h

/-- The blank end of two texts is that of the second, unless there is nothing else in it. -/
theorem trimEnd_append (a b : Text) :
    trimEnd (a ++ b) = if trimEnd b = [] then trimEnd a else a ++ trimEnd b := by
  obtain ⟨w, hw, hb⟩ := exists_trimEnd_append b
  by_cases h : trimEnd b = []
  · rw [if_pos h, hb, h, List.nil_append, trimEnd_append_of_blank hw]
  · rw [if_neg h]
    conv => lhs; rw [hb, ← List.append_assoc, trimEnd_append_of_blank hw]
    apply trimEnd_eq_self
    intro c hc
    rw [List.getLast?_append, List.getLast?_eq_some_getLast h, Option.some_or] at hc
    exact getLast?_trimEnd ((List.getLast?_eq_some_getLast h).trans hc)

/-- What has no blank end stays in front of whatever follows. -/
theorem prefix_trimEnd_append (a b : Text) : trimEnd a <+: trimEnd (trimEnd a ++ b) := by
  rw [trimEnd_append]
  split
  · exact (trimEnd_trimEnd a).symm ▸ List.prefix_rfl
  · exact List.prefix_append _ _

theorem trimEnd_infix_self (t : Text) : trimEnd t <:+: t := by
  obtain ⟨w, -, h⟩ := exists_trimEnd_append t
  exact ⟨[], w, by simpa using h.symm⟩

theorem trimStart_infix_self (t : Text) : trimStart t <:+: t := by
  obtain ⟨w, -, h⟩ := exists_append_trimStart t
  exact ⟨w, [], by simpa using h.symm⟩

theorem trim_infix_self (t : Text) : trim t <:+: t :=
  (trimEnd_infix_self _).trans (trimStart_infix_self t)

theorem trim_append_of_blank {w : Text} (h : Blank w) (t : Text) : trim (t ++ w) = trim t := by
  unfold trim
  obtain ⟨v, hv, ht⟩ := exists_append_trimStart t
  cases hs : trimStart t with
  | nil =>
    rw [hs, List.append_nil] at ht
    rw [ht, trimStart_of_blank (hv.append h)]
  | cons c s =>
    have hc : isBlank c = false := head?_trimStart (t := t) (by simp [hs])
    have : trimStart (t ++ w) = c :: s ++ w := by
      rw [ht, List.append_assoc, trimStart_append_of_blank hv, hs]
      simp [trimStart, hc]
    rw [this, trimEnd_append_of_blank h]

theorem trim_append_blank_left {w : Text} (h : Blank w) (t : Text) : trim (w ++ t) = trim t := by
  rw [trim, trimStart_append_of_blank h, trim]

theorem trim_trimEnd (t : Text) : trim (trimEnd t) = trim t := by
  obtain ⟨w, hw, h⟩ := exists_trimEnd_append t
  conv => rhs; rw [h, trim_append_of_blank hw]

theorem trimStart_eq_self {t : Text} (h : ∀ c ∈ t.head?, isBlank c = false) : trimStart t = t := by
  cases t with
  | nil => rfl
  | cons c t => simp [trimStart, h c rfl]

/-- A text begins with the same character before and after its blank end is dropped. -/
theorem head?_trim {t : Text} (h : trim t ≠ []) : (trim t).head? = (trimStart t).head? := by
  obtain ⟨w, -, hw⟩ := exists_trimEnd_append (trimStart t)
  obtain ⟨c, s, hs⟩ := List.exists_cons_of_ne_nil h
  conv => rhs; rw [hw]
  rw [trim] at hs
  rw [trim, hs]
  rfl

theorem isBlank_of_head?_trim {t : Text} {c : Char} (h : (trim t).head? = some c) :
    isBlank c = false := by
  refine head?_trimStart (t := t) ?_
  rw [← head?_trim, h]
  rintro hn
  simp [hn] at h

@[simp] theorem trim_trim (t : Text) : trim (trim t) = trim t := by
  rw [trim, trimStart_eq_self fun c hc => isBlank_of_head?_trim hc]
  exact trimEnd_trimEnd _

/-- Trimming keeps every mark without blanks at its ends. -/
theorem infix_trim_iff {m t : Text} (hm : trim m = m) : m <:+: trim t ↔ m <:+: t := by
  have hh : ∀ c ∈ m.head?, isBlank c = false := fun c hc => isBlank_of_head?_trim (hm.symm ▸ hc)
  have hl : ∀ c ∈ m.getLast?, isBlank c = false := by
    intro c hc
    rw [← hm] at hc
    exact getLast?_trimEnd hc
  obtain ⟨v, hv, ht⟩ := exists_append_trimStart t
  obtain ⟨w, hw, hs⟩ := exists_trimEnd_append (trimStart t)
  calc m <:+: trim t
      ↔ m <:+: trim t ++ w := (infix_append_left_iff fun c hc => hw.not_mem (hl c hc)).symm
    _ ↔ m <:+: trimStart t := by rw [trim, ← hs]
    _ ↔ m <:+: v ++ trimStart t := (infix_append_right_iff fun c hc => hv.not_mem (hh c hc)).symm
    _ ↔ m <:+: t := by rw [← ht]

end Reskin.Text
