import Reskin.Proofs.Text.Infix
import Reskin.Text.Lines

/-!
# Lines of composed texts

Lines are found piece by piece: a text of whole lines in front of another one adds its lines, and
lines written with a common ending are read back as they were written. A mark without a line feed
lies in a text exactly if it lies in one of its lines.

## Main definitions

* `Text.Whole`: texts of whole lines
* `Text.unlines`: lines written one after the other, each with the same ending

## Main results

* `Text.lines_append`: the lines of a text of whole lines and another text
* `Text.lines_unlines_append`, `Text.withEnding_unlines_append`: written lines, read and converted
* `Text.infix_iff_exists_line`: marks are found line by line
* `Text.lines_flatten_of_sublist`: some of the lines of a text make a text of these lines
* `Text.exists_lines_trimEnd`, `Text.exists_line_of_trimEnd_eq`: a text without its blank end has
  the same lines, up to their own blank ends
-/

namespace Reskin.Text

/-! ## Whole lines -/

/-- Empty, or ended by a line feed. -/
def Whole (t : Text) : Prop := ∀ c ∈ t.getLast?, c = '\n'

theorem whole_nil : Whole [] := by simp [Whole]

theorem whole_append_newline (t : Text) : Whole (t ++ ['\n']) := by simp [Whole]

theorem Whole.append {a b : Text} (ha : Whole a) (hb : Whole b) : Whole (a ++ b) := by
  intro c hc
  rw [List.getLast?_append] at hc
  cases hl : b.getLast? with
  | none => exact ha c (by simpa [hl] using hc)
  | some d => exact hb c (by simpa [hl] using hc)

theorem Whole.exists_eq_append {t : Text} (h : Whole t) (hne : t ≠ []) : ∃ l, t = l ++ ['\n'] := by
  obtain hnil | ⟨l, c, rfl⟩ := List.eq_nil_or_concat t
  · exact absurd hnil hne
  · rw [List.concat_eq_append] at *
    obtain rfl : c = '\n' := h c (by simp)
    exact ⟨l, rfl⟩

/-- The end of a whole text is whole. -/
theorem Whole.of_append {a b : Text} (h : Whole (a ++ b)) : Whole b :=
  fun c hc => h c (by rw [List.getLast?_append, hc]; rfl)

/-- A text without a line feed is whole only if it is empty. -/
theorem Whole.eq_nil {t : Text} (h : Whole t) (hn : '\n' ∉ t) : t = [] := by
  by_contra hne
  obtain ⟨l, rfl⟩ := h.exists_eq_append hne
  simp at hn

theorem lines_ne_nil {t : Text} (h : t ≠ []) : lines t ≠ [] := by
  intro hl
  apply h
  rw [← flatten_lines t, hl]
  rfl

/-- **Lines piece by piece**: those of whole lines stand before those of what follows. -/
theorem lines_append {a : Text} (ha : Whole a) (b : Text) :
    lines (a ++ b) = lines a ++ lines b := by
  induction a with
  | nil => rfl
  | cons c a ih =>
    by_cases hn : a = []
    · subst hn
      obtain rfl : c = '\n' := ha c (by simp)
      simp [lines]
    · have ha' : Whole a := fun d hd => ha d (by rwa [List.getLast?_cons_of_ne_nil hn])
      obtain ⟨l, ls, hl⟩ := List.exists_cons_of_ne_nil (lines_ne_nil hn)
      rw [List.cons_append, lines, lines, ih ha', hl]
      split <;> rfl

theorem lines_of_not_mem {l : Text} (h : '\n' ∉ l) (hne : l ≠ []) : lines l = [l] := by
  induction l with
  | nil => exact absurd rfl hne
  | cons c l ih =>
    rw [List.mem_cons, not_or] at h
    rw [lines, if_neg (Ne.symm h.1)]
    by_cases hl : l = []
    · simp [hl, lines]
    · simp [ih h.2 hl]

theorem lines_line {l : Text} (h : '\n' ∉ l) : lines (l ++ ['\n']) = [l ++ ['\n']] := by
  induction l with
  | nil => rfl
  | cons c l ih =>
    rw [List.mem_cons, not_or] at h
    rw [List.cons_append, lines, if_neg (Ne.symm h.1), ih h.2]

theorem lines_cons {l : Text} (h : '\n' ∉ l) (t : Text) :
    lines (l ++ '\n' :: t) = (l ++ ['\n']) :: lines t := by
  rw [List.append_cons, lines_append (whole_append_newline l), lines_line h, List.singleton_append]

/-- A line is some text without a line feed, and perhaps the line feed that ends it. -/
theorem exists_of_mem_lines {t line : Text} (h : line ∈ lines t) :
    ∃ l, '\n' ∉ l ∧ (line = l ∨ line = l ++ ['\n']) := by
  induction t generalizing line with
  | nil => simp [lines] at h
  | cons c t ih =>
    rw [lines] at h
    split at h
    · rcases List.mem_cons.1 h with rfl | h
      · exact ⟨[], by simp, .inr rfl⟩
      · exact ih h
    · next hc =>
      split at h
      · obtain rfl := List.mem_singleton.1 h
        exact ⟨[c], by simpa using Ne.symm hc, .inl rfl⟩
      · next l ls hl =>
        rcases List.mem_cons.1 h with rfl | h
        · obtain ⟨m, hm, he⟩ := ih (hl ▸ List.mem_cons_self)
          refine ⟨c :: m, by simp [hm, Ne.symm hc], ?_⟩
          rcases he with rfl | rfl <;> simp
        · exact ih (hl ▸ List.mem_cons_of_mem _ h)

theorem ne_nil_of_mem_lines {t line : Text} (h : line ∈ lines t) : line ≠ [] := by
  induction t generalizing line with
  | nil => simp [lines] at h
  | cons c t ih =>
    rw [lines] at h
    split at h
    · rcases List.mem_cons.1 h with rfl | h
      · simp
      · exact ih h
    · split at h
      · simp_all
      · next l ls hl =>
        rcases List.mem_cons.1 h with rfl | h
        · simp
        · exact ih (by simp [hl, h])

theorem lines_of_mem_lines {t line : Text} (h : line ∈ lines t) : lines line = [line] := by
  have hne := ne_nil_of_mem_lines h
  obtain ⟨l, hl, rfl | rfl⟩ := exists_of_mem_lines h
  · exact lines_of_not_mem hl hne
  · exact lines_line hl

/-- All lines but the last one are whole. -/
theorem pairwise_whole_lines (t : Text) : (lines t).Pairwise fun a _ => Whole a := by
  induction t with
  | nil => exact List.Pairwise.nil
  | cons c t ih =>
    rw [lines]
    split
    · exact List.pairwise_cons.2 ⟨fun _ _ => whole_append_newline [], ih⟩
    · split
      · exact List.pairwise_singleton _ _
      · next l ls hl =>
        rw [hl, List.pairwise_cons] at ih
        refine List.pairwise_cons.2 ⟨fun m hm => ?_, ih.2⟩
        have hne : l ≠ [] := ne_nil_of_mem_lines (t := t) (by simp [hl])
        intro d hd
        rw [List.getLast?_cons_of_ne_nil hne] at hd
        exact ih.1 m hm d hd

/-- **Some of the lines of a text** are the lines of the text they make. -/
theorem lines_flatten_of_sublist {t : Text} {ls : List Text} (h : ls.Sublist (lines t)) :
    lines ls.flatten = ls := by
  have hp := (pairwise_whole_lines t).sublist h
  have hl : ∀ l ∈ ls, lines l = [l] := fun l hm => lines_of_mem_lines (h.subset hm)
  -- from here on only the shape of the lines counts: each is one line, and all but the last whole
  clear h
  induction ls with
  | nil => rfl
  | cons l ls ih =>
    rw [List.pairwise_cons] at hp
    have ih := ih hp.2 fun m hm => hl m (List.mem_cons_of_mem _ hm)
    cases ls with
    | nil => simpa using hl l List.mem_cons_self
    | cons m ls =>
      rw [List.flatten_cons, lines_append (hp.1 m List.mem_cons_self), hl l List.mem_cons_self, ih]
      rfl

theorem infix_of_mem_lines {t line : Text} (h : line ∈ lines t) : line <:+: t := by
  conv => rhs; rw [← flatten_lines t]
  exact List.infix_of_mem_flatten h

/-- Every text is some whole lines and a rest without a line feed. -/
theorem exists_whole_append (t : Text) : ∃ a l, t = a ++ l ∧ Whole a ∧ '\n' ∉ l := by
  by_cases h : '\n' ∈ t
  · obtain ⟨r, a, hr, hn⟩ := List.eq_append_cons_of_mem (List.mem_reverse.2 h)
    refine ⟨a.reverse ++ ['\n'], r.reverse, ?_, whole_append_newline _, by simpa using hn⟩
    simpa using congrArg List.reverse hr
  · exact ⟨[], t, rfl, whole_nil, h⟩

/-! ## Written lines -/

theorem LineEnding.blank (e : LineEnding) : Blank e.text := by
  cases e <;> simp [Blank, LineEnding.text] <;> decide

theorem LineEnding.whole (e : LineEnding) : Whole e.text := by
  cases e <;> simp [Whole, LineEnding.text]

/-- What stands before the line feed of a line ending. -/
def LineEnding.lead : LineEnding → Text
  | .lf => []
  | .crlf => ['\r']

theorem LineEnding.text_eq (e : LineEnding) : e.text = e.lead ++ ['\n'] := by
  cases e <;> rfl

theorem LineEnding.newline_not_mem_lead (e : LineEnding) : '\n' ∉ e.lead := by
  cases e <;> simp [lead]

/-- The lines one after the other, each with the ending. -/
def unlines (e : LineEnding) (ls : List Text) : Text := ls.flatMap (· ++ e.text)

@[simp] theorem unlines_nil (e : LineEnding) : unlines e [] = [] := rfl

@[simp] theorem unlines_cons (e : LineEnding) (l : Text) (ls : List Text) :
    unlines e (l :: ls) = l ++ e.text ++ unlines e ls := by simp [unlines]

@[simp] theorem unlines_append (e : LineEnding) (ls ms : List Text) :
    unlines e (ls ++ ms) = unlines e ls ++ unlines e ms := by simp [unlines]

theorem whole_unlines (e : LineEnding) (ls : List Text) : Whole (unlines e ls) := by
  induction ls with
  | nil => exact whole_nil
  | cons l ls ih =>
    rw [unlines_cons]
    refine Whole.append ?_ ih
    rw [e.text_eq, ← List.append_assoc]
    exact whole_append_newline _

/-- Written lines are read back, each with its ending. -/
theorem lines_unlines_append {ls : List Text} (h : ∀ l ∈ ls, '\n' ∉ l) (e : LineEnding)
    (t : Text) : lines (unlines e ls ++ t) = ls.map (· ++ e.text) ++ lines t := by
  induction ls with
  | nil => rfl
  | cons l ls ih =>
    have hl : '\n' ∉ l ++ e.lead := by
      simp [h l List.mem_cons_self, e.newline_not_mem_lead]
    calc lines (unlines e (l :: ls) ++ t)
        = lines ((l ++ e.lead) ++ '\n' :: (unlines e ls ++ t)) := by simp [e.text_eq]
      _ = (l ++ e.text) :: lines (unlines e ls ++ t) := by rw [lines_cons hl]; simp [e.text_eq]
      _ = (l :: ls).map (· ++ e.text) ++ lines t := by
        rw [ih fun m hm => h m (List.mem_cons_of_mem _ hm)]
        rfl

theorem lines_unlines {ls : List Text} (h : ∀ l ∈ ls, '\n' ∉ l) (e : LineEnding) :
    lines (unlines e ls) = ls.map (· ++ e.text) := by
  simpa [lines] using lines_unlines_append h e []

/-- The same for one line. -/
theorem lines_line_append {l : Text} (h : '\n' ∉ l) (e : LineEnding) (t : Text) :
    lines (l ++ e.text ++ t) = (l ++ e.text) :: lines t := by
  have hl : ∀ m ∈ [l], '\n' ∉ m := by simpa using h
  simpa using lines_unlines_append hl e t

theorem withEnding_append (e : LineEnding) (a b : Text) :
    withEnding e (a ++ b) = withEnding e a ++ withEnding e b := by
  cases e <;> simp [withEnding, replace]

theorem withEnding_of_not_mem {l : Text} (h : '\n' ∉ l) (e : LineEnding) : withEnding e l = l := by
  cases e with
  | lf => rfl
  | crlf =>
    induction l with
    | nil => rfl
    | cons c l ih =>
      rw [List.mem_cons, not_or] at h
      have := ih h.2
      simp only [withEnding, replace] at this
      simp [withEnding, replace, Ne.symm h.1, this]

/-- Conversion writes the same lines with another ending. -/
theorem withEnding_unlines_append {ls : List Text} {l : Text} (h : ∀ m ∈ ls, '\n' ∉ m)
    (hl : '\n' ∉ l) (e : LineEnding) :
    withEnding e (unlines .lf ls ++ l) = unlines e ls ++ l := by
  induction ls with
  | nil => exact withEnding_of_not_mem hl e
  | cons m ms ih =>
    have hn : withEnding e LineEnding.lf.text = e.text := by cases e <;> rfl
    simp only [unlines_cons, List.append_assoc, withEnding_append] at ih ⊢
    rw [withEnding_of_not_mem (h m List.mem_cons_self), hn,
      ih fun x hx => h x (List.mem_cons_of_mem _ hx)]

/-! ## Marks line by line -/

/-- A mark without a line feed lies in a text exactly if it lies in one of its lines. -/
theorem infix_iff_exists_line {m t : Text} (hm : '\n' ∉ m) (hne : m ≠ []) :
    m <:+: t ↔ ∃ line ∈ lines t, m <:+: line := by
  constructor
  · rintro ⟨x, y, rfl⟩
    obtain ⟨a, l, rfl, ha, hl⟩ := exists_whole_append x
    by_cases hy : '\n' ∈ y
    · obtain ⟨p, q, rfl, hp⟩ := List.eq_append_cons_of_mem hy
      refine ⟨l ++ m ++ p ++ ['\n'], ?_, l, p ++ ['\n'], by simp⟩
      have : a ++ l ++ m ++ (p ++ '\n' :: q) = a ++ ((l ++ m ++ p) ++ '\n' :: q) := by simp
      rw [this, lines_append ha, lines_cons (by simp [hl, hm, hp])]
      simp
    · refine ⟨l ++ m ++ y, ?_, List.infix_append _ _ _⟩
      have : a ++ l ++ m ++ y = a ++ (l ++ m ++ y) := by simp
      rw [this, lines_append ha, lines_of_not_mem (l := l ++ m ++ y) (by simp [hl, hm, hy])
        (by simp [hne])]
      exact List.mem_append_right _ List.mem_cons_self
  · rintro ⟨line, h, hi⟩
    exact hi.trans (infix_of_mem_lines h)

/-- A mark that lies in some of the lines of a text lies in more of them. -/
theorem infix_flatten_of_sublist {m t : Text} {ls ls' : List Text} (hm : '\n' ∉ m)
    (h : ls'.Sublist ls) (hls : ls.Sublist (lines t)) (hi : m <:+: ls'.flatten) :
    m <:+: ls.flatten := by
  by_cases hne : m = []
  · exact hne ▸ List.nil_infix
  · rw [infix_iff_exists_line hm hne, lines_flatten_of_sublist (h.trans hls)] at hi
    obtain ⟨line, hline, hi⟩ := hi
    exact hi.trans (List.infix_of_mem_flatten (h.subset hline))

/-! ## Blank ends -/

/-- **Without its blank end** a text has the same lines up to the last one that is not blank. -/
theorem exists_lines_trimEnd {t : Text} (h : trimEnd t ≠ []) :
    ∃ init l w bs, lines (trimEnd t) = init ++ [l] ∧ lines t = init ++ (l ++ w) :: bs ∧
      Blank w ∧ ∀ b ∈ bs, Blank b := by
  obtain ⟨w, hw, ht⟩ := exists_trimEnd_append t
  obtain ⟨a, l, hal, ha, hl⟩ := exists_whole_append (trimEnd t)
  have hne : l ≠ [] := by
    rintro rfl
    rw [List.append_nil] at hal
    rw [hal] at h
    obtain ⟨a', rfl⟩ := ha.exists_eq_append h
    have hself : trimEnd (a' ++ ['\n']) = a' ++ ['\n'] := by rw [← hal, trimEnd_trimEnd]
    rw [trimEnd_append_blank (by decide)] at hself
    have := (trimEnd_infix_self a').length_le
    rw [hself, List.length_append, List.length_singleton] at this
    omega
  have hlines : lines (trimEnd t) = lines a ++ [l] := by
    rw [hal, lines_append ha, lines_of_not_mem hl hne]
  by_cases hn : '\n' ∈ w
  · obtain ⟨p, q, rfl, hp⟩ := List.eq_append_cons_of_mem hn
    rw [List.append_cons] at hw
    refine ⟨lines a, l, p ++ ['\n'], lines q, hlines, ?_, fun c hc => hw c ?_,
      fun b hb c hc => hw c ?_⟩
    · rw [ht, hal, List.append_assoc, lines_append ha, ← List.append_assoc l, lines_cons]
      · rw [List.append_assoc]
      · simp [hl, hp]
    · exact List.mem_append_left _ hc
    · exact List.mem_append_right _ ((infix_of_mem_lines hb).subset hc)
  · refine ⟨lines a, l, w, [], hlines, ?_, hw, by simp⟩
    rw [ht, hal, List.append_assoc, lines_append ha,
      lines_of_not_mem (l := l ++ w) (by simp [hl, hn]) (by simp [hne])]

theorem exists_line_of_mem_trimEnd {t line : Text} (h : line ∈ lines (trimEnd t)) :
    ∃ line' ∈ lines t, trimEnd line' = trimEnd line := by
  have hne : trimEnd t ≠ [] := by
    intro he
    simp [he, lines] at h
  obtain ⟨init, l, w, bs, hl, ht, hw, -⟩ := exists_lines_trimEnd hne
  rw [hl, List.mem_append, List.mem_singleton] at h
  rcases h with h | rfl
  · exact ⟨line, by simp [ht, h], rfl⟩
  · exact ⟨line ++ w, by simp [ht], trimEnd_append_of_blank hw line⟩

/-- Texts that differ in their blank ends only have the same lines up to blank ends, and perhaps
blank ones. -/
theorem exists_line_of_trimEnd_eq {t t' line : Text} (h : trimEnd t = trimEnd t')
    (hl : line ∈ lines t) : Blank line ∨ ∃ line' ∈ lines t', trimEnd line' = trimEnd line := by
  by_cases hne : trimEnd t = []
  · exact .inl fun c hc => blank_of_trimEnd_eq_nil hne c ((infix_of_mem_lines hl).subset hc)
  obtain ⟨init, l, w, bs, hlines, ht, hw, hb⟩ := exists_lines_trimEnd hne
  have up {x : Text} (hx : x ∈ lines (trimEnd t)) : ∃ line' ∈ lines t', trimEnd line' = trimEnd x :=
    exists_line_of_mem_trimEnd (h ▸ hx)
  rw [ht, List.mem_append, List.mem_cons] at hl
  rcases hl with hl | rfl | hl
  · exact .inr (up (by simp [hlines, hl]))
  · rw [trimEnd_append_of_blank hw]
    exact .inr (up (by simp [hlines]))
  · exact .inl (hb line hl)

end Reskin.Text
