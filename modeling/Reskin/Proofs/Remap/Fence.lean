import Mathlib.Data.List.Infix
import Reskin.Proofs.Ini.Line
import Reskin.Remap.Fence

/-!
# Where fences are

A heading lies on one line, at any place of it; a fence is a heading and the first closing rule
after it. Headings and rules have no line feed and no blank at either end, so they lie in the same
places of a text whatever its blank ends are. Cutting takes nothing where no fence begins.

## Main definitions

* `Remap.Fence.Style.heading`, `Remap.Fence.Style.closing`: headings, and the shortest closing rule
* `Remap.Fence.HoldsHeading`: texts with a heading on some line
* `Remap.Fence.FenceFree`: texts without any heading or rule

## Main results

* `Remap.Fence.mem_afterHeading`: what follows a heading
* `Remap.Fence.after?_eq_none_iff`: where no fence begins
* `Remap.Fence.after?_block`: the fence that a block between a heading and a closing rule is
* `Remap.Fence.cut_append`, `Remap.Fence.cut_of_after?`, `Remap.Fence.cut_eq_self_iff`: cutting
* `Remap.Fence.fence_induction`, `Remap.Fence.exists_first_fence`: texts, fence by fence
-/

namespace Reskin.Remap.Fence

open Ini.Line (blockDashes headingStart headingEnd)

/-! ## Headings and rules -/

namespace Style

/-- The heading around a title. -/
def heading (s : Style) (title : Text) : Text := headingStart ++ title ++ headingEnd s.words

/-- The shortest rule that closes a fence. -/
def closing (s : Style) : Text := ';' :: ' ' :: Text.rule s.rule '-'

end Style

/-- Some line of the text has a heading in it. -/
def HoldsHeading (s : Style) (t : Text) : Prop :=
  ∃ line ∈ Text.lines t, ∃ title, s.heading title <:+: line

/-- The shortest rule that closes any fence. -/
def shortestRule : Text := ';' :: ' ' :: Text.rule 37 '-'

/-- No line of the text has a rule in it. -/
def RuleFree (t : Text) : Prop := ∀ line ∈ Text.lines t, ¬ shortestRule <:+: line

/-- **Free of fences**: no line has a heading or a rule in it, wherever on the line. -/
structure FenceFree (t : Text) : Prop where
  noHeading : ∀ s ∈ styles, ¬ HoldsHeading s t
  noRule : RuleFree t

theorem newline_not_mem_headingStart : '\n' ∉ headingStart := by decide

theorem newline_not_mem_headingEnd {s : Style} (hs : s ∈ styles) : '\n' ∉ headingEnd s.words := by
  revert s
  decide

theorem semicolon_not_mem_headingEnd {s : Style} (hs : s ∈ styles) : ';' ∉ headingEnd s.words := by
  revert s
  decide

theorem newline_not_mem_closing (s : Style) : '\n' ∉ s.closing := by
  simp [Style.closing, Text.rule, List.mem_replicate]

theorem newline_not_mem_shortestRule : '\n' ∉ shortestRule := by decide

theorem newline_not_mem_heading {s : Style} (hs : s ∈ styles) {title : Text} (ht : '\n' ∉ title) :
    '\n' ∉ s.heading title := by
  simp [Style.heading, newline_not_mem_headingStart, newline_not_mem_headingEnd hs, ht]

theorem heading_ne_nil (s : Style) (title : Text) : s.heading title ≠ [] := by
  simp [Style.heading, headingStart]

theorem getLast?_closing {s : Style} (hs : s ∈ styles) : s.closing.getLast? = some '-' := by
  revert s
  decide +kernel

theorem getLast?_heading (s : Style) (title : Text) : (s.heading title).getLast? = some '-' := by
  rw [Style.heading, List.getLast?_append, Ini.Line.getLast?_headingEnd, Option.some_or]

/-- Every closing rule begins with the shortest one. -/
theorem shortestRule_prefix_closing {s : Style} (hs : s ∈ styles) : shortestRule <+: s.closing := by
  simp only [styles, List.mem_cons, List.not_mem_nil, or_false] at hs
  rcases hs with rfl | rfl
  · exact ⟨Text.rule 3 '-', by decide⟩
  · exact List.prefix_rfl

/-- A heading may lie anywhere in the text, but on one line. -/
theorem holdsHeading_iff {s : Style} (hs : s ∈ styles) {t : Text} :
    HoldsHeading s t ↔ ∃ title, '\n' ∉ title ∧ s.heading title <:+: t := by
  constructor
  · rintro ⟨line, hline, title, hi⟩
    refine ⟨title, fun hn => ?_, hi.trans (Text.infix_of_mem_lines hline)⟩
    obtain ⟨l, hl, he⟩ := Text.exists_of_mem_lines hline
    have hm : '\n' ∈ s.heading title := by simp [Style.heading, hn]
    rcases he with rfl | rfl
    · exact hl (hi.subset hm)
    · have hb : Text.Blank ['\n'] := Text.LineEnding.blank .lf
      rw [Text.infix_append_blank_iff (getLast?_heading s title) (by decide) hb] at hi
      exact hl (hi.subset hm)
  · rintro ⟨title, hn, hi⟩
    obtain ⟨line, hline, h⟩ := (Text.infix_iff_exists_line (newline_not_mem_heading hs hn)
      (heading_ne_nil s title)).1 hi
    exact ⟨line, hline, title, h⟩

/-- A rule may lie anywhere in the text, but on one line. -/
theorem ruleFree_iff {t : Text} : RuleFree t ↔ ¬ shortestRule <:+: t := by
  rw [Text.infix_iff_exists_line newline_not_mem_shortestRule (by decide), RuleFree]
  simp only [not_exists, not_and]

/-- A heading has no rule in it. -/
theorem not_shortestRule_infix_heading {s : Style} (hs : s ∈ styles) {title : Text}
    (ht : ';' ∉ title) : ¬ shortestRule <:+: s.heading title := by
  rintro ⟨a, b, he⟩
  obtain ⟨x, hx⟩ : ∃ x, s.heading title = ';' :: x ∧ ';' ∉ x :=
    ⟨_, rfl, by simp [blockDashes, Text.rule, ht, semicolon_not_mem_headingEnd hs]⟩
  cases a with
  | nil =>
    simp [shortestRule, Style.heading, headingStart, blockDashes, Text.rule,
      List.replicate] at he
  | cons c a =>
    rw [hx.1, List.cons_append, List.cons_append] at he
    refine hx.2 ((List.cons.inj he).2 ▸ ?_)
    simp [shortestRule]

/-! ## What follows a heading -/

theorem mem_afterEach {mark t rest : Text} (hm : mark ≠ []) :
    rest ∈ afterEach mark t ↔ ∃ l, '\n' ∉ l ∧ t = l ++ mark ++ rest := by
  -- Induction on the text: the mark stands at its beginning, or behind a character of the line.
  induction t with
  | nil => simp [afterEach, hm]
  | cons c t ih =>
    rw [afterEach, List.mem_append, Option.mem_toList, Text.dropStart?_eq_some]
    constructor
    · rintro (h | h)
      · split at h
        · simp at h
        · next hc =>
          obtain ⟨l, hl, rfl⟩ := ih.1 h
          exact ⟨c :: l, by simp [hl, Ne.symm hc], rfl⟩
      · exact ⟨[], by simp, h⟩
    · rintro ⟨l, hl, he⟩
      cases l with
      | nil => exact .inr he
      | cons d l =>
        obtain ⟨rfl, rfl⟩ := List.cons.inj he
        rw [List.mem_cons, not_or] at hl
        left
        rw [if_neg (Ne.symm hl.1)]
        exact ih.2 ⟨l, hl.2, rfl⟩

/-- **After a heading**: what is left when a heading with some title is taken from the beginning. -/
theorem mem_afterHeading {s : Style} {t rest : Text} :
    rest ∈ afterHeading s t ↔ ∃ title, '\n' ∉ title ∧ t = s.heading title ++ rest := by
  have hm : headingEnd s.words ≠ [] := by simp [headingEnd]
  unfold afterHeading
  split
  · next r hd =>
    have hd : Text.dropStart? headingStart t = some r := hd
    change rest ∈ afterEach (headingEnd s.words) r ↔ _
    rw [Text.dropStart?_eq_some.1 hd]
    simp only [mem_afterEach hm, Style.heading, List.append_assoc, List.append_cancel_left_eq]
  · next hd =>
    have hd : Text.dropStart? headingStart t = none := hd
    simp only [List.not_mem_nil, false_iff]
    rintro ⟨title, -, rfl⟩
    rw [Style.heading, List.append_assoc, List.append_assoc, Text.dropStart?_append] at hd
    simp at hd

theorem afterRule?_eq_none_iff {s : Style} {t : Text} :
    afterRule? s t = none ↔ ¬ s.closing <:+: t := by
  rw [afterRule?, Option.map_eq_none_iff]
  exact Text.after?_eq_none_iff

/-- **No fence begins** a text exactly if no heading that begins it is followed by a rule. -/
theorem after?_eq_none_iff {t : Text} : after? t = none ↔ ∀ s ∈ styles, ∀ title rest,
    '\n' ∉ title → t = s.heading title ++ rest → ¬ s.closing <:+: rest := by
  rw [after?, List.findSome?_eq_none_iff]
  refine forall₂_congr fun s _ => ?_
  rw [List.findSome?_eq_none_iff]
  constructor
  · intro h title rest hn he
    exact afterRule?_eq_none_iff.1 (h rest (mem_afterHeading.2 ⟨title, hn, he⟩))
  · intro h rest hr
    obtain ⟨title, hn, he⟩ := mem_afterHeading.1 hr
    exact afterRule?_eq_none_iff.2 (h title rest hn he)

theorem after?_nil : after? [] = none := by decide

/-- A fence begins with a semicolon. -/
theorem after?_cons_of_ne {c : Char} (hc : c ≠ ';') (t : Text) : after? (c :: t) = none := by
  refine after?_eq_none_iff.2 fun s _ title rest _ he => ?_
  exact absurd (List.cons.inj he).1 hc

theorem exists_of_after?_eq_some {t rest : Text} (h : after? t = some rest) :
    ∃ s ∈ styles, ∃ title r, '\n' ∉ title ∧ t = s.heading title ++ r ∧
      afterRule? s r = some rest := by
  obtain ⟨s, hs, h⟩ := List.exists_of_findSome?_eq_some h
  obtain ⟨r, hr, h⟩ := List.exists_of_findSome?_eq_some h
  obtain ⟨title, hn, he⟩ := mem_afterHeading.1 hr
  exact ⟨s, hs, title, r, hn, he, h⟩

theorem suffix_of_after? {t rest : Text} (h : after? t = some rest) : rest <:+ t := by
  obtain ⟨s, -, title, r, -, rfl, hr⟩ := exists_of_after?_eq_some h
  obtain ⟨r', hr', rfl⟩ := Option.map_eq_some_iff.1 hr
  obtain ⟨left, rfl⟩ := Text.exists_of_after?_eq_some hr'
  exact (List.dropWhile_suffix _).trans ⟨s.heading title ++ (left ++ s.closing), by
    simp [Style.closing]⟩

/-- A fence begins with the first character of the text. -/
theorem exists_fence_append {c : Char} {t rest : Text} (h : after? (c :: t) = some rest) :
    ∃ fence, fence ≠ [] ∧ c :: t = fence ++ rest := by
  obtain ⟨fence, hf⟩ := suffix_of_after? h
  refine ⟨fence, ?_, hf.symm⟩
  rintro rfl
  have := length_after? h
  simp [← hf] at this

/-- **Before a line break** a fence begins only where a heading does. -/
theorem exists_heading_of_after? {t x rest : Text} (ht : Text.Whole t) (hne : t ≠ [])
    (h : after? (t ++ x) = some rest) : ∃ s ∈ styles, ∃ title r, '\n' ∉ title ∧
      t = s.heading title ++ r ∧ afterRule? s (r ++ x) = some rest := by
  obtain ⟨s, hs, title, r, hn, he, hr⟩ := exists_of_after?_eq_some h
  obtain ⟨l, rfl⟩ := ht.exists_eq_append hne
  have hp : s.heading title <+: l ++ '\n' :: x := ⟨r, by simp [← he]⟩
  obtain ⟨q, rfl⟩ := Text.prefix_of_prefix_append_cons (newline_not_mem_heading hs hn) hp
  refine ⟨s, hs, title, q ++ ['\n'], hn, by simp, ?_⟩
  have : q ++ ['\n'] ++ x = r := by simpa using he
  rw [this, hr]

/-! ## The fence of a block -/

/-- Around a title without dashes nothing else on the line can be read as a heading. -/
theorem eq_of_heading_append {s s' : Style} (hs : s ∈ styles) (hs' : s' ∈ styles)
    {title title' r rest : Text} {e : Text.LineEnding} (ht : '-' ∉ title) (ht' : '\n' ∉ title')
    (h : s'.heading title' ++ r = s.heading title ++ e.text ++ rest) :
    title' ++ s'.words = title ++ s.words ∧ r = e.text ++ rest := by
  have hend : '\n' ∉ headingEnd s'.words := newline_not_mem_headingEnd hs'
  have hlead : '-' ∉ e.lead := by cases e <;> decide
  have hcount : ∀ u ∈ styles, (headingEnd u.words).count '-' = 15 := by decide +kernel
  have hsplit (word : Text) : headingEnd word = word ++ (' ' :: Text.rule 14 '-') ++ ['-'] := by
    rw [List.append_assoc]
    rfl
  rw [e.text_eq] at h ⊢
  simp only [Style.heading, List.append_assoc, List.append_cancel_left_eq] at h
  obtain ⟨r', hr', rfl⟩ : ∃ r', title' ++ headingEnd s'.words ++ r' =
      title ++ headingEnd s.words ++ e.lead ∧ r = r' ++ '\n' :: rest := by
    have h' : (title' ++ headingEnd s'.words) ++ r =
        (title ++ headingEnd s.words ++ e.lead) ++ '\n' :: rest := by simpa using h
    rcases List.append_eq_append_iff.1 h' with ⟨as, h1, h2⟩ | ⟨bs, h1, h2⟩
    · exact ⟨as, h1.symm, h2⟩
    · cases bs with
      | nil => exact ⟨[], by simpa using h1, by simpa using h2.symm⟩
      | cons c bs =>
        obtain ⟨rfl, -⟩ := List.cons.inj h2
        have : '\n' ∈ title' ++ headingEnd s'.words := by simp [h1]
        rw [List.mem_append] at this
        exact absurd this (not_or.2 ⟨ht', hend⟩)
  have hc := congrArg (List.count '-') hr'
  simp only [List.count_append, hcount s hs, hcount s' hs', List.count_eq_zero_of_not_mem ht,
    List.count_eq_zero_of_not_mem hlead] at hc
  have hr0 : '-' ∉ r' := List.count_eq_zero.1 (by omega)
  have hlast : (title' ++ s'.words ++ (' ' :: Text.rule 14 '-')) ++ '-' :: r' =
      (title ++ s.words ++ (' ' :: Text.rule 14 '-')) ++ '-' :: e.lead := by
    simpa [hsplit] using hr'
  obtain ⟨hfront, rfl⟩ := Text.last_unique hlast hr0 hlead
  exact ⟨List.append_cancel_right hfront, by simp⟩

theorem words_injective {s s' : Style} (hs : s ∈ styles) (hs' : s' ∈ styles) {a b : Text}
    (h : a ++ s.words = b ++ s'.words) : s = s' := by
  have key : ∀ u ∈ styles, ∀ u' ∈ styles, u.words.getLast? = u'.words.getLast? → u = u' := by
    decide
  have hne : ∀ u ∈ styles, u.words.getLast?.isSome := by decide
  refine key s hs s' hs' ?_
  have hl := congrArg List.getLast? h
  rw [List.getLast?_append, List.getLast?_append] at hl
  obtain ⟨c, hc⟩ := Option.isSome_iff_exists.1 (hne s hs)
  obtain ⟨d, hd⟩ := Option.isSome_iff_exists.1 (hne s' hs')
  simpa [hc, hd] using hl

/-- The first closing rule after whole lines without one. -/
theorem afterRule?_append {s : Style} {left rest : Text} {n : Nat} (hl : Text.Whole left)
    (hrule : ¬ s.closing <:+: left) (hn : s.rule ≤ n) (hrest : rest.head? ≠ some '-') :
    afterRule? s (left ++ ((';' :: ' ' :: Text.rule n '-') ++ rest)) = some rest := by
  obtain ⟨k, rfl⟩ := Nat.exists_eq_add_of_le hn
  have hsplit : (';' :: ' ' :: Text.rule (s.rule + k) '-') ++ rest =
      s.closing ++ (Text.rule k '-' ++ rest) := by
    simp only [Style.closing, Text.rule, ← List.replicate_append_replicate, List.cons_append,
      List.append_assoc]
  have hdrop : (Text.rule k '-' ++ rest).dropWhile (· == '-') = rest := by
    rw [List.dropWhile_append_of_pos]
    · cases rest with
      | nil => rfl
      | cons c rest =>
        have : c ≠ '-' := fun hc => hrest (by simp [hc])
        simp [this]
    · intro c hc
      simpa using List.eq_of_mem_replicate hc
  have hfirst : Text.after? s.closing (left ++ (s.closing ++ (Text.rule k '-' ++ rest))) =
      some (Text.rule k '-' ++ rest) := by
    rw [Text.after?_append]
    · exact Text.after?_self (by simp [Style.closing]) _
    · intro a b hab hb hp
      have hw : Text.Whole b := (hab ▸ hl).of_append
      obtain ⟨b', rfl⟩ := hw.exists_eq_append hb
      rw [List.append_assoc, List.singleton_append] at hp
      have := Text.prefix_of_prefix_append_cons (newline_not_mem_closing s) hp
      exact hrule (this.isInfix.trans ⟨a, ['\n'], by simp [hab]⟩)
  rw [hsplit, afterRule?]
  simp only [Style.closing] at hfirst ⊢
  rw [hfirst, Option.map_some, hdrop]

/-- **The fence of a block**: a heading on a line of its own reaches to the first closing rule. -/
theorem after?_block {s : Style} (hs : s ∈ styles) {title body rest : Text} {e : Text.LineEnding}
    {n : Nat} (hd : '-' ∉ title) (ht : '\n' ∉ title) (hbody : Text.Whole body)
    (hrule : ¬ s.closing <:+: body) (hn : s.rule ≤ n) (hrest : rest.head? ≠ some '-') :
    after? (s.heading title ++ e.text ++ (body ++ ((';' :: ' ' :: Text.rule n '-') ++ rest))) =
      some rest := by
  have hr : afterRule? s (e.text ++ (body ++ ((';' :: ' ' :: Text.rule n '-') ++ rest))) =
      some rest := by
    rw [← List.append_assoc]
    refine afterRule?_append (e.whole.append hbody) (fun hi => hrule ?_) hn hrest
    rwa [Text.infix_append_right_iff] at hi
    rintro c ⟨⟩
    cases e <;> decide
  cases h : after? (s.heading title ++ e.text ++
      (body ++ ((';' :: ' ' :: Text.rule n '-') ++ rest))) with
  | none =>
    refine absurd ?_ (after?_eq_none_iff.1 h s hs title _ ht (List.append_assoc _ _ _))
    rw [← Decidable.not_not (p := s.closing <:+: _), ← afterRule?_eq_none_iff, hr]
    simp
  | some rest' =>
    -- whatever heading is read there is this one, so the same rule closes it
    obtain ⟨s', hs', title', r, ht', he, hr'⟩ := exists_of_after?_eq_some h
    obtain ⟨hw, rfl⟩ := eq_of_heading_append hs hs' hd ht' he.symm
    obtain rfl := words_injective hs' hs hw
    rw [← hr', hr]

/-! ## Cutting -/

theorem cut_nil : cut [] = ([], []) := by rw [cut]

theorem cut_cons_of_none {c : Char} {t : Text} (h : after? (c :: t) = none) :
    cut (c :: t) = ((cut t).1, c :: (cut t).2) := by
  rw [cut]
  split
  · next r hr => simp [h] at hr
  · rfl

/-- A fence is cut out. -/
theorem cut_of_after? {fence rest : Text} (hne : fence ≠ [])
    (h : after? (fence ++ rest) = some rest) :
    cut (fence ++ rest) = (fence :: (cut rest).1, (cut rest).2) := by
  obtain ⟨c, f, rfl⟩ := List.exists_cons_of_ne_nil hne
  rw [List.cons_append] at h ⊢
  rw [cut]
  split
  · next r hr =>
    obtain rfl : rest = r := by simpa [h] using hr
    have hlen : (c :: (f ++ rest)).length - rest.length = (c :: f).length := by simp; omega
    rw [hlen, ← List.cons_append, List.take_left' rfl]
  · next hr => simp [h] at hr

/-- **Induction as fences are sought**: a fence begins the text, or its first character is kept. -/
@[elab_as_elim]
theorem fence_induction {motive : Text → Prop} (nil : motive [])
    (fence : ∀ fence rest, fence ≠ [] → after? (fence ++ rest) = some rest → motive rest →
      motive (fence ++ rest))
    (kept : ∀ c t, after? (c :: t) = none → motive t → motive (c :: t)) (t : Text) :
    motive t := by
  induction t using cut.induct with
  | case1 => exact nil
  | case2 c t rest h _ _ _ ih =>
    obtain ⟨f, hne, hf⟩ := exists_fence_append h
    rw [hf] at h ⊢
    exact fence f rest hne h ih
  | case3 c t h _ _ _ ih => exact kept c t h ih

/-- **Nothing is cut** where no fence begins. -/
theorem cut_append {pre rest : Text}
    (h : ∀ a b, pre = a ++ b → b ≠ [] → after? (b ++ rest) = none) :
    cut (pre ++ rest) = ((cut rest).1, pre ++ (cut rest).2) := by
  induction pre with
  | nil => rfl
  | cons c pre ih =>
    have hc : after? (c :: (pre ++ rest)) = none := h [] (c :: pre) rfl (by simp)
    rw [List.cons_append, cut_cons_of_none hc, ih fun a b he hb => h (c :: a) b (by simp [he]) hb]
    rfl

/-- No fence begins in text without semicolons. -/
theorem cut_append_of_not_mem {pre : Text} (h : ';' ∉ pre) (rest : Text) :
    cut (pre ++ rest) = ((cut rest).1, pre ++ (cut rest).2) := by
  refine cut_append fun a b he hb => ?_
  obtain ⟨c, b, rfl⟩ := List.exists_cons_of_ne_nil hb
  exact after?_cons_of_ne (fun hc => h (by simp [he, hc])) _

/-- What is cut is a fence or is kept. -/
theorem cut_eq_self_of_nil {t : Text} (h : (cut t).1 = []) : cut t = ([], t) := by
  induction t using fence_induction with
  | nil => exact cut_nil
  | fence f rest hne hr ih => simp [cut_of_after? hne hr] at h
  | kept c t hno ih =>
    rw [cut_cons_of_none hno] at h ⊢
    simp [ih h]

theorem length_cut_le (t : Text) : (cut t).2.length ≤ t.length := by
  induction t using fence_induction with
  | nil => simp [cut_nil]
  | fence f rest hne hr ih =>
    rw [cut_of_after? hne hr, List.length_append]
    exact ih.trans (Nat.le_add_left _ _)
  | kept c t hno ih =>
    rw [cut_cons_of_none hno]
    exact Nat.succ_le_succ ih

theorem length_cut_lt {t : Text} (h : (cut t).1 ≠ []) : (cut t).2.length < t.length := by
  induction t using fence_induction with
  | nil => simp [cut_nil] at h
  | fence f rest hne hr ih =>
    have hpos := List.length_pos_iff.2 hne
    rw [cut_of_after? hne hr, List.length_append]
    exact (length_cut_le rest).trans_lt (by omega)
  | kept c t hno ih =>
    rw [cut_cons_of_none hno] at h ⊢
    exact Nat.succ_lt_succ (ih h)

/-- A text keeps everything if no fence begins anywhere in it. -/
theorem cut_eq_self_iff {t : Text} :
    cut t = ([], t) ↔ ∀ a b, t = a ++ b → after? b = none := by
  constructor
  · intro h a b he
    induction t generalizing a with
    | nil =>
      obtain ⟨rfl, rfl⟩ := List.append_eq_nil_iff.1 he.symm
      exact after?_nil
    | cons c t ih =>
      rw [cut] at h
      split at h
      · simp at h
      · next hr =>
        have ht : cut t = ([], t) := by simpa [Prod.ext_iff] using h
        cases a with
        | nil =>
          rw [List.nil_append] at he
          exact he ▸ hr
        | cons d a => exact ih ht a (List.cons.inj he).2
  · intro h
    have hnone : ∀ a b, t = a ++ b → b ≠ [] → after? (b ++ []) = none := fun a b he _ => by
      rw [List.append_nil]
      exact h a b he
    simpa [cut_nil] using cut_append hnone

/-- **The first place** of a text, if there is one, where a fence begins. -/
theorem exists_first (t x : Text) :
    (∀ a b, t = a ++ b → b ≠ [] → after? (b ++ x) = none) ∨
      ∃ a b rest, t = a ++ b ∧ b ≠ [] ∧ after? (b ++ x) = some rest ∧
        ∀ p q, a = p ++ q → q ≠ [] → after? (q ++ (b ++ x)) = none := by
  induction t with
  | nil =>
    left
    rintro a b he hb
    exact absurd (List.append_eq_nil_iff.1 he.symm).2 hb
  | cons c t ih =>
    cases hc : after? (c :: t ++ x) with
    | some rest => exact .inr ⟨[], c :: t, rest, rfl, by simp, hc, by simp⟩
    | none =>
      rcases ih with h | ⟨a, b, rest, rfl, hb, hr, hfirst⟩
      · left
        intro a b he hb
        cases a with
        | nil =>
          rw [List.nil_append] at he
          exact he ▸ hc
        | cons d a => exact h a b (List.cons.inj he).2 hb
      · refine .inr ⟨c :: a, b, rest, rfl, hb, hr, fun p q he hq => ?_⟩
        cases p with
        | nil =>
          rw [List.nil_append] at he
          rw [← he]
          simpa using hc
        | cons d p => exact hfirst p q (List.cons.inj he).2 hq

/-- The first fence of a text, if there is one. -/
theorem exists_first_fence (t : Text) : cut t = ([], t) ∨
    ∃ a f rest, t = a ++ (f ++ rest) ∧ f ≠ [] ∧ after? (f ++ rest) = some rest ∧
      ∀ p q, a = p ++ q → q ≠ [] → after? (q ++ (f ++ rest)) = none := by
  rcases exists_first t [] with hnone | ⟨a, b, rest, rfl, hb, hr, hfirst⟩
  · left
    simpa [cut_nil] using cut_append hnone
  · obtain ⟨c, b, rfl⟩ := List.exists_cons_of_ne_nil hb
    rw [List.append_nil] at hr hfirst
    obtain ⟨f, hne, hf⟩ := exists_fence_append hr
    rw [hf] at hr hfirst ⊢
    exact .inr ⟨a, f, rest, rfl, hne, hr, hfirst⟩

/-- Cutting keeps what stands before the first fence. -/
theorem cut_first {a b x rest : Text} (hb : b ≠ []) (hr : after? (b ++ x) = some rest)
    (hfirst : ∀ p q, a = p ++ q → q ≠ [] → after? (q ++ (b ++ x)) = none) :
    (cut (a ++ (b ++ x))).1 ≠ [] ∧ (cut (a ++ (b ++ x))).2 = a ++ (cut rest).2 := by
  obtain ⟨c, b, rfl⟩ := List.exists_cons_of_ne_nil hb
  obtain ⟨f, hne, hf⟩ : ∃ f, f ≠ [] ∧ c :: b ++ x = f ++ rest := exists_fence_append hr
  rw [hf] at hr
  rw [cut_append hfirst, hf, cut_of_after? hne hr]
  simp

/-- Nothing is cut out of a text without rules. -/
theorem cut_eq_self_of_ruleFree {t : Text} (h : RuleFree t) : cut t = ([], t) := by
  refine cut_eq_self_iff.2 fun a b he => after?_eq_none_iff.2 fun s hs title rest _ hb hc => ?_
  rw [ruleFree_iff, he, hb] at h
  exact h (((shortestRule_prefix_closing hs).isInfix.trans hc).trans
    (List.infix_append_of_infix_right (List.suffix_append _ _).isInfix))

theorem cut_eq_self_of_tails {t : Text} (h : ∀ b ∈ t.tails, after? b = none) : cut t = ([], t) :=
  cut_eq_self_iff.2 fun a b he => h b ((List.mem_tails b t).2 ⟨a, he.symm⟩)

theorem cut_of_not_mem {t : Text} (h : ';' ∉ t) : cut t = ([], t) := by
  simpa [cut_nil] using cut_append_of_not_mem h []

theorem fenceFree_of_not_mem {t : Text} (h : ';' ∉ t) : FenceFree t := by
  have hno {x : Text} (hx : ';' :: x <:+: t) : False := h (hx.subset List.mem_cons_self)
  constructor
  · rintro s - ⟨line, hline, title, hi⟩
    exact hno (hi.trans (Text.infix_of_mem_lines hline))
  · exact fun line hline hi => hno (hi.trans (Text.infix_of_mem_lines hline))

end Reskin.Remap.Fence
