import Reskin.Proofs.ModFile.RoundTrip

/-!
# What removal leaves of a text

Whatever the characters are and whatever the text says, removal leaves everything that was there
before a block was added, unless a heading in the text, anywhere on a line, is closed by a rule of
the block. Then the fence reaches from that heading to the rule, and what follows the heading is
lost.

## Main definitions

* `ModFile.Closes`: texts with a heading that a rule of the added text closes
* `ModFile.RulesEnd`: added texts with no rule ahead of their end

## Main results

* `ModFile.exists_heading_in_text`: a fence that begins ahead of the block
* `ModFile.prefix_erase`: without such a heading everything stays
* `ModFile.exists_erase_of_closes`, `ModFile.not_prefix_erase`: what is lost otherwise
* `ModFile.Application.rulesEnd`: the rules that are added for plain characters
* `ModFile.undo_keeps_text`: what removal leaves, for files
-/

namespace Reskin

open Remap (Clean LeavesAlone blockRule blockStyle)
open Remap.Fence (HoldsHeading RuleFree)

namespace ModFile

/-- Some heading in the text is closed by a rule in the text added behind it. -/
def Closes (t added : Text) : Prop :=
  ∃ s ∈ Remap.Fence.styles, HoldsHeading s t ∧ s.closing <:+: added

/-- A rule that is added stands at the very end of what is added. -/
def RulesEnd (added : Text) : Prop :=
  ∀ s ∈ Remap.Fence.styles, ∀ rest, Remap.Fence.afterRule? s added = some rest → rest = []

section Remainder

variable {t lead x : Text} (hcut : Remap.Fence.cut t = ([], t)) (hlead : Text.Blank lead)

include hcut hlead

/-- **A fence that begins ahead of the added text** begins with a heading of the text and ends with
the first rule that is added. -/
theorem exists_heading_in_text {p q rest : Text} (he : Text.trimEnd t = p ++ q)
    (h : Remap.Fence.after? (q ++ (lead ++ '\n' :: x)) = some rest) :
    ∃ s ∈ Remap.Fence.styles, HoldsHeading s t ∧
      Remap.Fence.afterRule? s (lead ++ '\n' :: x) = some rest := by
  obtain ⟨s, hs, title, r, hn, heq, hr⟩ := Remap.Fence.exists_of_after?_eq_some h
  have hpre : s.heading title <+: q ++ lead :=
    Text.prefix_of_prefix_append_cons (Remap.Fence.newline_not_mem_heading hs hn)
      (b := x) ⟨r, by simp [← heq]⟩
  obtain ⟨y, rfl⟩ : ∃ y, q = s.heading title ++ y := by
    obtain ⟨h', hh'⟩ := List.getLast?_eq_some_iff.1 (Remap.Fence.getLast?_heading s title)
    obtain ⟨z, hz⟩ := hpre
    rw [hh', List.append_assoc, List.singleton_append] at hz
    obtain ⟨y, rfl, -⟩ := Text.exists_of_append_blank hlead (by decide) hz.symm
    exact ⟨y, by simp [hh']⟩
  obtain rfl : r = y ++ (lead ++ '\n' :: x) := by simpa using heq.symm
  obtain ⟨w, -, ht⟩ := Text.exists_trimEnd_append t
  have hi : s.heading title <:+: t := ⟨p, y ++ w, by rw [ht, he]; simp⟩
  refine ⟨s, hs, (Remap.Fence.holdsHeading_iff hs).2 ⟨title, hn, hi⟩, ?_⟩
  have hnone : ¬ s.closing <:+: y := by
    have hno := Remap.Fence.cut_eq_self_iff.1 hcut p (s.heading title ++ (y ++ w))
      (by conv => lhs; rw [ht, he]
          simp)
    exact fun hc => Remap.Fence.after?_eq_none_iff.1 hno s hs title _ hn rfl
      (List.infix_append_of_infix_left hc)
  rw [Remap.Fence.afterRule?] at hr ⊢
  rwa [Text.after?_append] at hr
  intro a b hab _ hp
  rw [← List.append_assoc] at hp
  have := (Text.prefix_of_prefix_append_cons (Remap.Fence.newline_not_mem_closing s) hp).isInfix
  rw [Text.infix_append_blank_iff (Remap.Fence.getLast?_closing hs) (by decide) hlead] at this
  exact hnone (this.trans ⟨a, [], by simp [hab]⟩)

theorem closes_of_after? {p q rest : Text} (he : Text.trimEnd t = p ++ q)
    (h : Remap.Fence.after? (q ++ (lead ++ '\n' :: x)) = some rest) :
    Closes t (lead ++ '\n' :: x) := by
  obtain ⟨s, hs, hh, hr⟩ := exists_heading_in_text hcut hlead he h
  refine ⟨s, hs, hh, ?_⟩
  rw [← Decidable.not_not (p := s.closing <:+: _), ← Remap.Fence.afterRule?_eq_none_iff, hr]
  simp

omit hcut hlead in
/-- A heading of the text that is closed by what is added begins a fence. -/
theorem exists_after?_of_closes {added : Text} (h : Closes t added) :
    ∃ p q rest, Text.trimEnd t = p ++ q ∧ q ≠ [] ∧
      Remap.Fence.after? (q ++ added) = some rest := by
  obtain ⟨s, hs, hh, hc⟩ := h
  obtain ⟨title, hn, hi⟩ := (Remap.Fence.holdsHeading_iff hs).1 hh
  obtain ⟨w, hw, ht⟩ := Text.exists_trimEnd_append t
  rw [ht, Text.infix_append_blank_iff (Remap.Fence.getLast?_heading s title) (by decide) hw] at hi
  obtain ⟨p, y, hpy⟩ := hi
  refine ⟨p, s.heading title ++ y, ?_⟩
  cases ha : Remap.Fence.after? (s.heading title ++ y ++ added) with
  | some rest =>
    exact ⟨rest, by simp [← hpy], by simp [Remap.Fence.heading_ne_nil], rfl⟩
  | none =>
    exact absurd (List.infix_append_of_infix_right hc)
      (Remap.Fence.after?_eq_none_iff.1 ha s hs title (y ++ added) hn (by simp))

end Remainder

section Erase

variable {t x folder : Text} {e : Text.LineEnding} {r : Remap.Erasure}

theorem text_append_eq (e : Text.LineEnding) (x : Text) : e.text ++ x = e.lead ++ '\n' :: x := by
  simp [e.text_eq]

theorem blank_lead (e : Text.LineEnding) : Text.Blank e.lead := by
  have h := e.blank
  rw [e.text_eq] at h
  exact fun c hc => h c (List.mem_append_left _ hc)

/-- No fence begins with a line break. -/
theorem cut_text_append (e : Text.LineEnding) (x : Text) :
    (Remap.Fence.cut (e.text ++ x)).2 = e.text ++ (Remap.Fence.cut x).2 := by
  rw [Remap.Fence.cut_append fun a b he hb => ?_]
  obtain ⟨c, b, rfl⟩ := List.exists_cons_of_ne_nil hb
  refine Remap.Fence.after?_cons_of_ne (fun hc => ?_) _
  have : ';' ∈ e.text := by simp [he, hc]
  exact e.blank.not_mem (by decide) this

/-- The text that results, with what was added behind the line break that ends the old text. -/
theorem Application.text_eq_append {f : ModFile} {d : Disk} (a : Application f d) :
    a.text = Text.trimEnd a.read.text ++ ((Text.lineEnding a.read.text).text ++
      ((Text.lineEnding a.read.text).text ++ (Text.lineEnding a.read.text).text ++
        Text.withEnding (Text.lineEnding a.read.text) a.block)) := by
  rw [Application.text, appended_eq, ahead]
  simp only [List.append_assoc]

/-- **Everything stays** in front of added text that closes no heading. -/
theorem prefix_erase (halone : LeavesAlone folder t) (hno : ¬ Closes t (e.text ++ x))
    (h : Remap.erase folder (Text.trimEnd t ++ (e.text ++ x)) = .ok r) :
    Text.trimEnd t <+: r.text := by
  obtain ⟨hcut, hclean⟩ := Remap.leavesAlone_iff.1 halone
  obtain ⟨-, -, -, htext⟩ := Remap.erase_spec h
  rw [htext]
  split
  · exact List.prefix_append _ _
  have hkept : (Remap.Fence.cut (Text.trimEnd t ++ (e.text ++ x))).2 =
      (Text.trimEnd t ++ e.text) ++ (Remap.Fence.cut x).2 := by
    rw [Remap.Fence.cut_append fun p q he hq => ?_, cut_text_append, List.append_assoc]
    cases ha : Remap.Fence.after? (q ++ (e.text ++ x)) with
    | none => rfl
    | some rest =>
      rw [text_append_eq] at ha hno
      exact absurd (closes_of_after? hcut (blank_lead e) he ha) hno
  have hwhole : Text.Whole (Text.trimEnd t ++ e.text) := by
    rw [e.text_eq, ← List.append_assoc]
    exact Text.whole_append_newline _
  have hlines : ∀ l ∈ Text.lines (Text.trimEnd t ++ e.text), Clean l :=
    Remap.clean_of_trimEnd_eq
      (by rw [Text.trimEnd_append_of_blank e.blank, Text.trimEnd_trimEnd]) hclean
  rw [hkept, Text.lines_append hwhole, Remap.sweep_append hlines, List.flatten_append,
    Text.flatten_lines, List.append_assoc]
  exact Text.prefix_trimEnd_append _ _

/-- **The end of the text goes** into a fence that begins in the text, if some heading there is
closed by what is added. -/
theorem exists_erase_of_closes (halone : LeavesAlone folder t) (hc : Closes t (e.text ++ x))
    (h : Remap.erase folder (Text.trimEnd t ++ (e.text ++ x)) = .ok r) :
    ∃ a b rest, Text.trimEnd t = a ++ b ∧ b ≠ [] ∧
      (∃ s ∈ Remap.Fence.styles, Remap.Fence.afterRule? s (e.text ++ x) = some rest) ∧
      r.text = Text.trimEnd
        (Remap.sweep false (Text.lines (a ++ (Remap.Fence.cut rest).2))).kept.flatten := by
  obtain ⟨hcut, -⟩ := Remap.leavesAlone_iff.1 halone
  obtain ⟨p, q, rest, hpq, hq, ha⟩ := exists_after?_of_closes hc
  rcases Remap.Fence.exists_first (Text.trimEnd t) (e.text ++ x) with
    hnone | ⟨a, b, rest', hab, hb, hr, hfirst⟩
  · simp [hnone p q hpq hq] at ha
  have hrule : ∃ s ∈ Remap.Fence.styles, Remap.Fence.afterRule? s (e.text ++ x) = some rest' := by
    rw [text_append_eq] at hr ⊢
    obtain ⟨s, hs, -, hs'⟩ := exists_heading_in_text hcut (blank_lead e) hab hr
    exact ⟨s, hs, hs'⟩
  refine ⟨a, b, rest', hab, hb, hrule, ?_⟩
  obtain ⟨hfences, hkept⟩ := Remap.Fence.cut_first hb hr hfirst
  rw [← List.append_assoc, ← hab] at hfences hkept
  obtain ⟨hblocks, -, -, htext⟩ := Remap.erase_spec h
  rw [htext, if_neg, hkept]
  rw [Remap.Erasure.isUnchanged_iff, hblocks]
  exact fun hu => hfences (List.length_eq_zero_iff.1 hu.1)

/-- The end is lost for good if the rules that are added end the text. -/
theorem not_prefix_erase (halone : LeavesAlone folder t) (hend : RulesEnd (e.text ++ x))
    (hc : Closes t (e.text ++ x))
    (h : Remap.erase folder (Text.trimEnd t ++ (e.text ++ x)) = .ok r) :
    ¬ Text.trimEnd t <+: r.text := by
  obtain ⟨a, b, rest, hab, hb, ⟨s, hs, hrule⟩, htext⟩ := exists_erase_of_closes halone hc h
  obtain rfl := hend s hs rest hrule
  rw [Remap.Fence.cut_nil, List.append_nil] at htext
  intro hp
  have hshort : r.text.length ≤ a.length := by
    rw [htext]
    exact (Text.trimEnd_infix_self _).length_le.trans (Remap.length_kept_le false a)
  have hlong := hp.length_le
  rw [hab, List.length_append] at hlong
  have := List.length_pos_iff.2 hb
  omega

end Erase

/-! ## The rules that are added -/

/-- The only rule behind quiet lines is the one that ends them. -/
theorem rulesEnd_of_quiet {ls : List Text} (h : ∀ l ∈ ls, Remap.Quiet l) (e : Text.LineEnding)
    (title : Text) : RulesEnd (Text.unlines e ls ++ blockRule title) := by
  intro s hs rest hrest
  have hlines : ¬ s.closing <:+: Text.unlines e ls := fun hi =>
    Remap.not_shortestRule_infix_unlines h e
      ((Remap.Fence.shortestRule_prefix_closing hs).isInfix.trans hi)
  by_cases hn : s.rule ≤ title.length + 38
  · have := Remap.Fence.afterRule?_append (Text.whole_unlines e ls) hlines hn
      (by simp : ([] : Text).head? ≠ some '-')
    rw [List.append_nil] at this
    exact (Option.some.inj (this.symm.trans hrest)).symm
  · have hnone : ¬ s.closing <:+: Text.unlines e ls ++ blockRule title := by
      intro hi
      obtain ⟨line, hline, hi⟩ := (Text.infix_iff_exists_line
        (Remap.Fence.newline_not_mem_closing s) (by simp [Remap.Fence.Style.closing])).1 hi
      rw [Text.lines_append (Text.whole_unlines e ls),
        Text.lines_of_not_mem (Remap.newline_not_mem_blockRule title) (by simp [blockRule]),
        List.mem_append, List.mem_singleton] at hline
      rcases hline with hline | rfl
      · exact hlines (hi.trans (Text.infix_of_mem_lines hline))
      · have := hi.length_le
        simp only [Remap.Fence.Style.closing, blockRule, Text.rule, List.length_cons,
          List.length_replicate] at this
        omega
    simp [Remap.Fence.afterRule?_eq_none_iff.2 hnone] at hrest

/-- **The rule of the block is the only rule added** for plain characters, if the text holds none
that could be copied. -/
theorem Application.rulesEnd {f : ModFile} {d : Disk} (a : Application f d) (hf : f.IsCurrent)
    (hp : f.IsPlain) (hrule : RuleFree a.read.text) {added : Text}
    (h : a.text = Text.trimEnd a.read.text ++ added) : RulesEnd added := by
  obtain ⟨ls, htext, hinert, -⟩ := a.exists_fence hf hp hrule
  have hadded : added = Text.unlines (Text.lineEnding a.read.text)
      ([] :: [] :: [] :: blockStyle.heading (a.character.title ++ [' ']) :: ls) ++
        blockRule a.character.title := by
    refine List.append_cancel_left (h.symm.trans (htext.trans ?_))
    simp [ahead, fenceOf]
  rw [hadded]
  refine rulesEnd_of_quiet (fun l hl => ?_) _ _
  simp only [List.mem_cons] at hl
  rcases hl with rfl | rfl | rfl | rfl | hl
  · exact Remap.quiet_nil
  · exact Remap.quiet_nil
  · exact Remap.quiet_nil
  · exact quiet_heading (a.plain_title hf hp)
  · exact (hinert l hl).quiet

/-! ## Removal -/

/-- **What removal leaves.** A text without generated content stays, up to its blank end, in front of
a block that is added and removed again, if no heading on its lines is closed by a rule of what was
added. Otherwise the fence that is cut out begins in the text and ends with the first rule added:
the end of the text is lost with it if that rule is the last of what was added, as it is for plain
characters and a text without rules. -/
theorem undo_keeps_text {f f' g : ModFile} {d : Disk} {variants : VariantSet}
    (hload : f.load d = .ok g) (halone : LeavesAlone f.folder g.text)
    (h : f.apply d = (.ok (.applied variants), f')) {k k' u : ModFile} {d' : Disk}
    {r : Remap.Erasure} (hk : k.load d' = .ok k') (hk' : k'.text = f'.text)
    (hu : k.undo d' = (.ok r, u)) :
    ∃ added, f'.text = Text.trimEnd g.text ++ added ∧
      (¬ Closes g.text added → Text.trimEnd g.text <+: u.text) ∧
      (Closes g.text added → ∃ a b rest, Text.trimEnd g.text = a ++ b ∧ b ≠ [] ∧
        (∃ s ∈ Remap.Fence.styles, Remap.Fence.afterRule? s added = some rest) ∧
        u.text = Text.trimEnd
          (Remap.sweep false (Text.lines (a ++ (Remap.Fence.cut rest).2))).kept.flatten) ∧
      (RulesEnd added → (Text.trimEnd g.text <+: u.text ↔ ¬ Closes g.text added)) ∧
      (f.IsCurrent → f.IsPlain → RuleFree g.text → RulesEnd added) := by
  obtain ⟨a, rfl, -⟩ := exists_application h
  rw [← a.text_read hload] at halone ⊢
  rw [a.text_result] at hk' ⊢
  obtain ⟨herase, htext⟩ := erase_of_undo hk hu
  rw [hk', a.text_eq_append] at herase
  rw [htext]
  replace halone : LeavesAlone k'.folder a.read.text :=
    Remap.leavesAlone_iff.2 (Remap.leavesAlone_iff.1 halone)
  have hkeeps := fun hno => prefix_erase halone hno herase
  refine ⟨_, a.text_eq_append, hkeeps, fun hc => exists_erase_of_closes halone hc herase,
    fun hend => ⟨fun hp hc => not_prefix_erase halone hend hc herase hp, hkeeps⟩,
    fun hf hp hrule => a.rulesEnd hf hp hrule a.text_eq_append⟩

theorem undo_keeps_text_blend : ∃ r u,
    (blendApplication .empty).result.undo .empty = (.ok r, u) ∧
      Text.trimEnd blendText <+: u.text := by
  have hclosed (added : Text) : ¬ Closes blendText added := by
    rintro ⟨s, hs, hh, -⟩
    exact (Remap.Fence.fenceFree_of_not_mem (by decide)).noHeading s hs hh
  have hclean := (Remap.leavesAlone_iff.1 (leavesAlone_blendText [])).2
  have hload := (blendApplication .empty).load_result .empty
  obtain ⟨r, hr⟩ := (blendApplication .empty).exists_erase (isCurrent_of_parsed rfl)
    (isPlain_raidenFile blendText) (Remap.Fence.fenceFree_of_not_mem (by decide)) hclean
    (.inl rfl : MayFollow [] []) (blendApplication .empty).result.folder
  rw [List.append_nil, ← Application.text_result] at hr
  obtain ⟨u, hu, -⟩ := exists_undo_of_erase hload hr
  obtain ⟨added, -, hkeeps, -⟩ := undo_keeps_text rfl (leavesAlone_blendText _)
    (blendApplication .empty).apply_eq hload rfl hu
  exact ⟨_, u, hu, hkeeps (hclosed added)⟩

/-! ## A heading behind a value -/

/-- A blend override with a heading behind the value of its second line. -/
def noteText : Text :=
  Text.unlines .lf ["[TextureOverrideRaidenBlend]".toList, "hash = 111".toList,
    "note = x ; --------------- My Remap ---------------".toList, "ib = null".toList]

/-- The sections of the text. -/
def noteBodies : Ini.Bodies :=
  [("TextureOverrideRaidenBlend".toList, [.content
    [("hash".toList, "111".toList),
      ("note".toList, "x ; --------------- My Remap ---------------".toList),
      ("ib".toList, "null".toList)]])]

/-- The stages of an application to it. The block is the same as without the note. -/
def noteApplication (d : Disk) : Application (raidenFile noteText) d :=
  .ofWalks 1 "TextureOverrideRaidenBlend".toList raiden noteBodies [] [] [blendPart]

/-- What stands ahead of the heading. -/
def noteStart : Text :=
  Text.unlines .lf ["[TextureOverrideRaidenBlend]".toList, "hash = 111".toList] ++
    "note = x ".toList

/-- The heading and all that follows it once the block is added. -/
def noteFence : Text :=
  Text.unlines .lf ["; --------------- My Remap ---------------".toList, "ib = null".toList, [],
    []] ++ Remap.framed raiden.title [blendPart]

theorem noteApplication_text (d : Disk) : (noteApplication d).text = noteStart ++ noteFence := by
  change appended noteText (Remap.framed raiden.title [blendPart]) = _
  decide +kernel

/-- The fence begins with the heading of the note, and the section in it is declared. -/
theorem exists_erase_note (folder : Text) :
    ∃ r, Remap.erase folder (noteStart ++ noteFence) =
      .ok ⟨Text.trimEnd noteStart, 1, [], 0, r⟩ := by
  have hafter : Remap.Fence.after? (noteFence ++ []) = some [] := by decide +kernel
  have hcut : Remap.Fence.cut (noteStart ++ noteFence) = ([noteFence], noteStart) := by
    rw [Remap.Fence.cut_append_of_not_mem (by decide), ← List.append_nil noteFence,
      Remap.Fence.cut_of_after? (by decide) hafter, Remap.Fence.cut_nil, List.append_nil,
      List.append_nil]
  refine Remap.exists_erase_of_fence
    (S := (· = "TextureOverrideRaidenRaidenBossRemapBlend".toList)) hcut (by decide +kernel) ?_
    (by decide +kernel)
  rintro n rfl
  exact ⟨_, Option.eq_some_of_isSome (by decide +kernel), by decide +kernel⟩

/-- **A heading behind a value** is closed by the rule of the block, though erasure leaves the text
alone: removal takes the line below the note, which was there before. -/
theorem undo_loses_note :
    LeavesAlone (raidenFile noteText).folder noteText ∧
      (raidenFile noteText).apply .empty = (.ok (.applied (noteApplication .empty).built.toFix),
        (noteApplication .empty).result) ∧
      ∃ r u, (noteApplication .empty).result.undo .empty = (.ok r, u) ∧
        u.text = Text.unlines .lf ["[TextureOverrideRaidenBlend]".toList, "hash = 111".toList] ++
          "note = x".toList ∧
        ¬ Text.trimEnd noteText <+: u.text := by
  refine ⟨Remap.leavesAlone_iff.2 ⟨Remap.Fence.cut_eq_self_of_tails (by decide +kernel),
    by decide +kernel⟩, (noteApplication .empty).apply_eq, ?_⟩
  have hkept : Text.trimEnd noteStart = Text.unlines .lf ["[TextureOverrideRaidenBlend]".toList,
    "hash = 111".toList] ++ "note = x".toList := by decide +kernel
  have hlost : ¬ Text.trimEnd noteText <+: Text.trimEnd noteStart := by decide +kernel
  obtain ⟨r, hr⟩ := exists_erase_note (noteApplication .empty).result.folder
  rw [← noteApplication_text .empty, ← Application.text_result] at hr
  obtain ⟨u, hu, ht⟩ := exists_undo_of_erase ((noteApplication .empty).load_result .empty) hr
  exact ⟨_, u, hu, ht.trans hkept, ht ▸ hlost⟩

end ModFile

end Reskin
