import Reskin.Proofs.Remap.Erasure

/-!
# Erasing twice

What is left where a fence is cut out of the middle of a line can run together with what follows
into a heading or a rule, so that another erasure finds a fence. Where all fences stand on lines of
their own this does not happen: whatever the cut leaves of a line, blanks aside, was on one line
before. A heading that is left over is then not closed by any rule that is left behind it, neither
when the fences are gone nor when lines are taken out after that, and erasing again changes nothing.

## Main definitions

* `Remap.Fence.HoldsFence`: texts with a heading that a rule follows
* `Remap.Fence.places`, `Remap.Fence.OnWholeLines`: where fences are, and texts whose fences stand on
  lines of their own

## Main results

* `Remap.Fence.cut_eq_self_iff_not_holdsFence`: nothing is cut out of texts without fences
* `Remap.Fence.not_holdsFence_cut`: no fence is left
* `Remap.Fence.HoldsFence.of_sublist`: no fence comes to be where lines are taken out
* `Remap.erase_erase`: erasing again changes nothing
-/

namespace Reskin.Remap

namespace Fence

/-! ## Texts that hold a fence -/

/-- Some heading in the text is followed by a rule that closes it. -/
def HoldsFence (t : Text) : Prop := ∃ s ∈ styles, ∃ a title r, '\n' ∉ title ∧
  t = a ++ (s.heading title ++ r) ∧ s.closing <:+: r

theorem HoldsFence.of_infix {t u : Text} (h : HoldsFence t) (ht : t <:+: u) : HoldsFence u := by
  obtain ⟨s, hs, a, title, r, hn, rfl, hc⟩ := h
  obtain ⟨x, y, rfl⟩ := ht
  exact ⟨s, hs, x ++ a, title, r ++ y, hn, by simp, List.infix_append_of_infix_left hc⟩

/-- **Nothing is cut** out of a text exactly if it holds no fence. -/
theorem cut_eq_self_iff_not_holdsFence {t : Text} : cut t = ([], t) ↔ ¬ HoldsFence t := by
  rw [cut_eq_self_iff]
  constructor
  · rintro h ⟨s, hs, a, title, r, hn, he, hc⟩
    exact after?_eq_none_iff.1 (h a _ he) s hs title r hn rfl hc
  · intro h a b he
    refine after?_eq_none_iff.2 fun s hs title r hn hb hc => h ?_
    exact ⟨s, hs, a, title, r, hn, hb ▸ he, hc⟩

/-- **No fence comes to be** where some of the lines of a text are taken out. -/
theorem HoldsFence.of_sublist {t : Text} {ls ls' : List Text} (h : HoldsFence ls'.flatten)
    (hsub : ls'.Sublist ls) (hls : ls.Sublist (Text.lines t)) : HoldsFence ls.flatten := by
  -- Induction on the lines; the heading stands on the first one or behind it.
  induction hsub with
  | slnil => exact h
  | cons l _ ih =>
    have htail := ih h ((List.sublist_cons_self _ _).trans hls)
    exact htail.of_infix (List.suffix_append _ _).isInfix
  | @cons_cons ls' ls l hsub ih =>
    have htail : ls.Sublist (Text.lines t) := (List.sublist_cons_self _ _).trans hls
    have later (hf : HoldsFence ls'.flatten) : HoldsFence (l :: ls).flatten :=
      HoldsFence.of_infix (ih hf htail) (List.suffix_append _ _).isInfix
    obtain ⟨s, hs, a, title, r, hn, he, hc⟩ := h
    rw [List.flatten_cons] at he
    rcases List.append_eq_append_iff.1 he with ⟨b, -, hb⟩ | ⟨b, rfl, hb⟩
    · exact later ⟨s, hs, b, title, r, hn, hb, hc⟩
    by_cases hb0 : b = []
    · subst hb0
      exact later ⟨s, hs, [], title, r, hn, by simpa using hb.symm, hc⟩
    cases ls with
    | nil =>
      obtain rfl : ls' = [] := List.sublist_nil.1 hsub
      exact ⟨s, hs, a, title, r, hn, by simp [hb], hc⟩
    | cons m ls =>
      have hl : Text.Whole (a ++ b) := (List.pairwise_cons.1
        ((Text.pairwise_whole_lines t).sublist hls)).1 m List.mem_cons_self
      obtain ⟨b, rfl⟩ : ∃ b', b = b' ++ ['\n'] := hl.of_append.exists_eq_append hb0
      rw [List.append_assoc, List.singleton_append] at hb
      obtain ⟨y, rfl⟩ := Text.prefix_of_prefix_append_cons (newline_not_mem_heading hs hn)
        ⟨r, hb⟩
      obtain rfl : r = y ++ '\n' :: ls'.flatten := by simpa using hb
      refine ⟨s, hs, a, title, y ++ '\n' :: (m :: ls).flatten, hn, by simp, ?_⟩
      rw [Text.infix_append_cons (newline_not_mem_closing s)] at hc ⊢
      exact hc.imp_right fun hc =>
        Text.infix_flatten_of_sublist (newline_not_mem_closing s) hsub htail hc

/-! ## Where fences are -/

/-- A fence with all that stands before it and behind it. -/
structure Place where
  before : Text
  fence : Text
  rest : Text

/-- The fence has only blanks beside it on its first line and on its last one. -/
structure Place.OnWholeLines (p : Place) : Prop where
  before : ∀ l, l <:+ p.before → '\n' ∉ l → Text.Blank l
  behind : ∀ l, l <+: p.rest → '\n' ∉ l → Text.Blank l

/-- The same place in a text with something in front. -/
def Place.after (lead : Text) (p : Place) : Place := { p with before := lead ++ p.before }

/-- The places of the fences that are cut out. -/
def places : Text → List Place
  | [] => []
  | c :: t =>
    match _ : after? (c :: t) with
    | some rest =>
      let fence := (c :: t).take ((c :: t).length - rest.length)
      ⟨[], fence, rest⟩ :: (places rest).map (Place.after fence)
    | none => (places t).map (Place.after [c])
termination_by t => t.length
decreasing_by
  · exact length_after? ‹_›
  · exact Nat.lt_succ_self _

/-- **Every fence stands on lines of its own.** -/
def OnWholeLines (t : Text) : Prop := ∀ p ∈ places t, p.OnWholeLines

theorem places_cons_of_none {c : Char} {t : Text} (h : after? (c :: t) = none) :
    places (c :: t) = (places t).map (Place.after [c]) := by
  rw [places]
  split
  · next r hr => simp [h] at hr
  · rfl

theorem places_of_after? {fence rest : Text} (hne : fence ≠ [])
    (h : after? (fence ++ rest) = some rest) :
    places (fence ++ rest) = ⟨[], fence, rest⟩ :: (places rest).map (Place.after fence) := by
  obtain ⟨c, f, rfl⟩ := List.exists_cons_of_ne_nil hne
  rw [List.cons_append] at h ⊢
  rw [places]
  split
  · next r hr =>
    obtain rfl : rest = r := Option.some.inj (h.symm.trans hr)
    have hlen : (c :: (f ++ rest)).length - rest.length = (c :: f).length := by simp; omega
    have htake : (c :: (f ++ rest)).take (c :: f).length = c :: f := List.take_left' rfl
    dsimp only
    rw [hlen, htake]
  · next hr => simp [h] at hr

/-- Where no fence begins, all places lie behind. -/
theorem places_append {pre rest : Text}
    (h : ∀ a b, pre = a ++ b → b ≠ [] → after? (b ++ rest) = none) :
    places (pre ++ rest) = (places rest).map (Place.after pre) := by
  induction pre with
  | nil => exact (List.map_id _).symm
  | cons c pre ih =>
    have hc : after? (c :: (pre ++ rest)) = none := h [] (c :: pre) rfl (by simp)
    rw [List.cons_append, places_cons_of_none hc,
      ih fun a b he hb => h (c :: a) b (by simp [he]) hb, List.map_map]
    rfl

/-- The places are those of the fences that are cut out. -/
theorem map_fence_places (t : Text) : (places t).map Place.fence = (cut t).1 := by
  have hlead (lead : Text) : Place.fence ∘ Place.after lead = Place.fence := rfl
  induction t using fence_induction with
  | nil =>
    rw [places, cut]
    rfl
  | fence fence rest hne h ih => simp [places_of_after? hne h, cut_of_after? hne h, hlead, ih]
  | kept c t h ih => simp [places_cons_of_none h, cut_cons_of_none h, hlead, ih]

/-! ## Nothing runs together -/

namespace OnWholeLines

/-- With less in front a place is on whole lines still. -/
theorem of_map_after (lead : Text) {t : Text}
    (h : ∀ p ∈ (places t).map (Place.after lead), p.OnWholeLines) :
    OnWholeLines t := by
  intro p hp
  obtain ⟨hb, hr⟩ := h _ (List.mem_map_of_mem hp)
  exact ⟨fun l hl hn => hb l (hl.trans (List.suffix_append _ _)) hn, hr⟩

theorem of_append {pre rest : Text} (h : OnWholeLines (pre ++ rest))
    (hpre : ∀ a b, pre = a ++ b → b ≠ [] → after? (b ++ rest) = none) : OnWholeLines rest :=
  of_map_after _ fun p hp => h p (by rwa [places_append hpre])

theorem of_cons {c : Char} {t : Text} (h : OnWholeLines (c :: t)) (hno : after? (c :: t) = none) :
    OnWholeLines t :=
  of_map_after _ fun p hp => h p (by rwa [places_cons_of_none hno])

theorem of_after? {fence rest : Text} (h : OnWholeLines (fence ++ rest)) (hne : fence ≠ [])
    (hf : after? (fence ++ rest) = some rest) : OnWholeLines rest := by
  refine of_map_after fence fun p hp => h p ?_
  rw [places_of_after? hne hf]
  exact List.mem_cons_of_mem _ hp

/-- **A mark that begins what is left** was there before, and no fence begins in it: it ends before
the line feed that the next fence has before it. -/
theorem exists_of_prefix_cut {c : Char} {t m : Text} (h : OnWholeLines (c :: t))
    (hc : isBlank c = false) (hno : after? (c :: t) = none) (hm : '\n' ∉ m)
    (hp : m <+: (cut (c :: t)).2) :
    ∃ x, c :: t = m ++ x ∧ ∀ a b, m = a ++ b → b ≠ [] → after? (b ++ x) = none := by
  rcases exists_first_fence (c :: t) with hnone | ⟨a, f, rest, hab, hf, hr, hfirst⟩
  · obtain ⟨x, hx⟩ : m <+: c :: t := by simpa [hnone] using hp
    refine ⟨x, hx.symm, fun a b he _ => ?_⟩
    exact cut_eq_self_iff.1 hnone a (b ++ x) (by rw [← hx, he, List.append_assoc])
  · have hplaces : places (c :: t) = ⟨a, f, rest⟩ :: (places rest).map (Place.after (a ++ f)) := by
      rw [hab, places_append hfirst, places_of_after? hf hr]
      simp [Place.after]
    have hkept : (cut (c :: t)).2 = a ++ (cut rest).2 := by
      rw [hab, cut_append hfirst, cut_of_after? hf hr]
    have hline : '\n' ∈ a := by
      by_contra hn
      have hblank := (h ⟨a, f, rest⟩ (by simp [hplaces])).before a List.suffix_rfl hn
      cases a with
      | nil =>
        rw [List.nil_append] at hab
        simp [hab, hr] at hno
      | cons d a =>
        obtain rfl : c = d := (List.cons.inj hab).1
        simp [hblank c List.mem_cons_self] at hc
    obtain ⟨p, q, rfl, -⟩ := List.eq_append_cons_of_mem hline
    rw [hkept, List.append_assoc, List.cons_append] at hp
    obtain ⟨y, rfl⟩ := Text.prefix_of_prefix_append_cons hm hp
    refine ⟨y ++ '\n' :: (q ++ (f ++ rest)), by simp [hab], fun a' b' he hb' => ?_⟩
    simpa using hfirst a' (b' ++ (y ++ '\n' :: q)) (by simp [he]) (by simp [hb'])

end OnWholeLines

/-- A mark that is left was there before. -/
theorem infix_of_infix_cut {t m : Text} (h : OnWholeLines t) (hm : '\n' ∉ m)
    (hb : ∀ c ∈ m.head?, isBlank c = false) (hi : m <:+: (cut t).2) : m <:+: t := by
  -- Induction as the fences are sought: the mark begins with what is kept, or behind it.
  induction t using fence_induction with
  | nil => simpa [cut_nil] using hi
  | fence f rest hne hr ih =>
    rw [cut_of_after? hne hr] at hi
    exact List.infix_append_of_infix_right (ih (h.of_after? hne hr) hi)
  | kept c t hno ih =>
    cases m with
    | nil => exact List.nil_infix
    | cons d m =>
      have hcut := congrArg Prod.snd (cut_cons_of_none hno)
      rw [hcut] at hi
      rcases List.infix_cons_iff.1 hi with hp | hi
      · obtain ⟨r, hr⟩ := hp
        obtain rfl : d = c := (List.cons.inj hr).1
        obtain ⟨x, hx, -⟩ := h.exists_of_prefix_cut (hb d rfl) hno hm ⟨r, hr.trans hcut.symm⟩
        exact ⟨[], x, by simp [hx]⟩
      · exact List.infix_cons (ih (h.of_cons hno) hi)

/-- **No fence is left** where fences on lines of their own are cut out. -/
theorem not_holdsFence_cut {t : Text} (h : OnWholeLines t) : ¬ HoldsFence (cut t).2 := by
  rw [← cut_eq_self_iff_not_holdsFence, cut_eq_self_iff]
  induction t using fence_induction with
  | nil =>
    intro a b he
    rw [cut_nil] at he
    rw [(List.append_eq_nil_iff.1 he.symm).2, after?_nil]
  | fence f rest hne hr ih =>
    rw [cut_of_after? hne hr]
    exact ih (h.of_after? hne hr)
  | kept c t hno ih =>
    intro a b he
    have hcut := congrArg Prod.snd (cut_cons_of_none hno)
    cases a with
    | cons d a => exact ih (h.of_cons hno) a b (List.cons.inj (hcut.symm.trans he)).2
    | nil =>
      refine after?_eq_none_iff.2 fun s hs title r hn hb hclosing => ?_
      rw [List.nil_append, hb] at he
      -- a heading that begins what is left was there before ...
      have hc : isBlank c = false := by
        obtain rfl : c = ';' := (List.cons.inj (hcut.symm.trans he)).1
        decide
      obtain ⟨x, hx, hnone⟩ := h.exists_of_prefix_cut hc hno (newline_not_mem_heading hs hn)
        ⟨r, he.symm⟩
      rw [hx] at h hno he
      rw [cut_append hnone, List.append_cancel_left_eq] at he
      -- ... and so was a rule behind it, which would have closed it
      have hbefore : s.closing <:+: x := infix_of_infix_cut (h.of_append hnone)
        (newline_not_mem_closing s) (by rintro d ⟨⟩; decide) (he ▸ hclosing)
      exact after?_eq_none_iff.1 hno s hs title x hn rfl hbefore

end Fence

/-! ## Erasing twice -/

/-- What is left of a text whose fences stand on lines of their own holds no fence. -/
theorem not_holdsFence_erase {folder t : Text} {e : Erasure} (h : Fence.OnWholeLines t)
    (he : erase folder t = .ok e) : ¬ Fence.HoldsFence e.text := by
  rw [(erase_spec he).2.2.2]
  split
  · next hu =>
    obtain ⟨hcut, -⟩ := leavesAlone_iff.1 ⟨e, he, hu⟩
    exact Fence.cut_eq_self_iff_not_holdsFence.1 hcut
  · intro hf
    have hkept := (hf.of_infix (Text.trimEnd_infix_self _)).of_sublist (kept_sublist _ _)
      (List.Sublist.refl _)
    rw [Text.flatten_lines] at hkept
    exact Fence.not_holdsFence_cut h hkept

/-- **Erasing again changes nothing** in what is left of a text whose fences stand on lines of their
own, and reports nothing. -/
theorem erase_erase {folder t : Text} {e : Erasure} (h : Fence.OnWholeLines t)
    (he : erase folder t = .ok e) (folder' : Text) :
    LeavesAlone folder' e.text ∧ erase folder' e.text = .ok ⟨e.text, 0, [], 0, []⟩ := by
  have hcut := Fence.cut_eq_self_iff_not_holdsFence.2 (not_holdsFence_erase h he)
  have hclean := clean_of_erase he
  exact ⟨leavesAlone_iff.2 ⟨hcut, hclean⟩, erase_of_clean folder' hcut hclean⟩

/-- The header of a section. -/
def wholeStart : Text := Text.unlines .lf ["[Constants]".toList]

/-- A fence with a section. -/
def wholeFence : Text :=
  Text.unlines .lf ["; --------------- Raiden Remap ---------------".toList,
    "[HeadRemapFix]".toList] ++ "; --------------------------------------------".toList

/-- Blanks behind the rule of the fence, and another header. -/
def wholeEnd : Text := Text.unlines .lf ["  ".toList, "[Present]".toList]

theorem after?_wholeFence : Fence.after? (wholeFence ++ wholeEnd) = some wholeEnd := by
  decide +kernel

theorem not_begins_wholeStart (a b : Text) (he : wholeStart = a ++ b) (hb : b ≠ []) :
    Fence.after? (b ++ (wholeFence ++ wholeEnd)) = none := by
  obtain ⟨c, b, rfl⟩ := List.exists_cons_of_ne_nil hb
  have hno : ';' ∉ wholeStart := by decide
  exact Fence.after?_cons_of_ne (fun hc => hno (by simp [he, hc])) _

theorem cut_wholeText : Fence.cut (wholeStart ++ (wholeFence ++ wholeEnd)) =
    ([wholeFence], wholeStart ++ wholeEnd) := by
  rw [Fence.cut_append not_begins_wholeStart, Fence.cut_of_after? (by decide) after?_wholeFence,
    Fence.cut_of_not_mem (by decide)]

theorem onWholeLines_wholeText :
    Fence.OnWholeLines (wholeStart ++ (wholeFence ++ wholeEnd)) := by
  have hnone : Fence.places wholeEnd = [] := by
    have := Fence.map_fence_places wholeEnd
    rw [Fence.cut_of_not_mem (by decide)] at this
    simpa using this
  intro p hp
  rw [Fence.places_append not_begins_wholeStart,
    Fence.places_of_after? (by decide) after?_wholeFence, hnone] at hp
  obtain rfl := List.mem_singleton.1 hp
  have hbefore : ∀ l ∈ wholeStart.tails, '\n' ∉ l → l.all isBlank = true := by decide
  have hbehind : ∀ l ∈ wholeEnd.inits, '\n' ∉ l → l.all isBlank = true := by decide
  constructor
  · intro l hl hn
    refine List.all_eq_true.1 (hbefore l ((List.mem_tails _ _).2 ?_) hn)
    simpa [Fence.Place.after] using hl
  · intro l hl hn
    exact List.all_eq_true.1 (hbehind l ((List.mem_inits _ _).2 hl) hn)

/-- The fence goes, the line it ended on is blank now, and erasing again changes nothing. -/
theorem erase_erase_whole :
    ∃ e, erase [] (wholeStart ++ (wholeFence ++ wholeEnd)) = .ok e ∧ e.blocks = 1 ∧
      e.text = Text.unlines .lf ["[Constants]".toList, "  ".toList] ++ "[Present]".toList ∧
      erase [] e.text = .ok ⟨e.text, 0, [], 0, []⟩ := by
  have hbody (n : Text) (hn : n = "HeadRemapFix".toList) :
      ∃ b, (Ini.Document.plain (wholeStart ++ (wholeFence ++ wholeEnd))).bodies.get? n = some b ∧
        ∀ c ∈ b.callees, c = "HeadRemapFix".toList := by
    subst hn
    exact ⟨_, Option.eq_some_of_isSome (by decide +kernel), by decide +kernel⟩
  obtain ⟨r, hr⟩ : ∃ r, erase [] (wholeStart ++ (wholeFence ++ wholeEnd)) =
      .ok ⟨Text.trimEnd (wholeStart ++ wholeEnd), 1, [], 0, r⟩ :=
    exists_erase_of_fence cut_wholeText (by decide +kernel) hbody (by decide +kernel)
  have hleft : Text.trimEnd (wholeStart ++ wholeEnd) =
      Text.unlines .lf ["[Constants]".toList, "  ".toList] ++ "[Present]".toList := by
    decide +kernel
  exact ⟨_, hr, rfl, hleft, (erase_erase onWholeLines_wholeText hr []).2⟩

end Reskin.Remap
