import Reskin.Proofs.Ini.Document
import Reskin.Proofs.Remap.Fence
import Reskin.Remap.Erasure

/-!
# What erasure leaves

The second pass keeps clean lines and takes others, so erasure leaves a text alone exactly if no
fence begins in it and all of its lines are clean. A text with one fence among clean lines loses
that fence and its blank end, provided that what the fence runs is declared.

## Main definitions

* `Remap.Clean`: lines that the second pass keeps
* `Remap.LeavesAlone`: texts that erasure reports as unchanged

## Main results

* `Remap.sweep_append`, `Remap.clean_of_sweep`: clean lines, and only these, stay
* `Remap.leavesAlone_iff`: what is left alone
* `Remap.erase_spec`: what erasure answers
* `Remap.length_erase_lt_of_changed`, `Remap.isUnchanged_iff_text_eq`: a text that is changed gets
  shorter, so one that is not told to be changed is the same
* `Remap.exists_erase_of_fence`: the erasure of a single fence
-/

namespace Reskin.Remap

open Ini (Document Line.isHeader Line.isGeneratedHeader Line.isBoilerplate)

/-! ## The second pass -/

/-- A line that the second pass keeps, unless a generated section reaches to it. -/
def Clean (line : Text) : Prop :=
  if Line.isHeader line then Line.isGeneratedHeader line = false
  else Line.isBoilerplate line = false

instance (line : Text) : Decidable (Clean line) :=
  inferInstanceAs (Decidable (if Line.isHeader line then Line.isGeneratedHeader line = false
    else Line.isBoilerplate line = false))

/-- Blanks at the end of a line do not count. -/
theorem clean_append_blank {w : Text} (hw : Text.Blank w) {line : Text} :
    Clean (line ++ w) ↔ Clean line := by
  unfold Clean
  rw [Ini.Line.isHeader_append_blank hw, Ini.Line.isGeneratedHeader_append_blank hw,
    Ini.Line.isBoilerplate_append_blank hw]

theorem clean_iff_of_trimEnd_eq {a b : Text} (h : Text.trimEnd a = Text.trimEnd b) :
    Clean a ↔ Clean b :=
  iff_of_eq (Text.eq_of_trimEnd_eq (fun _ hw _ => propext (clean_append_blank hw)) h)

/-- A clean header has no generated name. -/
theorem isGenerated_eq_false_of_clean {t line : Text} (hl : line ∈ Text.lines t)
    (hc : Clean line) (hh : Line.isHeader line = true) :
    Naming.isGenerated (Ini.Line.sectionName line) = false := by
  rw [Clean, if_pos hh] at hc
  rw [Bool.eq_false_iff, ne_eq, ← Ini.Line.isGeneratedHeader_iff_of_mem_lines hl hh, hc]
  simp

/-- What has a generated name is declared by no clean header. -/
theorem sectionName_ne_of_clean {t line n : Text} (hl : line ∈ Text.lines t) (hc : Clean line)
    (hh : Line.isHeader line = true) (hn : Naming.isGenerated n = true) :
    Ini.Line.sectionName line ≠ n := by
  rintro rfl
  simp [isGenerated_eq_false_of_clean hl hc hh] at hn

theorem clean_of_blank {w : Text} (hw : Text.Blank w) : Clean w :=
  (clean_iff_of_trimEnd_eq (b := []) (Text.trimEnd_of_blank hw)).2 (by unfold Clean; decide)

/-- The blank end of a text does not count either. -/
theorem clean_of_trimEnd_eq {t t' : Text} (h : Text.trimEnd t = Text.trimEnd t')
    (hc : ∀ l ∈ Text.lines t', Clean l) : ∀ l ∈ Text.lines t, Clean l := by
  intro l hl
  rcases Text.exists_line_of_trimEnd_eq h hl with hb | ⟨l', hl', he⟩
  · exact clean_of_blank hb
  · exact (clean_iff_of_trimEnd_eq he).1 (hc l' hl')

/-- **Clean lines stay**, in front of what stays of other lines. -/
theorem sweep_append {as bs : List Text} (h : ∀ l ∈ as, Clean l) :
    sweep false (as ++ bs) = { sweep false bs with kept := as ++ (sweep false bs).kept } := by
  induction as with
  | nil => rfl
  | cons l as ih =>
    have hl := h l List.mem_cons_self
    unfold Clean at hl
    rw [List.cons_append, sweep, ih fun m hm => h m (List.mem_cons_of_mem _ hm)]
    split
    · next hh =>
      rw [if_pos hh] at hl
      simp [hl]
    · next hh =>
      rw [if_neg hh] at hl
      simp [hl]

theorem sweep_of_clean {ls : List Text} (h : ∀ l ∈ ls, Clean l) : sweep false ls = ⟨ls, [], 0⟩ := by
  simpa [sweep] using (sweep_append h : sweep false (ls ++ []) = _)

/-- Where nothing was taken, everything was clean. -/
theorem clean_of_sweep {ls : List Text} (hn : (sweep false ls).names = [])
    (hc : (sweep false ls).comments = 0) : ∀ l ∈ ls, Clean l := by
  induction ls with
  | nil => simp
  | cons l ls ih =>
    have step : Clean l ∧ (sweep false ls).names = [] ∧ (sweep false ls).comments = 0 := by
      unfold Clean
      rw [sweep] at hn hc
      by_cases hh : Line.isHeader l = true
      · by_cases hg : Line.isGeneratedHeader l = true <;> simp_all
      · by_cases hb : Line.isBoilerplate l = true <;> simp_all
    intro m hm
    rcases List.mem_cons.1 hm with rfl | hm
    · exact step.1
    · exact ih step.2.1 step.2.2 m hm

/-- The second pass adds nothing. -/
theorem kept_sublist (removing : Bool) (ls : List Text) : (sweep removing ls).kept.Sublist ls := by
  induction ls generalizing removing with
  | nil => exact List.Sublist.slnil
  | cons l ls ih =>
    rw [sweep]
    split
    · split
      · exact (ih true).cons l
      · exact (ih false).cons_cons l
    · split
      · exact (ih true).cons l
      · dsimp only
        split
        · exact (ih false).cons l
        · exact (ih false).cons_cons l

/-- Whatever stays is clean. -/
theorem clean_of_mem_kept {removing : Bool} {ls : List Text} {l : Text}
    (h : l ∈ (sweep removing ls).kept) : Clean l := by
  -- Induction on the lines: only the two cases that keep a line add one.
  induction ls generalizing removing with
  | nil => simp [sweep] at h
  | cons m ls ih =>
    rw [sweep] at h
    by_cases hh : Line.isHeader m = true
    · rw [if_pos hh] at h
      by_cases hg : Line.isGeneratedHeader m = true
      · rw [if_pos hg] at h
        exact ih h
      · rw [if_neg hg] at h
        rcases List.mem_cons.1 h with rfl | h
        · simpa [Clean, hh] using hg
        · exact ih h
    · rw [if_neg hh] at h
      split at h
      · exact ih h
      · dsimp only at h
        by_cases hb : Line.isBoilerplate m = true
        · rw [if_pos hb] at h
          exact ih h
        · rw [if_neg hb] at h
          rcases List.mem_cons.1 h with rfl | h
          · simpa [Clean, hh] using hb
          · exact ih h

/-- What is left of a text is part of the text. -/
theorem flatten_kept_sublist (removing : Bool) (t : Text) :
    (sweep removing (Text.lines t)).kept.flatten.Sublist t := by
  suffices h : ∀ {ls ls' : List Text}, ls.Sublist ls' → ls.flatten.Sublist ls'.flatten by
    have hkept := h (kept_sublist removing (Text.lines t))
    rwa [Text.flatten_lines] at hkept
  intro ls ls' h
  induction h with
  | slnil => exact List.Sublist.refl _
  | cons l _ ih => exact ih.trans (List.sublist_append_right _ _)
  | cons_cons l _ ih => exact (List.Sublist.refl l).append ih

/-- What is left of a text is no longer than the text. -/
theorem length_kept_le (removing : Bool) (t : Text) :
    (sweep removing (Text.lines t)).kept.flatten.length ≤ t.length :=
  (flatten_kept_sublist removing t).length_le

/-! ## Both passes -/

/-- What the two passes make of a text, whether they take anything or not. -/
def passes (t : Text) (resources : Table Buffers) : Erasure :=
  let (fences, unfenced) := Fence.cut t
  let s := sweep false (Text.lines unfenced)
  ⟨Text.trimEnd s.kept.flatten, fences.length, s.names.eraseDups, s.comments, resources⟩

theorem exists_eq_passes {folder t : Text} {e : Erasure} (h : erase folder t = .ok e) :
    ∃ r, e = if (passes t r).isUnchanged then { passes t r with text := t } else passes t r := by
  unfold erase at h
  simp only [bind, Except.bind, pure, Except.pure] at h
  split at h
  · simp at h
  split at h
  · simp at h
  exact ⟨_, (Except.ok.inj h).symm⟩

/-- **What erasure answers**, in terms of the two passes. -/
theorem erase_spec {folder t : Text} {e : Erasure} (h : erase folder t = .ok e) :
    e.blocks = (Fence.cut t).1.length ∧
      e.sections = (sweep false (Text.lines (Fence.cut t).2)).names.eraseDups ∧
      e.comments = (sweep false (Text.lines (Fence.cut t).2)).comments ∧
      e.text = if e.isUnchanged then t else
        Text.trimEnd (sweep false (Text.lines (Fence.cut t).2)).kept.flatten := by
  obtain ⟨r, rfl⟩ := exists_eq_passes h
  by_cases hu : (passes t r).isUnchanged = true
  · rw [if_pos hu]
    exact ⟨rfl, rfl, rfl, (if_pos hu).symm⟩
  · rw [if_neg hu]
    exact ⟨rfl, rfl, rfl, (if_neg hu).symm⟩

/-- Erasure reports the text as unchanged. -/
def LeavesAlone (folder t : Text) : Prop := ∃ e, erase folder t = .ok e ∧ e.isUnchanged = true

theorem Erasure.isUnchanged_iff {e : Erasure} :
    e.isUnchanged = true ↔ e.blocks = 0 ∧ e.sections = [] ∧ e.comments = 0 := by
  simp [isUnchanged, and_assoc]

theorem erase_of_clean (folder : Text) {t : Text} (hcut : Fence.cut t = ([], t))
    (hclean : ∀ l ∈ Text.lines t, Clean l) : erase folder t = .ok ⟨t, 0, [], 0, []⟩ := by
  have hsweep := sweep_of_clean hclean
  unfold erase
  simp [hcut, hsweep, passResources, bind, Except.bind, pure, Except.pure, Erasure.isUnchanged]

/-- **What is left alone**: a text that no fence begins in, with clean lines. -/
theorem leavesAlone_iff {folder t : Text} :
    LeavesAlone folder t ↔ Fence.cut t = ([], t) ∧ ∀ l ∈ Text.lines t, Clean l := by
  constructor
  · rintro ⟨e, he, hu⟩
    obtain ⟨hb, hs, hc, -⟩ := erase_spec he
    obtain ⟨hb', hs', hc'⟩ := Erasure.isUnchanged_iff.1 hu
    have hcut : (Fence.cut t).1 = [] := List.length_eq_zero_iff.1 (hb ▸ hb')
    have hkept : Fence.cut t = ([], t) := Fence.cut_eq_self_of_nil hcut
    have hnames : (sweep false (Text.lines t)).names = [] := by
      rw [hs', hkept] at hs
      refine List.eq_nil_iff_forall_not_mem.2 fun n hn => ?_
      rw [← List.mem_eraseDups, ← hs] at hn
      simp at hn
    refine ⟨hkept, clean_of_sweep hnames ?_⟩
    rw [hkept] at hc
    exact hc ▸ hc'
  · rintro ⟨hcut, hclean⟩
    exact ⟨_, erase_of_clean folder hcut hclean, rfl⟩

/-- **Whatever is left** of a text has clean lines. -/
theorem clean_of_erase {folder t : Text} {e : Erasure} (h : erase folder t = .ok e) :
    ∀ l ∈ Text.lines e.text, Clean l := by
  by_cases hu : e.isUnchanged = true
  · obtain ⟨-, hclean⟩ := leavesAlone_iff.1 ⟨e, h, hu⟩
    rwa [(erase_spec h).2.2.2, if_pos hu]
  · rw [(erase_spec h).2.2.2, if_neg hu]
    refine clean_of_trimEnd_eq (Text.trimEnd_trimEnd _) fun l hl => ?_
    rw [Text.lines_flatten_of_sublist (kept_sublist _ _)] at hl
    exact clean_of_mem_kept hl

/-- **A text that is changed** gets shorter. -/
theorem length_erase_lt_of_changed {folder t : Text} {e : Erasure} (h : erase folder t = .ok e)
    (hu : e.isUnchanged = false) : e.text.length < t.length := by
  rw [(erase_spec h).2.2.2, if_neg (by simp [hu])]
  have htrim := (Text.trimEnd_infix_self
    (sweep false (Text.lines (Fence.cut t).2)).kept.flatten).length_le
  by_cases hf : (Fence.cut t).1 = []
  · have hcut := Fence.cut_eq_self_of_nil hf
    rw [hcut] at htrim ⊢
    refine lt_of_le_of_ne (htrim.trans (length_kept_le false t)) fun heq => ?_
    -- at the same length all lines have stayed, so that they are clean
    have hkept : (sweep false (Text.lines t)).kept.flatten = t :=
      (flatten_kept_sublist false t).eq_of_length_le (heq.symm.le.trans htrim)
    have hlines : Text.lines t = (sweep false (Text.lines t)).kept := by
      rw [← Text.lines_flatten_of_sublist (kept_sublist false (Text.lines t)), hkept]
    have halone : LeavesAlone folder t :=
      leavesAlone_iff.2 ⟨hcut, fun l hl => clean_of_mem_kept (hlines ▸ hl)⟩
    obtain ⟨e', he', hu'⟩ := halone
    obtain rfl := Except.ok.inj (h.symm.trans he')
    simp [hu] at hu'
  · exact (htrim.trans (length_kept_le false _)).trans_lt (Fence.length_cut_lt hf)

/-- **A text is reported as unchanged** exactly if it is. -/
theorem isUnchanged_iff_text_eq {folder t : Text} {e : Erasure} (h : erase folder t = .ok e) :
    e.isUnchanged = true ↔ e.text = t := by
  refine ⟨fun hu => by rw [(erase_spec h).2.2.2, if_pos hu], fun he => ?_⟩
  by_contra hu
  have hlt := length_erase_lt_of_changed h (by simpa using hu)
  rw [he] at hlt
  exact lt_irrefl _ hlt

/-- A text with a fence gets shorter. -/
theorem length_erase_lt {folder t : Text} {e : Erasure} (h : erase folder t = .ok e)
    (hf : (Fence.cut t).1 ≠ []) : e.text.length < t.length := by
  refine length_erase_lt_of_changed h (Bool.eq_false_iff.2 fun hu => hf ?_)
  rw [Erasure.isUnchanged_iff, (erase_spec h).1] at hu
  exact List.length_eq_zero_iff.1 hu.1

/-- Inside a closed set of declared names the resources of a pass are found. -/
theorem exists_generatedResources {d : Document} {S : Text → Prop}
    (hS : ∀ n, S n → ∃ b, d.bodies.get? n = some b ∧ ∀ c ∈ b.callees, S c) (folder : Text)
    {names : List Text} (hn : ∀ n ∈ names, S n) :
    ∃ r, generatedResources folder d names = .ok r := by
  have hroots : ∀ n ∈ names.filter d.bodies.has, S n := fun n h => hn n (List.mem_filter.1 h).1
  obtain ⟨g, hg⟩ := CallGraph.build_of_closed (g := .empty .blend) hS hroots
  unfold generatedResources
  simp only [hg]
  exact ⟨_, rfl⟩

/-- **A single fence** among clean lines goes, and with it the blank end of the text, if the fence
runs declared sections only. -/
theorem exists_erase_of_fence {folder t fence rest : Text} {S : Text → Prop}
    (hcut : Fence.cut t = ([fence], rest)) (hclean : ∀ l ∈ Text.lines rest, Clean l)
    (hS : ∀ n, S n → ∃ b, (Document.plain t).bodies.get? n = some b ∧ ∀ c ∈ b.callees, S c)
    (hn : ∀ n ∈ fencedNames [fence], S n) :
    ∃ r, erase folder t = .ok ⟨Text.trimEnd rest, 1, [], 0, r⟩ := by
  obtain ⟨r, hr⟩ := exists_generatedResources hS folder hn
  have hsweep := sweep_of_clean hclean
  refine ⟨r, ?_⟩
  unfold erase
  simp [hcut, hsweep, passResources, hr, bind, Except.bind, pure, Except.pure,
    Erasure.isUnchanged, Text.flatten_lines]

end Reskin.Remap
