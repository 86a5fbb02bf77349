import Reskin.Proofs.ModFile.RoundTrip
import Reskin.Proofs.Remap.Missing

/-!
# Removal of a block that is cut short

A text that generated content was added to may be cut off at any line boundary of what was added.
Without its rule the block is no fence; the second pass takes what is left of it line by line. What
the pass takes has to be complete, though: it fails for a section that the lines left run and that
stood behind the cut. Otherwise removal leaves the text without its blank end, or, where the cut is
ahead of the block and there is nothing to remove, the line breaks that have been added too.

## Main definitions

* `ModFile.openBlock`: a block without its rule

## Main results

* `ModFile.cut_torn`: nothing is cut out where the rule is missing
* `ModFile.of_runs_torn`, `ModFile.of_lacks_torn`: calls from what is left of a block stay in it
* `ModFile.text_of_erase_torn`: what is left of a block goes
* `ModFile.cut_cases`: where a cut falls
* `ModFile.undo_truncated`: removal from a text that is cut short
-/

namespace Reskin

open Ini (Document Line.isHeader Line.sectionName)
open Remap (Clean Erasable Inert Lacks LeavesAlone blockRule blockStyle)
open Remap.Fence (FenceFree RuleFree)

namespace ModFile

/-! ## Ahead of a block -/

section Ahead

variable {t : Text} (hrule : RuleFree t)

include hrule

theorem not_shortestRule_infix_ahead : ¬ Remap.Fence.shortestRule <:+: ahead t := by
  intro hi
  obtain ⟨w, hw, hahead⟩ := ahead_eq t
  rw [hahead, Text.infix_append_blank_iff
    (by decide : Remap.Fence.shortestRule.getLast? = some '-') (by decide) hw] at hi
  exact Remap.Fence.ruleFree_iff.1 hrule (hi.trans (Text.trimEnd_infix_self t))

theorem cut_of_prefix_ahead {p : Text} (hp : p <+: ahead t) : Remap.Fence.cut p = ([], p) :=
  Remap.Fence.cut_eq_self_of_ruleFree (Remap.Fence.ruleFree_iff.2 fun hi =>
    not_shortestRule_infix_ahead hrule (hi.trans hp.isInfix))

/-- **Ahead of a block** there is nothing to remove, however many of the line breaks are left. -/
theorem erase_of_prefix_ahead (hclean : ∀ l ∈ Text.lines t, Clean l) (folder : Text) {p : Text}
    (hp : p <+: ahead t) (hend : Text.trimEnd t <+: p) :
    Remap.erase folder p = .ok ⟨p, 0, [], 0, []⟩ := by
  refine Remap.erase_of_clean folder (cut_of_prefix_ahead hrule hp)
    (Remap.clean_of_trimEnd_eq ?_ hclean)
  obtain ⟨w, hw, hahead⟩ := ahead_eq t
  obtain ⟨v, rfl⟩ := hend
  have hv : v <+: w := (List.prefix_append_right_inj _).1 (hahead ▸ hp)
  have hv : Text.Blank v := fun c hc => hw c (hv.subset hc)
  rw [Text.trimEnd_append_of_blank hv, Text.trimEnd_trimEnd]

end Ahead

/-! ## Blocks without a rule -/

/-- A block without its rule: a heading and the lines that follow it. -/
def openBlock (e : Text.LineEnding) (title : Text) (ls : List Text) : Text :=
  Text.unlines e (blockStyle.heading (title ++ [' ']) :: ls)

theorem fenceOf_eq (e : Text.LineEnding) (title : Text) (ls : List Text) :
    fenceOf e title ls = openBlock e title ls ++ blockRule title := by
  simp [fenceOf, openBlock]

theorem isHeader_heading {title : Text} : Line.isHeader (blockStyle.heading title) = false :=
  Ini.Line.isHeader_comment _

section Torn

variable {e : Text.LineEnding} {title : Text} {ls : List Text} {S : Text → Prop} {t : Text}
  (htitle : ∀ c ∈ title, c.isAlphanum = true ∨ c = ' ') (hls : ∀ l ∈ ls, Inert S l)

include htitle hls

theorem quiet_of_mem_openBlock {l : Text} (h : l ∈ blockStyle.heading (title ++ [' ']) :: ls) :
    Remap.Quiet l := by
  rcases List.mem_cons.1 h with rfl | h
  · exact quiet_heading htitle
  · exact (hls l h).quiet

theorem lines_openBlock : Text.lines (openBlock e title ls) =
    (blockStyle.heading (title ++ [' ']) :: ls).map (· ++ e.text) :=
  Text.lines_unlines (fun _ h => (quiet_of_mem_openBlock htitle hls h).newline) e

/-- **Nothing is cut out** of a text with a block whose rule is missing. -/
theorem cut_torn (hrule : RuleFree t) {p : Text} (hp : p <+: ahead t ++ openBlock e title ls) :
    Remap.Fence.cut p = ([], p) := by
  refine Remap.Fence.cut_eq_self_of_ruleFree (Remap.Fence.ruleFree_iff.2 fun hi => ?_)
  obtain ⟨a, ha⟩ := (whole_ahead t).exists_eq_append (ahead_ne_nil t)
  -- a rule would be on one side of the line break that the block stands behind
  have hi := hi.trans hp.isInfix
  rw [ha, List.append_assoc, List.singleton_append,
    Text.infix_append_cons Remap.Fence.newline_not_mem_shortestRule] at hi
  rcases hi with hi | hi
  · exact not_shortestRule_infix_ahead hrule (ha ▸ List.infix_append_of_infix_left hi)
  · exact Remap.not_shortestRule_infix_unlines
      (fun _ h => quiet_of_mem_openBlock htitle hls h) e hi

/-- **What is left of a block** declares and runs sections of the block only. -/
theorem confined_of_mem_torn {x : Text} (hx : Text.CutAtLine (fenceOf e title ls) x) {l : Text}
    (hl : l ∈ Text.lines x) : Confined S l := by
  obtain ⟨ls', hp, hsame⟩ := Text.exists_sameLines_of_cutAtLine hx
  obtain ⟨l', hl', he⟩ := hsame.exists_of_mem hl
  refine Confined.of_trimEnd_eq he ?_
  exact confined_of_mem_lines_fenceOf htitle hls (hp.subset hl')

section Calls

variable (hclean : ∀ l ∈ Text.lines (ahead t), Clean l)
  (hgen : ∀ n, S n → Naming.isGenerated n = true) {x : Text}
  (hx : Text.CutAtLine (fenceOf e title ls) x)

include hclean hgen hx

omit hgen in
/-- A generated section is one of the block. -/
theorem of_isGenerated_torn {n : Text} (hn : Naming.isGenerated n = true)
    (h : (Document.plain (ahead t ++ x)).bodies.has n = true) :
    S n ∧ ∃ l ∈ Text.lines x, Line.isHeader l = true ∧ Line.sectionName l = n := by
  obtain ⟨l, hl, hh, rfl⟩ := Document.exists_header_of_has h
  rw [Text.lines_append (whole_ahead t), List.mem_append] at hl
  rcases hl with hl | hl
  · exact absurd rfl (Remap.sectionName_ne_of_clean hl (hclean l hl) hh hn)
  · exact ⟨(confined_of_mem_torn htitle hls hx hl).1 hh, l, hl, hh, rfl⟩

/-- **The sections of the block** that are left run sections of the block only. -/
theorem of_runs_torn {n c : Text} (hn : S n)
    (h : CallGraph.Runs (Document.plain (ahead t ++ x)).bodies n c) : S c := by
  obtain ⟨b, hb, hc⟩ := h
  obtain ⟨-, l, hl, hh, rfl⟩ := of_isGenerated_torn htitle hls hclean hx (hgen n hn)
    (by simp [Table.has, hb])
  have hbefore : ∀ m ∈ Text.lines (ahead t), Line.isHeader m = true →
      Line.sectionName m ≠ Line.sectionName l := fun m hm hmh =>
    Remap.sectionName_ne_of_clean hm (hclean m hm) hmh (hgen _ hn)
  obtain ⟨b', hb', hin⟩ := exists_body_of_confined
    (fun m hm => confined_of_mem_torn htitle hls hx hm) hl hh hbefore
    (by simp : ∀ m ∈ ([] : List Text), _) (by simp)
  rw [List.append_nil, ← Text.lines_append (whole_ahead t)] at hb'
  obtain rfl : b = b' := Option.some.inj (hb.symm.trans hb')
  exact hin c hc

/-- What a text with a torn block lacks is a section of the block. -/
theorem of_lacks_torn
    (hfenced : ∀ n ∈ Remap.fencedNames (Remap.Fence.cut (ahead t ++ x)).1, S n) {n : Text}
    (h : Lacks (ahead t ++ x) n) : S n := by
  obtain ⟨⟨r, ⟨hhas, hr⟩, hreach⟩, -⟩ := h
  induction hreach with
  | refl => exact hr.elim (hfenced r) fun hr => (of_isGenerated_torn htitle hls hclean hx hr hhas).1
  | tail _ hrun ih => exact of_runs_torn htitle hls hclean hgen hx ih hrun

end Calls

/-! ## Removal -/

/-- The lines that are left of a block without its rule are the first ones. -/
theorem exists_lines_torn {x : Text} (hx : Text.CutAtLine (openBlock e title ls) x) :
    ∃ ls', ls' <+: blockStyle.heading (title ++ [' ']) :: ls ∧
      Text.SameLines (Text.lines x) ls' := by
  obtain ⟨ms, ⟨r, hr⟩, hsame⟩ := Text.exists_sameLines_of_cutAtLine hx
  rw [lines_openBlock htitle hls] at hr
  obtain ⟨ls', rest, hls', rfl, -⟩ := List.map_eq_append_iff.1 hr.symm
  refine ⟨ls', ⟨rest, hls'.symm⟩, hsame.trans ?_⟩
  simp [Text.trimEnd_append_of_blank e.blank]

/-- A text is not left alone while anything of the block is left, for the heading counts. -/
theorem not_leavesAlone_torn {x : Text} (hx : Text.CutAtLine (openBlock e title ls) x)
    (hne : x ≠ []) (folder : Text) : ¬ LeavesAlone folder (ahead t ++ x) := by
  intro halone
  obtain ⟨-, hclean⟩ := Remap.leavesAlone_iff.1 halone
  obtain ⟨ls', ⟨rest, hrest⟩, hsame⟩ := exists_lines_torn htitle hls hx
  obtain ⟨m, ms, rfl⟩ : ∃ m ms, ls' = m :: ms := List.exists_cons_of_ne_nil fun hn =>
    Text.lines_ne_nil hne (List.map_eq_nil_iff.1 (hn ▸ hsame))
  obtain rfl : m = blockStyle.heading (title ++ [' ']) := (List.cons.inj hrest).1
  obtain ⟨l, hl, he⟩ := Text.SameLines.exists_of_mem hsame.symm List.mem_cons_self
  have hmem : l ∈ Text.lines (ahead t ++ x) := by
    rw [Text.lines_append (whole_ahead t)]
    exact List.mem_append_right _ hl
  have hl := (Remap.clean_iff_of_trimEnd_eq he).1 (hclean l hmem)
  rw [Clean, isHeader_heading, Remap.isBoilerplate_heading Remap.blockStyle_mem] at hl
  simp at hl

/-- **What is left of a block goes**, and with it the blank end of the text. -/
theorem text_of_erase_torn (herasable : Erasable ls) (hrule : RuleFree t)
    (hclean : ∀ l ∈ Text.lines (ahead t), Clean l) {x : Text}
    (hx : Text.CutAtLine (openBlock e title ls) x) (hne : x ≠ []) {folder : Text}
    {r : Remap.Erasure} (h : Remap.erase folder (ahead t ++ x) = .ok r) :
    r.text = Text.trimEnd t := by
  obtain ⟨ls', ⟨rest, hrest⟩, hsame⟩ := exists_lines_torn htitle hls hx
  have hcut : Remap.Fence.cut (ahead t ++ x) = ([], ahead t ++ x) :=
    cut_torn htitle hls hrule ((List.prefix_append_right_inj _).2 hx.isPrefix)
  have hchanged : ¬ r.isUnchanged = true := fun hu =>
    not_leavesAlone_torn htitle hls hx hne folder ⟨r, h, hu⟩
  obtain ⟨-, -, -, htext⟩ := Remap.erase_spec h
  have hblock : Erasable (ls' ++ rest) := hrest ▸ .cons isHeader_heading
    (.inr (Remap.isBoilerplate_heading Remap.blockStyle_mem _)) herasable
  have hgone : Erasable (Text.lines x) := hblock.of_append.of_sameLines hsame
  have hblank : Text.Blank (Remap.sweep false (Text.lines x)).kept.flatten := by
    intro c hc
    obtain ⟨l, hl, hc⟩ := List.mem_flatten.1 hc
    exact Remap.blank_of_mem_kept hgone hl c hc
  rw [htext, if_neg hchanged, hcut, Text.lines_append (whole_ahead t), Remap.sweep_append hclean]
  simp only [List.flatten_append, Text.flatten_lines]
  rw [Text.trimEnd_append_of_blank hblank, trimEnd_ahead]

end Torn

/-! ## Where the cut falls -/

/-- **A cut falls** ahead of the block, or leaves some of it: all, or less than its rule. -/
theorem cut_cases {e : Text.LineEnding} {title : Text} {ls : List Text} {t p : Text}
    (hcut : Text.CutAtLine (ahead t ++ fenceOf e title ls) p) :
    p <+: ahead t ∨ ∃ x, p = ahead t ++ x ∧ ¬ p <+: ahead t ∧
      Text.CutAtLine (fenceOf e title ls) x ∧
        (x = fenceOf e title ls ∨ x ≠ [] ∧ Text.CutAtLine (openBlock e title ls) x) := by
  by_cases hp : p <+: ahead t
  · exact .inl hp
  obtain ⟨x, rfl⟩ := (List.prefix_or_prefix_of_prefix hcut.isPrefix
    (List.prefix_append _ _)).resolve_left hp
  have hne : x ≠ [] := by
    rintro rfl
    simp at hp
  have hx := hcut.of_append
  refine .inr ⟨x, rfl, hp, hx, ?_⟩
  rw [fenceOf_eq] at hx ⊢
  exact (hx.of_append_last (Remap.newline_not_mem_blockRule title)).imp_right fun h => ⟨hne, h⟩

namespace Application

variable {f : ModFile} {d : Disk} (a : Application f d) (hf : f.IsCurrent) (hp : f.IsPlain)
  (hfree : FenceFree a.read.text) (hclean : ∀ l ∈ Text.lines a.read.text, Clean l) {p : Text}
  (hcut : Text.CutAtLine a.text p) (hend : Text.trimEnd a.read.text <+: p)

include hf hp hfree hclean

/-- The sections that the block declares are declared in the text that results. -/
theorem has_of_declares {n : Text} (hn : a.Declares n) :
    (Document.plain a.text).bodies.has n = true := by
  obtain ⟨ls, htext, hinert, hhead, -⟩ := a.exists_fence hf hp hfree.noRule
  obtain ⟨b, hb, -⟩ := exists_body_of_declared (s := []) (a.plain_title hf hp) hinert
    (whole_ahead _) (clean_ahead hclean) (.inl rfl : MayFollow [] [])
    (fun _ => a.isGenerated_of_declares hf hp hfree.noRule) hhead hn
  rw [List.append_nil, ← htext] at hb
  simp [Table.has, hb]

/-- Nothing is lacking in the text that results. -/
theorem not_lacks_text (n : Text) : ¬ Lacks a.text n := by
  intro hn
  obtain ⟨ls, htext, hinert, -, -⟩ := a.exists_fence hf hp hfree.noRule
  have htitle := a.plain_title hf hp
  have hS : a.Declares n := by
    have hfence := cut_fenceOf (e := Text.lineEnding a.read.text) htitle hinert hfree
      (.inl rfl : MayFollow [] [])
    rw [List.append_nil] at hfence
    rw [htext] at hn
    refine of_lacks_torn htitle hinert (clean_ahead hclean)
      (fun _ => a.isGenerated_of_declares hf hp hfree.noRule) Text.CutAtLine.refl ?_ hn
    rw [hfence]
    exact fun _ hm => of_mem_fencedNames htitle hinert hm
  have := a.has_of_declares hf hp hfree hclean hS
  simp [hn.2] at this

include hcut hend

/-- **Erasure of a text that is cut** short fails exactly for a section that the text lacks, which is
one of the block. -/
theorem erase_truncated (folder : Text) :
    (∀ r, Remap.erase folder p = .ok r →
      (p <+: ahead a.read.text → r.text = p) ∧
        (¬ p <+: ahead a.read.text → r.text = Text.trimEnd a.read.text)) ∧
    ((∃ r, Remap.erase folder p = .ok r) ↔ ∀ n, ¬ Lacks p n) ∧
    (∀ fault, Remap.erase folder p = .error fault →
      ∃ n, fault = .missingSection n ∧ Lacks p n ∧ a.Declares n) := by
  obtain ⟨ls, htext, hinert, hhead, herasable⟩ := a.exists_fence hf hp hfree.noRule
  have htitle := a.plain_title hf hp
  have hgen := fun n => a.isGenerated_of_declares (n := n) hf hp hfree.noRule
  have hahead := clean_ahead hclean
  rw [htext] at hcut
  rcases cut_cases hcut with hp | ⟨x, rfl, hpre, hx, rfl | ⟨hne, hopen⟩⟩
  · have herase := erase_of_prefix_ahead hfree.noRule hclean folder hp hend
    refine ⟨fun r hr => ?_, Remap.exists_erase_iff_of_no_fence folder
      (cut_of_prefix_ahead hfree.noRule hp), fun fault hfault => ?_⟩
    · obtain rfl := Except.ok.inj (herase.symm.trans hr)
      exact ⟨fun _ => rfl, fun hno => absurd hp hno⟩
    · simp [herase] at hfault
  -- the whole block, which is cut out as a fence
  · obtain ⟨r, herase⟩ := a.exists_erase hf hp hfree hclean (.inl rfl : MayFollow [] []) folder
    rw [List.append_nil, List.append_nil, trimEnd_ahead, htext] at herase
    have hno := a.not_lacks_text hf hp hfree hclean
    rw [htext] at hno
    refine ⟨fun r' hr => ?_, iff_of_true ⟨_, herase⟩ hno, fun fault hfault => ?_⟩
    · obtain rfl := Except.ok.inj (herase.symm.trans hr)
      exact ⟨fun h => absurd h hpre, fun _ => rfl⟩
    · simp [herase] at hfault
  -- less than the block, which is no fence
  · have hnone := cut_torn htitle hinert hfree.noRule
      ((List.prefix_append_right_inj _).2 hopen.isPrefix)
    refine ⟨fun r hr => ⟨fun h => absurd h hpre, fun _ => ?_⟩,
      Remap.exists_erase_iff_of_no_fence folder hnone, fun fault hfault => ?_⟩
    · exact text_of_erase_torn htitle hinert herasable hfree.noRule hahead hopen hne hr
    · obtain ⟨n, rfl, hn⟩ := Remap.exists_lacks_of_no_fence hnone hfault
      refine ⟨n, rfl, hn, of_lacks_torn htitle hinert hahead hgen hx ?_ hn⟩
      simp [hnone, Remap.fencedNames]

end Application

/-- **Removal from a text that is cut short** at a line boundary, ahead of the block, inside it or at
its end. It succeeds exactly if the sections that it takes lead only to sections that are still
declared, and then it leaves the text without its blank end; ahead of the block there is nothing to
remove, so there all that is left of the text stays and is reported as unchanged. Otherwise the fault
names a section of the block that stood behind the cut; so removal succeeds if no section has been
lost. -/
theorem undo_truncated {f f' g : ModFile} {d : Disk} {variants : VariantSet} (hf : f.IsCurrent)
    (hp : f.IsPlain) (hload : f.load d = .ok g) (halone : LeavesAlone f.folder g.text)
    (hfree : FenceFree g.text) (h : f.apply d = (.ok (.applied variants), f')) {p : Text}
    (hcut : Text.CutAtLine f'.text p) (hend : Text.trimEnd g.text <+: p) {k k' : ModFile} {d' : Disk}
    (hk : k.load d' = .ok k') (hk' : k'.text = p) :
    (∀ e u, k.undo d' = (.ok e, u) → u.text = e.text ∧
      (p <+: ahead g.text → u.text = p ∧ e.isUnchanged = true) ∧
      (¬ p <+: ahead g.text → u.text = Text.trimEnd g.text)) ∧
    ((∃ e u, k.undo d' = (.ok e, u)) ↔ ∀ n, ¬ Lacks p n) ∧
    (∀ fault u, k.undo d' = (.error fault, u) → ∃ n, fault = .missingSection n ∧ Lacks p n ∧
      Naming.isGenerated n = true ∧ (Document.plain f'.text).bodies.has n = true) ∧
    ((∀ n, (Document.plain f'.text).bodies.has n = true → (Document.plain p).bodies.has n = true) →
      ∃ e u, k.undo d' = (.ok e, u)) := by
  obtain ⟨a, rfl, -⟩ := exists_application h
  rw [← a.text_read hload] at hfree halone hend ⊢
  obtain ⟨-, hclean⟩ := Remap.leavesAlone_iff.1 halone
  rw [a.text_result] at hcut ⊢
  obtain ⟨htext, hok, herror⟩ := a.erase_truncated hf hp hfree hclean hcut hend k'.folder
  rw [← hk', ← exists_undo_iff hk] at hok
  have hfault (fault : Fault) (u : ModFile) (hu : k.undo d' = (.error fault, u)) :
      ∃ n, fault = .missingSection n ∧ Lacks p n ∧ Naming.isGenerated n = true ∧
        (Document.plain a.text).bodies.has n = true := by
    obtain ⟨n, rfl, hn, hdeclared⟩ := herror fault (hk' ▸ erase_of_undo_error hk hu)
    exact ⟨n, rfl, hn, a.isGenerated_of_declares hf hp hfree.noRule hdeclared,
      a.has_of_declares hf hp hfree hclean hdeclared⟩
  refine ⟨fun e u hu => ?_, hk' ▸ hok, hfault, fun hall => ?_⟩
  · obtain ⟨he, ht⟩ := erase_of_undo hk hu
    rw [hk'] at he
    obtain ⟨hahead, hblock⟩ := htext e he
    rw [ht]
    have hunchanged (hpre : p <+: ahead a.read.text) : e.isUnchanged = true :=
      (Remap.isUnchanged_iff_text_eq he).2 (hahead hpre)
    exact ⟨rfl, fun hpre => ⟨hahead hpre, hunchanged hpre⟩, hblock⟩
  · cases hu : k.undo d' with
    | mk result u =>
      cases result with
      | ok e => exact ⟨e, u, rfl⟩
      | error fault =>
        obtain ⟨n, -, hn, -, hhas⟩ := hfault fault u hu
        have := hall n hhas
        simp [hn.2] at this

/-- What is left of the block of the blend override behind its first header. -/
def tornText : Text := Text.unlines .lf ["[TextureOverrideRaidenBlend]".toList,
  "hash = 111".toList, [], [], "; --------------- Raiden Remap ---------------".toList,
  Remap.credit "Raiden".toList, [], "; ***** RaidenBoss *****".toList,
  "[TextureOverrideRaidenRaidenBossRemapBlend]".toList]

/-- The sections of that text. -/
def tornBodies : Ini.Bodies :=
  [("TextureOverrideRaidenBlend".toList, [.content [("hash".toList, "111".toList)]]),
    ("TextureOverrideRaidenRaidenBossRemapBlend".toList, [.content []])]

/-- The blend override stays. -/
theorem undo_truncated_blend : ∃ e u, (ofText tornText).undo .empty = (.ok e, u) ∧
    u.text = Text.unlines .lf ["[TextureOverrideRaidenBlend]".toList] ++ "hash = 111".toList := by
  have hcurrent : (raidenFile blendText).IsCurrent := isCurrent_of_parsed rfl
  have hfree : FenceFree blendText := Remap.Fence.fenceFree_of_not_mem (by decide)
  have hprefix : tornText <+: (blendApplication .empty).result.text := by
    rw [Application.text_result]
    decide +kernel
  have hcut : Text.CutAtLine (blendApplication .empty).result.text tornText :=
    .of_whole (Text.whole_unlines _ _) hprefix
  obtain ⟨htext, hok, -⟩ := undo_truncated hcurrent (isPlain_raidenFile blendText) rfl
    (leavesAlone_blendText _) hfree (blendApplication .empty).apply_eq hcut (by decide +kernel)
    (rfl : (ofText tornText).load .empty = .ok (ofText tornText)) rfl
  have hbodies : (Document.plain tornText).bodies = tornBodies := by decide +kernel
  have hwalk : CallGraph.walkWithin tornBodies 2 [] tornBodies.names = some (none, tornBodies) := by
    decide +kernel
  obtain ⟨e, u, hu⟩ := hok.2 (Remap.not_lacks_of_walk hbodies hwalk)
  exact ⟨e, u, hu, ((htext e u hu).2.2 (by decide +kernel)).trans (by decide +kernel)⟩

/-! ## A call across the cut -/

/-- A blend override that runs a section. -/
def callText : Text := Text.unlines .lf ["[TextureOverrideRaidenBlend]".toList,
  "run = CommandListHead".toList, [], "[CommandListHead]".toList, "hash = 111".toList]

/-- The sections of the text. -/
def callBodies : Ini.Bodies :=
  [("TextureOverrideRaidenBlend".toList, [.content [("run".toList, "CommandListHead".toList)]]),
    ("CommandListHead".toList, [.content [("hash".toList, "111".toList)]])]

/-- What is generated for the one variant, up to the call and behind it. -/
def callPart : Text :=
  Text.unlines .lf [[], [], "; ***** RaidenBoss *****".toList,
    "[TextureOverrideRaidenRaidenBossRemapBlend]".toList,
    "run = CommandListHeadRaidenBossRemapBlend".toList, [],
    "[CommandListHeadRaidenBossRemapBlend]".toList, "hash = 111".toList, []]

/-- The stages of an application to the text. -/
def callApplication (d : Disk) : Application (raidenFile callText) d :=
  .ofWalks 2 "TextureOverrideRaidenBlend".toList raiden callBodies [] [] [callPart]

/-- The text with its block up to the call. -/
def tornCallText : Text := callText ++ Text.unlines .lf [[], [],
  "; --------------- Raiden Remap ---------------".toList,
  Remap.credit "Raiden".toList, [], "; ***** RaidenBoss *****".toList,
  "[TextureOverrideRaidenRaidenBossRemapBlend]".toList,
  "run = CommandListHeadRaidenBossRemapBlend".toList]

/-- The section that is left of its block. -/
def tornCall : Text × Ini.Body := ("TextureOverrideRaidenRaidenBossRemapBlend".toList,
  [.content [("run".toList, "CommandListHeadRaidenBossRemapBlend".toList)]])

/-- Its erasure fails for the section that the one left runs. -/
theorem erase_tornCallText (folder : Text) : Remap.erase folder tornCallText =
    .error (.missingSection "CommandListHeadRaidenBossRemapBlend".toList) := by
  have hcut : Remap.Fence.cut tornCallText = ([], tornCallText) :=
    Remap.Fence.cut_eq_self_of_tails (by decide +kernel)
  have hnames : Remap.strayNames tornCallText = [tornCall.1] := by
    rw [Remap.strayNames, hcut]
    decide +kernel
  have hbodies : (Document.plain tornCallText).bodies = callBodies ++ [tornCall] := by
    decide +kernel
  have hwalk : CallGraph.walkWithin (Document.plain tornCallText).bodies 2 []
      ([tornCall.1].filter (Document.plain tornCallText).bodies.has) =
        some (some "CommandListHeadRaidenBossRemapBlend".toList, [tornCall]) := by
    rw [hbodies]
    decide +kernel
  exact Remap.erase_eq_error_of_walk (by simp [hcut, Remap.fencedNames, Remap.Misses])
    (congrArg Prod.snd hcut) hnames hwalk

/-- **A call across the cut**: removal fails for the section that stood behind it. And where no more
than the end of the last line is left of what was added, it stays. -/
theorem undo_torn_call :
    (raidenFile callText).apply .empty =
        (.ok (.applied (callApplication .empty).built.toFix), (callApplication .empty).result) ∧
      LeavesAlone (raidenFile callText).folder callText ∧ FenceFree callText ∧
      (Text.CutAtLine (callApplication .empty).result.text tornCallText ∧
        callText <+: tornCallText ∧ ((ofText tornCallText).undo .empty).1 =
          .error (.missingSection "CommandListHeadRaidenBossRemapBlend".toList)) ∧
      Text.CutAtLine (callApplication .empty).result.text callText ∧
        ((ofText callText).undo .empty).2.text = callText ∧ callText ≠ Text.trimEnd callText := by
  have hcut : Remap.Fence.cut callText = ([], callText) := Remap.Fence.cut_of_not_mem (by decide)
  have hclean : ∀ l ∈ Text.lines callText, Clean l := by decide +kernel
  have hprefix : tornCallText <+: (callApplication .empty).result.text := by
    rw [Application.text_result]
    decide +kernel
  refine ⟨(callApplication .empty).apply_eq, Remap.leavesAlone_iff.2 ⟨hcut, hclean⟩,
    Remap.Fence.fenceFree_of_not_mem (by decide), ⟨?_, List.prefix_append _ _, ?_⟩,
    .of_whole (Text.whole_unlines _ _) ((List.prefix_append _ _).trans hprefix), ?_,
    by decide +kernel⟩
  · exact .of_whole ((Text.whole_unlines _ _).append (Text.whole_unlines _ _)) hprefix
  · rw [undo_eq_of_erase_error (k := ofText tornCallText) rfl (erase_tornCallText _)]
  · rw [undo_eq_of_erase (k := ofText callText) rfl (Remap.erase_of_clean _ hcut hclean)]
    rfl

end ModFile

end Reskin
