import Reskin.Proofs.Batch.SecondRun
import Reskin.Proofs.Remap.Missing

/-!
# What a report says of the file

A report that says that there was nothing to be done comes with a file that stays as it is, in every
mode and with one exception. A batch that both removes and adds takes the status from the stage that
adds. If the stage that removes has taken something out of the text, and none is then added, the
report tells of no change, but the file is written, and what was removed is lost from it.

## Main definitions

* `Batch.Status.IsIdle`: what is said of files that are not changed
* `Batch.Strips`: runs that remove content, and would add content too

## Main results

* `Batch.process_idle`: what comes with a report that tells of no change
* `Batch.process_stray`: a file that loses its one section, and is said to be no mod
-/

namespace Reskin

open Ini (Document)

namespace Batch

/-- The status of a file that is not changed: it is no mod, or there is nothing to be done, or it
has been fixed before. -/
def Status.IsIdle : Status → Prop
  | .notMod | .unchanged | .alreadyFixed => True
  | .fixed _ | .undone => False

variable {b : Batch} {f : ModFile} {d d' : Disk} {path c : Text} {e : Remap.Erasure}

/-- The batch both removes and adds, and there is content to be removed from the file. -/
def Strips (b : Batch) (d : Disk) (path : Text) (e : Remap.Erasure) : Prop :=
  b.IsDefault ∧ ∃ f c, b.openFile path = .ok f ∧ d.readText path = .ok c ∧
    (Document.ofText b.characters b.assumed c).isMod = true ∧
    Remap.erase f.folder c = .ok e ∧ e.isUnchanged = false

/-- What is removed from a file that the stages are known for. -/
theorem Strips.of_openFile (h : b.Strips d path e) (hopen : b.openFile path = .ok f)
    (hread : d.readText path = .ok c) : (Document.ofText b.characters b.assumed c).isMod = true ∧
      Remap.erase f.folder c = .ok e ∧ e.isUnchanged = false := by
  obtain ⟨-, f', c', hopen', hread', h⟩ := h
  obtain rfl := Except.ok.inj (hopen.symm.trans hopen')
  obtain rfl := Except.ok.inj (hread.symm.trans hread')
  exact h

/-- **What stages with an idle status come to**: nothing was found in either, or the second refused
what was left of the text by the first. -/
theorem idle_of_stages {s : Stage} (h : b.stages d (f.setText c).withDocument = .ok s)
    (hs : s.status.IsIdle) : s.generated = [] ∧
      ((s.file.text = c ∧ s.removed = [] ∧
          (b.options.fixOnly = true ∨ Remap.LeavesAlone f.folder c)) ∨
        ∃ e, b.IsDefault ∧ Remap.erase f.folder c = .ok e ∧ e.isUnchanged = false ∧
          s.file.text = e.text ∧ s.removed = e.files ∧ s.status ≠ .unchanged) := by
  have htext (t : Text) : (f.setText t).withDocument.text = t := ModFile.text_withDocument _
  obtain ⟨s₀, hclears, hadds⟩ := exists_of_stages h
  cases hclears with
  | nothing hnone =>
    cases hadds with
    | nothing => exact ⟨rfl, .inl ⟨htext c, rfl, hnone⟩⟩
    | content => exact hs.elim
    | refused => exact ⟨rfl, .inl ⟨htext c, rfl, hnone⟩⟩
  | @content e hfix he hu =>
    cases hadds with
    | nothing => exact hs.elim
    | content => exact hs.elim
    | refused hundo hstatus =>
      refine ⟨rfl, .inr ⟨e, ⟨hfix, hundo⟩, he, hu, htext e.text, rfl, ?_⟩⟩
      rintro rfl
      simp at hstatus

/-- **A report that tells of no change.** No files were generated. Unless the batch both removes and
adds, and has removed something, the file is as it was and not written, and no files were removed.
If it has, the file is written without what was removed, which is less than it held. -/
theorem process_idle {r : Report} (h : b.process d path = (.ok r, d')) (hr : r.status.IsIdle) :
    r.generated = [] ∧ ((¬ ∃ e, b.Strips d path e) → r.written = false ∧ d' = d ∧ r.removed = []) ∧
      ∀ e, b.Strips d path e → r.status ≠ .unchanged ∧ r.written = true ∧ r.removed = e.files ∧
        d'.readText path = .ok e.text ∧
        ∃ c, d.readText path = .ok c ∧ e.text.length < c.length := by
  have hstrips {f : ModFile} {c : Text} {e : Remap.Erasure} (hopen : b.openFile path = .ok f)
      (hread : d.readText path = .ok c) (he : b.Strips d path e) :
      ¬ (b.options.fixOnly = true ∨ Remap.LeavesAlone f.folder c) := by
    obtain ⟨-, he', hu⟩ := he.of_openFile hopen hread
    rintro (hfix | ⟨e', halone, hu'⟩)
    · simp [he.1.fixOnly] at hfix
    · obtain rfl := Except.ok.inj (he'.symm.trans halone)
      simp [hu] at hu'
  cases process_eq_ok_iff.1 h with
  | noMod hopen hread hmod =>
    refine ⟨rfl, fun _ => ⟨rfl, rfl, rfl⟩, fun e he => ?_⟩
    obtain ⟨hmod', -⟩ := he.of_openFile hopen hread
    simp [hmod] at hmod'
  | kept hopen hread hmod hs hsame =>
    obtain ⟨hgenerated, ⟨-, hremoved, hnone⟩ | ⟨e, -, he, hu, hleft, -⟩⟩ := idle_of_stages hs hr
    · exact ⟨hgenerated, fun _ => ⟨rfl, rfl, hremoved⟩,
        fun e he => absurd hnone (hstrips hopen hread he)⟩
    · have := (Remap.isUnchanged_iff_text_eq he).2 (hleft.symm.trans hsame)
      simp [hu] at this
  | written hopen hread hmod hs hne hw =>
    obtain ⟨hgenerated, ⟨hsame, -⟩ | ⟨e, hb, he, hu, hleft, hremoved, hstatus⟩⟩ :=
      idle_of_stages hs hr
    · exact absurd hsame hne
    · refine ⟨hgenerated, fun hnone => ?_, fun e' he' => ?_⟩
      · exact absurd ⟨e, hb, _, _, hopen, hread, hmod, he, hu⟩ hnone
      · obtain rfl := Except.ok.inj (he.symm.trans (he'.of_openFile hopen hread).2.1)
        refine ⟨hstatus, rfl, hremoved, ?_, _, hread, Remap.length_erase_lt_of_changed he hu⟩
        rw [Disk.readText_writeText hw, hleft]

/-! ## A file with one generated section -/

/-- A batch for one character that only adds. -/
def addingBatch : Batch := ⟨{ Options.default with fixOnly := true }, [ModFile.raiden], none⟩

theorem openFile_addingBatch : addingBatch.openFile iniPath = .ok opened := openFile_raidenBatch

/-- A generated section, and nothing else. -/
def loneText : Text :=
  Text.unlines .lf ["[TextureOverrideRaidenRaidenBossRemapBlend]".toList, "hash = 222".toList]

/-- The sections of the text. -/
def loneBodies : Ini.Bodies :=
  [("TextureOverrideRaidenRaidenBossRemapBlend".toList,
    [.content [("hash".toList, "222".toList)]])]

/-- The batch that only adds leaves the file alone, and says so. -/
theorem process_idle_lone : ∃ r d', addingBatch.process (oneFile loneText) iniPath = (.ok r, d') ∧
    r.status = .alreadyFixed ∧ r.written = false ∧ d' = oneFile loneText := by
  have hmod : (Document.ofText addingBatch.characters addingBatch.assumed loneText).isMod = true := by
    decide +kernel
  have hs : addingBatch.stages (oneFile loneText) (opened.setText loneText).withDocument =
      .ok ⟨(opened.setText loneText).withDocument, .alreadyFixed, [], []⟩ := by
    have hfixed : (opened.setText loneText).document.isFixed = true := by decide +kernel
    have happly : (opened.setText loneText).withDocument.apply (oneFile loneText) =
        (.ok .alreadyFixed, (opened.setText loneText).withDocument) := by
      have hparsed := ModFile.parsed_withDocument (f := opened.setText loneText) rfl
      rw [ModFile.apply_withDocument rfl, ModFile.apply, ModFile.ensureParsed_of_load rfl]
      simp only [hparsed, hfixed, if_true]
    show addingBatch.applyStage (oneFile loneText)
      ⟨(opened.setText loneText).withDocument, .unchanged, [], []⟩ = _
    rw [applyStage, if_neg (by simp [addingBatch, Options.default])]
    simp only [happly]
  have hrun := process_eq_ok_iff.2 (.kept openFile_addingBatch (readText_oneFile loneText) hmod hs
    (ModFile.text_withDocument _))
  have hkeeps : ¬ ∃ e, addingBatch.Strips (oneFile loneText) iniPath e := by
    rintro ⟨e, he⟩
    simpa [addingBatch] using he.1.fixOnly
  obtain ⟨-, hnone, -⟩ := process_idle hrun trivial
  obtain ⟨hwritten, hdisk, -⟩ := hnone hkeeps
  exact ⟨_, _, hrun, rfl, hwritten, hdisk⟩

/-- **A file loses its one section**, and is said to be no mod: removal takes the section, and the
stage that adds finds no root in what is left. -/
theorem process_loses_section : ∃ r,
    raidenBatch.process (oneFile loneText) iniPath = (.ok r, oneFile []) ∧ r.status = .notMod ∧
      r.written = true := by
  have hcut : Remap.Fence.cut loneText = ([], loneText) :=
    Remap.Fence.cut_eq_self_of_tails (by decide +kernel)
  have hwalk : CallGraph.walkWithin loneBodies 1 [] loneBodies.names =
      some (none, loneBodies) := by decide +kernel
  obtain ⟨e, he⟩ := (Remap.exists_erase_iff_of_no_fence opened.folder hcut).2
    fun n => Remap.not_lacks_of_walk (by decide +kernel) hwalk n
  obtain ⟨-, hsections, -, htext⟩ := Remap.erase_spec he
  rw [hcut] at hsections htext
  have hchanged : e.isUnchanged = false := by
    rw [Remap.Erasure.isUnchanged, hsections]
    have : (Remap.sweep false (Text.lines loneText)).names.eraseDups ≠ [] := by decide +kernel
    simp [this]
  have hempty : e.text = [] := by
    rw [htext, if_neg (by simp [hchanged])]
    decide +kernel
  have happly : (opened.setText e.text).apply (oneFile loneText) =
      (.ok .noRoot, (opened.setText e.text).withDocument) := by
    rw [hempty]
    rfl
  obtain ⟨s, hs, hfile, hstatus⟩ :=
    (stages_iff isDefault_raidenBatch).2 ⟨e, .noRoot, he, happly, rfl⟩
  have hleft : s.file.text = [] := by
    rw [hfile, ModFile.text_withDocument, ← hempty]
    rfl
  exact ⟨_, process_eq_ok_iff.2 (.written openFile_raidenBatch (readText_oneFile loneText)
    (by decide +kernel) hs (by rw [hleft]; decide) (by rw [hleft]; rfl)), hstatus, rfl⟩

end Batch

end Reskin
