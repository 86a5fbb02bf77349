import Reskin.Proofs.Batch.SecondRun

/-!
# Modes

A batch that both removes and adds keeps the text in memory between its two stages. Two batches that
do one of them each meet on disk: the second one reads what the first has written, and asks anew
whether it is a mod. They come to the same. Either what is left is a mod, and then the second stage
starts from the same file, or it is none, and then it has no root to add anything to.

## Main definitions

* `Batch.onlyRemoving`, `Batch.onlyAdding`: the same batch in the two other modes

## Main results

* `Batch.exists_process_onlyRemoving`, `Batch.exists_process_onlyAdding`: each stage is a batch
* `Batch.process_in_turn`: both stages are the two batches in turn
-/

namespace Reskin

open Ini (Document)

namespace Batch

/-- The same batch, where generated content is only removed. -/
def onlyRemoving (b : Batch) : Batch :=
  { b with options := { b.options with fixOnly := false, undoOnly := true } }

/-- The same batch, where generated content is only added. -/
def onlyAdding (b : Batch) : Batch :=
  { b with options := { b.options with fixOnly := true, undoOnly := false } }

variable {b : Batch} {f : ModFile} {d d' : Disk} {path c t : Text} {s s' : Stage}

/-! ## One stage as a batch -/

theorem Adds.removed (h : b.Adds d s s') : s'.removed = s.removed := by
  cases h <;> rfl

/-- Nothing is added to a text without a root. -/
theorem Adds.of_no_root {doc : Document} (h : b.Adds d s s')
    (hread : s.file.ensureParsed d = .ok s.file) (hdoc : s.file.parsed = some doc)
    (hroot : doc.root = none) : s'.file = s.file ∧ s'.generated = s.generated := by
  cases h with
  | nothing => exact ⟨rfl, rfl⟩
  | refused => exact ⟨rfl, rfl⟩
  | content a =>
    have hparsed := a.parsed_eq
    rw [← Except.ok.inj (hread.symm.trans a.ensureParsed_eq), hdoc] at hparsed
    have hsome := a.root_eq
    rw [← Option.some.inj hparsed, hroot] at hsome
    cases hsome

theorem stages_onlyRemoving (hb : b.IsDefault) (f : ModFile) :
    b.onlyRemoving.stages d f = b.undoStage d f := by
  have hundo : b.onlyRemoving.undoStage d f = b.undoStage d f := by
    simp [undoStage, onlyRemoving, hb.fixOnly]
  rw [stages, hundo]
  cases b.undoStage d f <;> rfl

/-- The second stage starts from the file alone: what the first one reports is passed on. -/
theorem stages_onlyAdding (hb : b.IsDefault) (hs : s.generated = [])
    (h : b.applyStage d s = .ok s') :
    b.onlyAdding.stages d s.file = .ok { s' with removed := [] } := by
  show b.onlyAdding.applyStage d ⟨s.file, .unchanged, [], []⟩ = _
  unfold applyStage at h ⊢
  rw [if_neg (by simp [hb.undoOnly])] at h
  rw [if_neg (by simp [onlyAdding])]
  split at h
  · cases h
  · next ha =>
    obtain rfl := Except.ok.inj h
    simp only [ha]
  · next ha =>
    obtain rfl := Except.ok.inj h
    simp only [ha, hs]
  · next ha =>
    obtain rfl := Except.ok.inj h
    simp only [ha, hs]

/-- **The first stage as a batch**: what it leaves in memory is left on disk. -/
theorem exists_process_onlyRemoving (hb : b.IsDefault) (hopen : b.openFile path = .ok f)
    (hread : d.readText path = .ok c)
    (hmod : (Document.ofText b.characters b.assumed c).isMod = true)
    (h : b.undoStage d (f.setText c).withDocument = .ok s) :
    ∃ r d₁, b.onlyRemoving.process d path = (.ok r, d₁) ∧ r.removed = s.removed ∧
      d.writeText path s.file.text = .ok d₁ := by
  obtain ⟨d₁, hw⟩ := Disk.exists_writeText hread s.file.text
  exact ⟨_, d₁, (process_eq_ok_iff_of_isMod (b := b.onlyRemoving) hopen hread hmod).2
    ⟨s, (stages_onlyRemoving hb _).trans h, rfl, hw⟩, rfl, hw⟩

/-- **The second stage as a batch**, on a disk that holds the text which the stage starts from. -/
theorem exists_process_onlyAdding (hb : b.IsDefault) (hopen : b.openFile path = .ok f)
    (hread : d.readText path = .ok t) (hs : s.file = (f.setText t).withDocument)
    (hgenerated : s.generated = []) (h : b.applyStage d' s = .ok s') :
    ∃ r d₂, b.onlyAdding.process d path = (.ok r, d₂) ∧ r.generated = s'.generated ∧
      d.writeText path s'.file.text = .ok d₂ := by
  cases hmod : (Document.ofText b.characters b.assumed t).isMod with
  | true =>
    have hadd := stages_onlyAdding hb hgenerated h
    rw [hs, ← stages_disk _ f t d' d] at hadd
    obtain ⟨d₂, hw⟩ := Disk.exists_writeText hread s'.file.text
    exact ⟨_, d₂, (process_eq_ok_iff_of_isMod (b := b.onlyAdding) hopen hread hmod).2
      ⟨_, hadd, rfl, hw⟩, rfl, hw⟩
  | false =>
    have hroot : (Document.ofText b.characters b.assumed t).root = none := by
      by_contra hne
      have hmod' : (Document.ofText b.characters b.assumed t).isMod = true :=
        Document.isMod_of_root (Option.isSome_iff_ne_none.2 hne)
      rw [hmod] at hmod'
      cases hmod'
    have hparsed : s.file.parsed = some (Document.ofText b.characters b.assumed t) := by
      obtain ⟨-, -, -, hcharacters, hassumed⟩ := openFile_spec hopen
      rw [hs, ModFile.parsed_withDocument (f := f.setText t) rfl, ← hcharacters, ← hassumed]
      rfl
    have hstay : s.file.ensureParsed d' = .ok s.file := by
      rw [hs]
      exact ModFile.ensureParsed_ensureParsed (f := f.setText t) rfl
    obtain ⟨hfile, hnone⟩ := (adds_of_applyStage hstay h).of_no_root hstay hparsed hroot
    refine ⟨_, d, process_of_not_isMod (b := b.onlyAdding) hopen hread hmod,
      (hnone.trans hgenerated).symm, ?_⟩
    have htext : s'.file.text = t := by
      rw [hfile, hs]
      exact ModFile.text_withDocument _
    rw [htext]
    exact Disk.writeText_readText hread

/-! ## Both in turn -/

/-- **One after the other**: a batch that removes and adds leaves the disk that the two batches leave
which do one of them each, and it reports as removed and as generated what they report. -/
theorem process_in_turn (hb : b.IsDefault) {r : Report} (h : b.process d path = (.ok r, d')) :
    ∃ r₁ d₁ r₂, b.onlyRemoving.process d path = (.ok r₁, d₁) ∧
      b.onlyAdding.process d₁ path = (.ok r₂, d') ∧
      r₁.removed = r.removed ∧ r₂.generated = r.generated := by
  obtain ⟨f, c, hopen, hread⟩ := exists_readText_of_process h
  cases hmod : (Document.ofText b.characters b.assumed c).isMod with
  | false =>
    obtain ⟨hr, rfl⟩ := Prod.mk.inj (h.symm.trans (process_of_not_isMod hopen hread hmod))
    obtain rfl := Except.ok.inj hr
    exact ⟨_, _, _, process_of_not_isMod (b := b.onlyRemoving) hopen hread hmod,
      process_of_not_isMod (b := b.onlyAdding) hopen hread hmod, rfl, rfl⟩
  | true =>
    obtain ⟨s, hs, rfl, hw⟩ := (process_eq_ok_iff_of_isMod hopen hread hmod).1 h
    obtain ⟨s₀, hundo, happly⟩ := Remap.bind_eq_ok.1 hs
    have hclears := clears_of_undoStage hundo
    obtain ⟨t, -, ht⟩ := hclears.file
    have hgenerated : s₀.generated = [] := by cases hclears <;> rfl
    have htext : s₀.file.text = t := by
      rw [ht]
      exact ModFile.text_withDocument _
    have hstay : s₀.file.ensureParsed d = .ok s₀.file := by
      rw [ht]
      exact ModFile.ensureParsed_ensureParsed (f := f.setText t) rfl
    obtain ⟨r₁, d₁, hremove, hremoved, hw₁⟩ := exists_process_onlyRemoving hb hopen hread hmod hundo
    rw [htext] at hw₁
    obtain ⟨r₂, d₂, hadd, hadded, hw₂⟩ :=
      exists_process_onlyAdding hb hopen (Disk.readText_writeText hw₁) ht hgenerated happly
    rw [Disk.writeText_writeText hw₁, hw] at hw₂
    obtain rfl := Except.ok.inj hw₂
    exact ⟨r₁, d₁, r₂, hremove, hadd,
      hremoved.trans (adds_of_applyStage hstay happly).removed.symm, hadded⟩

/-- What a run makes of the text with the blend override. -/
def fixedBlend : Text :=
  ModFile.appended ModFile.blendText (Remap.framed ModFile.raiden.title [ModFile.blendPart])

/-- A run that removes the block and adds it again leaves the text as it is. -/
theorem leaves_fixedBlend : raidenBatch.Leaves (oneFile fixedBlend) iniPath := by
  let a := openedApplication (oneFile ModFile.blendText)
  have hclean := Remap.leavesAlone_iff.1 (ModFile.leavesAlone_blendText [])
  have hsettled : ModFile.Settled ModFile.blendText :=
    .inr ⟨by decide +kernel, "hash = 111".toList, by decide +kernel, by decide +kernel,
      by decide +kernel⟩
  have herase := Remap.erase_of_clean opened.folder hclean.1 hclean.2
  obtain ⟨e, he, htext⟩ := exists_erase_of_isPlain herase a isPlain_opened
    (Remap.Fence.fenceFree_of_not_mem (by decide))
  refine (leaves_iff isDefault_raidenBatch a openFile_raidenBatch (readText_oneFile _)).2
    (.inr ⟨e, he, ?_⟩)
  rw [htext]
  exact ModFile.fixedText_trimEnd hsettled ((ModFile.fixedText_eq_some_iff _).2 ⟨a, rfl⟩)

/-- Where that run writes nothing, the two batches in turn take the block away and bring it back. -/
theorem process_in_turn_blend : ∃ r r₁ d₁ r₂,
    raidenBatch.process (oneFile fixedBlend) iniPath = (.ok r, oneFile fixedBlend) ∧
      raidenBatch.onlyRemoving.process (oneFile fixedBlend) iniPath = (.ok r₁, d₁) ∧
      raidenBatch.onlyAdding.process d₁ iniPath = (.ok r₂, oneFile fixedBlend) ∧
      r₁.removed = r.removed ∧ r₂.generated = r.generated := by
  obtain ⟨r, hrun, -⟩ := leaves_fixedBlend
  obtain ⟨r₁, d₁, r₂, hremove, hadd, hremoved, hadded⟩ := process_in_turn isDefault_raidenBatch hrun
  exact ⟨r, r₁, d₁, r₂, hrun, hremove, hadd, hremoved, hadded⟩

end Batch

end Reskin
