import Reskin.Proofs.Batch.SecondRun
import Reskin.Proofs.ModFile.Answers

/-!
# Failures

An operation can fail at any of its steps: before the document is read, between two graphs, or when
the block is made. It sets a new text only after all of them, so one that fails leaves the text, and
what the file answers about it.

A batch sets texts in memory and writes at the end, in one place. So a run over a file that fails
leaves the disk as it was, and one that succeeds touches no other place than the path leads to, and
that one exactly if it says so. What holds of one file then holds of a whole run, since no run makes
a path lead elsewhere.

## Main definitions

* `ModFile.Fails`: operations that fail, and the file they leave

## Main results

* `ModFile.prepares_of_fails`, `ModFile.sameTask_of_fails`: what an operation leaves that fails
* `Batch.node?_run_of_ne`: the places that a run over many files does not touch
* `Batch.unchanged_of_fault`: a failure changes nothing, and a success no more than it says
-/

namespace Reskin

namespace ModFile

variable {f g : ModFile} {d : Disk} {fault : Fault}

/-! ## Operations that fail -/

/-- **An operation fails**, and leaves the file that it has come to. -/
inductive Fails (d : Disk) (f : ModFile) (fault : Fault) (g : ModFile) : Prop
  | buildGraphs : f.buildGraphs d = (.error fault, g) → Fails d f fault g
  | fixText : f.fixText d = (.error fault, g) → Fails d f fault g
  | apply : f.apply d = (.error fault, g) → Fails d f fault g
  | undo : f.undo d = (.error fault, g) → Fails d f fault g

theorem Reachable.of_fails (hf : Reachable f) (h : Fails d f fault g) : Reachable g := by
  cases h with
  | buildGraphs h => exact .step hf (by simpa [h] using Step.buildGraphs (d := d) (f := f))
  | fixText h => exact .step hf (by simpa [h] using Step.fixText (d := d) (f := f))
  | apply h => exact .step hf (by simpa [h] using Step.apply (d := d) (f := f))
  | undo h => exact .step hf (by simpa [h] using Step.undo (d := d) (f := f))

/-- **An operation that fails** has done no more than to prepare the file. -/
theorem prepares_of_fails (h : Fails d f fault g) : Prepares d f g := by
  cases h with
  | buildGraphs h => simpa [h] using prepares_buildGraphs f d
  | fixText h => simpa [h] using prepares_fixText f d
  | apply h =>
    cases hread : f.ensureParsed d with
    | error fault =>
      rw [ModFile.apply, hread] at h
      exact (Prod.mk.inj h).2 ▸ .stay
    | ok k =>
      obtain ⟨doc, hdoc⟩ := exists_parsed_of_ensureParsed hread
      cases (apply_eq_iff hread hdoc).1 h with
      | failed _ _ hfix =>
        have hk := (prepares_fixText k d).of_read hread
        rwa [hfix] at hk
  | undo h =>
    unfold undo at h
    split at h
    · exact (Prod.mk.inj h).2 ▸ .stay
    next k hread =>
    split at h
    · exact (Prod.mk.inj h).2 ▸ .read hread
    · simp at h

/-- **What is left by a failure** has the text, and all that is to be done with it. -/
theorem sameTask_of_fails (hl : f.loaded.isSome = true) (h : Fails d f fault g) : SameTask f g :=
  sameTask_of_prepares hl (prepares_of_fails h)

end ModFile

namespace Batch

variable {b : Batch} {d d' : Disk} {path : Text}

/-! ## One file -/

/-- **Nothing but the file at the path** is touched by a run over it. -/
theorem node?_process_of_ne {l : Disk.Location} (hl : d.locate path ≠ .ok l) :
    (b.process d path).2.node? l = d.node? l := by
  rcases h : b.process d path with ⟨fault | r, d'⟩
  · rw [process_error h]
  · cases process_eq_ok_iff.1 h with
    | noMod => rfl
    | kept => rfl
    | written _ _ _ _ _ hw => exact Disk.node?_writeText_of_ne hw hl

/-- After a run over a file every path leads where it led. -/
theorem locate_process {other : Text} {l : Disk.Location} :
    (b.process d path).2.locate other = .ok l ↔ d.locate other = .ok l := by
  rcases h : b.process d path with ⟨fault | r, d'⟩
  · rw [process_error h]
  · cases process_eq_ok_iff.1 h with
    | noMod => rfl
    | kept => rfl
    | written _ _ _ _ _ hw => exact Disk.locate_writeText hw

/-- **A file is reported as written** exactly if it holds something else afterwards. -/
theorem written_iff {r : Report} (h : b.process d path = (.ok r, d')) :
    r.written = true ↔ d'.read path ≠ d.read path := by
  cases process_eq_ok_iff.1 h with
  | noMod => simp
  | kept => simp
  | written _ hread _ _ hne hw =>
    refine iff_of_true rfl fun hsame => hne ?_
    have hback := Disk.readText_writeText hw
    rw [Disk.readText, hsame] at hback
    exact Except.ok.inj (hback.symm.trans hread)

/-! ## Many files -/

/-- **Nothing but the files at the paths** is touched by a run over many files. -/
theorem node?_run_of_ne {paths : List Text} {l : Disk.Location}
    (hl : ∀ path ∈ paths, d.locate path ≠ .ok l) : (b.run d paths).2.node? l = d.node? l := by
  suffices key : ∀ (state : Summary × Disk), (∀ path ∈ paths, state.2.locate path ≠ .ok l) →
      (paths.foldl b.processInto state).2.node? l = state.2.node? l from key (.empty, d) hl
  clear hl
  induction paths with
  | nil => exact fun _ _ => rfl
  | cons path paths ih =>
    intro state hl
    have hdisk : (b.processInto state path).2 = (b.process state.2 path).2 := by
      unfold processInto
      split <;> next hrun => rw [hrun]
    rw [List.foldl_cons, ih _ fun other hother => ?_, hdisk]
    · exact node?_process_of_ne (hl path List.mem_cons_self)
    · rw [hdisk, ne_eq, locate_process]
      exact hl other (List.mem_cons_of_mem _ hother)

/-! ## Failure and success -/

/-- **A failure changes nothing, and a success no more than it says.** An operation that fails on a
file whose text is loaded leaves the text, and whether it is a mod and is fixed. A run that fails
leaves the disk. One that succeeds touches nothing but the file at its path, and reports it as
written exactly if it holds something else afterwards. -/
theorem unchanged_of_fault :
    (∀ {f g : ModFile} {d : Disk} {fault : Fault}, f.Reachable → f.loaded.isSome = true →
      f.Fails d fault g → g.text = f.text ∧ ∀ d₁ d₂ : Disk,
        (g.isFixed d₂).1 = (f.isFixed d₁).1 ∧ (g.isMod d₂).1 = (f.isMod d₁).1) ∧
    ∀ (b : Batch) (d d' : Disk) (path : Text),
      (∀ fault, b.process d path = (.error fault, d') → d' = d) ∧
      ∀ r, b.process d path = (.ok r, d') →
        (∀ l, d.locate path ≠ .ok l → d'.node? l = d.node? l) ∧
        (r.written = true ↔ d'.read path ≠ d.read path) := by
  constructor
  · intro f g d fault hf hl hfails
    have htask := ModFile.sameTask_of_fails hl hfails
    have halike := htask.alike hf (hf.of_fails hfails)
    exact ⟨htask.text, fun d₁ d₂ =>
      ⟨(ModFile.agrees_ask halike _ d₁ d₂).1, (ModFile.agrees_ask halike _ d₁ d₂).1⟩⟩
  · refine fun b d d' path => ⟨fun fault h => process_error h, fun r h => ⟨fun l hl => ?_, ?_⟩⟩
    have hnode := node?_process_of_ne (b := b) hl
    rwa [h] at hnode
    exact written_iff h

/-- A blend override that runs a section the file does not declare. -/
def lostCallText : Text :=
  Text.unlines .lf ["[TextureOverrideRaidenBlend]".toList, "run = CommandListLost".toList]

/-- The sections of the text. -/
def lostCallBodies : Ini.Bodies :=
  [("TextureOverrideRaidenBlend".toList, [.content [("run".toList, "CommandListLost".toList)]])]

theorem exists_buildGraphs_lostCall : ∃ g, (ModFile.raidenFile lostCallText).buildGraphs .empty =
    (.error (.missingSection "CommandListLost".toList), g) := by
  have hwalk : CallGraph.walkWithin lostCallBodies 2 [] ["TextureOverrideRaidenBlend".toList] =
      some (some "CommandListLost".toList, lostCallBodies) := by decide +kernel
  have hbodies : (ModFile.raidenFile lostCallText).document.bodies = lostCallBodies := by
    decide +kernel
  have hroot : (ModFile.raidenFile lostCallText).document.root =
      some "TextureOverrideRaidenBlend".toList := by decide +kernel
  have hblend : (ModFile.raidenFile lostCallText).withDocument.blend.build
      ["TextureOverrideRaidenBlend".toList] (ModFile.raidenFile lostCallText).document.bodies =
      (some "CommandListLost".toList, ⟨.blend, lostCallBodies, []⟩) := by
    rw [hbodies, CallGraph.build, CallGraph.walk_eq_of_walkWithin hwalk]
    rfl
  have hparsed := ModFile.parsed_withDocument (f := ModFile.raidenFile lostCallText) rfl
  refine ⟨{ (ModFile.raidenFile lostCallText).withDocument with
    blend := ⟨.blend, lostCallBodies, []⟩ }, ?_⟩
  rw [ModFile.buildGraphs, ModFile.ensureParsed_of_load rfl]
  simp only [hparsed, hroot, ModFile.buildFrom_eq_iff.2 (.noBlend hblend)]

/-- The section that is missing keeps graphs from being built, and the text stays; the file with the
blend override is written, and a file beside it is not touched. -/
theorem unchanged_of_fault_lostCall :
    (∃ fault g, (ModFile.raidenFile lostCallText).buildGraphs .empty = (.error fault, g) ∧
      g.text = lostCallText ∧ (g.isMod .empty).1 = .ok true) ∧
    ∃ r d', raidenBatch.process (oneFile ModFile.blendText) iniPath = (.ok r, d') ∧
      d'.node? ["b.ini".toList] = none ∧
      d'.read iniPath ≠ (oneFile ModFile.blendText).read iniPath := by
  obtain ⟨hoperation, hprocess⟩ := unchanged_of_fault
  constructor
  · obtain ⟨g, hg⟩ := exists_buildGraphs_lostCall
    obtain ⟨htext, hanswers⟩ :=
      hoperation (ModFile.reachable_raidenFile lostCallText) rfl (.buildGraphs hg)
    exact ⟨_, g, hg, htext, (hanswers .empty .empty).2.trans (by decide +kernel)⟩
  · have hclean := Remap.leavesAlone_iff.1 (ModFile.leavesAlone_blendText [])
    obtain ⟨r, hrun, -, hwritten⟩ := exists_process_of_clean hclean.1 hclean.2 (by decide +kernel)
      (openedApplication _) (by rw [text_openedApplication]; decide +kernel)
    obtain ⟨hplaces, hiff⟩ := (hprocess _ _ _ _).2 r hrun
    exact ⟨r, _, hrun, hplaces _ (by decide +kernel), hiff.1 hwritten⟩

end Batch

end Reskin
