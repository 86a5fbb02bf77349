import Reskin.Batch.Basic
import Reskin.Proofs.Disk
import Reskin.Proofs.ModFile.RoundTrip

/-!
# Stages

A batch opens a file, asks whether it is a mod, and sends it through two stages, the second of which
starts from what the first has left. Neither touches the disk. The text that they leave is compared
with the one that was read, and written once if it is another one.

Here it is said once what each stage can do, in every mode, and what a run can come to.

## Main definitions

* `Batch.IsDefault`: batches that both remove and add
* `Batch.Clears`, `Batch.Adds`: what the two stages do
* `Batch.Cleared`: the text that the second stage starts from
* `Batch.Runs`: runs that succeed, by what they come to

## Main results

* `Batch.clears_of_undoStage`, `Batch.adds_of_applyStage`: there is nothing else that a stage can do
* `Batch.process_eq_ok_iff`: nor is there anything else that a run can come to
* `Batch.exists_application_of_process`: a run that has fixed a file
-/

namespace Reskin

open Ini (Document)

namespace ModFile

variable {f g : ModFile} {d : Disk}

/-! ## Files whose text is set -/

theorem apply_withDocument (h : f.load d = .ok f) : f.withDocument.apply d = f.apply d := by
  have he : f.ensureParsed d = .ok f.withDocument := ensureParsed_of_load h
  rw [apply, apply, he, ensureParsed_ensureParsed he]

theorem undo_withDocument (f : ModFile) (d : Disk) (c : Text) :
    (f.setText c).withDocument.undo d = match Remap.erase f.folder c with
      | .error fault => (.error fault, (f.setText c).withDocument)
      | .ok e => (.ok e, (f.setText e.text).withDocument) := by
  have hread : (f.setText c).withDocument.ensureParsed d = .ok (f.setText c).withDocument :=
    ensureParsed_ensureParsed (f := f.setText c) rfl
  have hfolder : (f.setText c).withDocument.folder = f.folder := folder_withDocument _
  have htext : (f.setText c).withDocument.text = c := text_withDocument _
  rw [undo, hread]
  simp only [hfolder, htext]
  cases he : Remap.erase f.folder c with
  | error fault => rfl
  | ok e =>
    simp only
    split
    · next hu => rw [(Remap.isUnchanged_iff_text_eq he).1 hu]
    · rfl

/-- A file that is read and refused stays as it is. -/
theorem apply_refused {outcome : Outcome} (hread : f.ensureParsed d = .ok f)
    (h : f.apply d = (.ok outcome, g)) :
    (∃ variants, outcome = .applied variants) ∨ g = f := by
  obtain ⟨doc, hdoc⟩ := exists_parsed_of_ensureParsed hread
  cases (apply_eq_iff hread hdoc).1 h with
  | alreadyFixed => exact .inr rfl
  | noRoot => exact .inr rfl
  | applied => exact .inl ⟨_, rfl⟩

/-- Where nothing is added, the text stays. -/
theorem text_of_apply {t : Text} {outcome : Outcome}
    (h : (f.setText t).apply d = (.ok outcome, g)) :
    (∃ variants, outcome = .applied variants) ∨ g.text = t := by
  rw [← apply_withDocument rfl] at h
  refine (apply_refused (ensureParsed_ensureParsed (f := f.setText t) rfl) h).imp_right ?_
  rintro rfl
  exact text_withDocument _

/-- A file that stands on disk is written as its text is. -/
theorem write_eq_ok {path t : Text} (hpath : f.path = some path) (hloaded : f.loaded = some t)
    {d' : Disk} : f.write d = .ok d' ↔ d.writeText path t = .ok d' := by
  rw [write, hpath, hloaded]
  dsimp only
  cases d.writeText path t <;> simp

end ModFile

namespace Batch

/-- The batch removes generated content and adds it anew. -/
structure IsDefault (b : Batch) : Prop where
  fixOnly : b.options.fixOnly = false
  undoOnly : b.options.undoOnly = false

/-- A file on disk that nothing has been read from. -/
theorem openFile_spec {b : Batch} {path : Text} {f : ModFile} (h : b.openFile path = .ok f) :
    f.path = some path ∧ f.loaded = none ∧ f.parsed = none ∧ f.characters = b.characters ∧
      f.assumed = b.assumed := by
  unfold openFile ModFile.withManaged at h
  split at h
  · rw [← Except.ok.inj h]
    exact ⟨rfl, rfl, rfl, rfl, rfl⟩
  · simp at h

/-- The status of an outcome. -/
def statusOf : ModFile.Outcome → Status
  | .applied variants => .fixed variants.toList
  | .alreadyFixed => .alreadyFixed
  | .noRoot => .notMod

variable {b : Batch} {f : ModFile} {d d' : Disk} {path c : Text}

/-- What an opened file is asked first. -/
theorem isMod_of_openFile (hopen : b.openFile path = .ok f) (hread : d.readText path = .ok c) :
    f.isMod d =
      (.ok (Document.ofText b.characters b.assumed c).isMod, (f.setText c).withDocument) := by
  obtain ⟨hpath, hloaded, -, hcharacters, hassumed⟩ := openFile_spec hopen
  have hload : f.load d = .ok (f.setText c) := by
    simp [ModFile.load, ModFile.read, hpath, hloaded, hread]
  rw [ModFile.isMod, ModFile.ask, ModFile.ensureParsed_eq_ok.2 ⟨_, hload, rfl⟩, ← hcharacters,
    ← hassumed]
  rfl

/-! ## The two stages -/

/-- **What the first stage does**: nothing, or it removes generated content. -/
inductive Clears (b : Batch) (f : ModFile) (c : Text) : Stage → Prop
  | nothing : b.options.fixOnly = true ∨ Remap.LeavesAlone f.folder c →
      Clears b f c ⟨(f.setText c).withDocument, .unchanged, [], []⟩
  | content {e : Remap.Erasure} : b.options.fixOnly = false → Remap.erase f.folder c = .ok e →
      e.isUnchanged = false →
      Clears b f c ⟨(f.setText e.text).withDocument, .undone, e.files, []⟩

/-- **What the second stage does**: nothing, or it adds generated content, or refuses to. -/
inductive Adds (b : Batch) (d : Disk) (s : Stage) : Stage → Prop
  | nothing : b.options.undoOnly = true → Adds b d s s
  | content (a : ModFile.Application s.file d) : b.options.undoOnly = false →
      Adds b d s ⟨a.result, .fixed a.built.toFix.toList, s.removed,
        a.result.buffers.flatMap fun (_, b) => b.fixedFiles⟩
  | refused {status : Status} : b.options.undoOnly = false →
      status = .alreadyFixed ∨ status = .notMod → Adds b d s { s with status }

theorem clears_of_undoStage {s : Stage}
    (h : b.undoStage d (f.setText c).withDocument = .ok s) : b.Clears f c s := by
  have hundo := ModFile.undo_withDocument f d c
  unfold undoStage at h
  split at h
  · next hfix =>
    obtain rfl := Except.ok.inj h
    exact .nothing (.inl hfix)
  next hfix =>
  cases he : Remap.erase f.folder c with
  | error fault =>
    rw [he] at hundo
    simp [hundo] at h
  | ok e =>
    rw [he] at hundo
    simp only [hundo] at h
    split at h
    · next hu =>
      obtain rfl := Except.ok.inj h
      rw [(Remap.isUnchanged_iff_text_eq he).1 hu]
      exact .nothing (.inr ⟨e, he, hu⟩)
    · next hu =>
      obtain rfl := Except.ok.inj h
      exact .content (by simpa using hfix) he (by simpa using hu)

theorem adds_of_applyStage {s s' : Stage} (hread : s.file.ensureParsed d = .ok s.file)
    (h : b.applyStage d s = .ok s') : b.Adds d s s' := by
  unfold applyStage at h
  split at h
  · next hundo =>
    obtain rfl := Except.ok.inj h
    exact .nothing hundo
  next hundo =>
  have hundo : b.options.undoOnly = false := by simpa using hundo
  have hrefused {outcome : ModFile.Outcome} {g : ModFile} (ha : s.file.apply d = (.ok outcome, g))
      (hne : ¬ ∃ variants, outcome = .applied variants) : g = s.file :=
    (ModFile.apply_refused hread ha).resolve_left hne
  split at h
  · simp at h
  · next variants g ha =>
    obtain ⟨a, rfl, rfl⟩ := ModFile.exists_application ha
    obtain rfl := Except.ok.inj h
    exact .content a hundo
  · next g ha =>
    obtain rfl := hrefused ha (by simp)
    obtain rfl := Except.ok.inj h
    exact .refused hundo (.inl rfl)
  · next g ha =>
    obtain rfl := hrefused ha (by simp)
    obtain rfl := Except.ok.inj h
    exact .refused hundo (.inr rfl)

/-- **The text that the second stage starts from**: the one that was read, or what erasure makes of
it. -/
def Cleared (b : Batch) (folder c t : Text) : Prop :=
  if b.options.fixOnly then t = c else ∃ e, Remap.erase folder c = .ok e ∧ t = e.text

/-- The file after the first stage is read, and on disk where it was. -/
theorem Clears.file {s : Stage} (h : b.Clears f c s) :
    ∃ t, b.Cleared f.folder c t ∧ s.file = (f.setText t).withDocument := by
  cases h with
  | nothing hkeep =>
    refine ⟨c, ?_, rfl⟩
    unfold Cleared
    split
    · rfl
    · next hfix =>
      obtain ⟨e, he, hu⟩ := hkeep.resolve_left hfix
      exact ⟨e, he, ((Remap.isUnchanged_iff_text_eq he).1 hu).symm⟩
  | @content e hfix he => exact ⟨e.text, by simp [Cleared, hfix, he], rfl⟩

/-- **Both stages**, one after the other. -/
theorem exists_of_stages {s : Stage} (h : b.stages d (f.setText c).withDocument = .ok s) :
    ∃ s₀, b.Clears f c s₀ ∧ b.Adds d s₀ s := by
  obtain ⟨s₀, hs₀, h⟩ := Remap.bind_eq_ok.1 h
  have hclears := clears_of_undoStage hs₀
  obtain ⟨t, -, ht⟩ := hclears.file
  refine ⟨s₀, hclears, adds_of_applyStage ?_ h⟩
  rw [ht]
  exact ModFile.ensureParsed_ensureParsed (f := f.setText t) rfl

/-- **Neither stage looks at the disk**, since the text is loaded before them. -/
theorem stages_disk (b : Batch) (f : ModFile) (c : Text) (d d' : Disk) :
    b.stages d' (f.setText c).withDocument = b.stages d (f.setText c).withDocument := by
  have hloaded (t : Text) : (f.setText t).withDocument.loaded.isSome = true := by
    simp [ModFile.setText]
  have hundo : b.undoStage d' (f.setText c).withDocument =
      b.undoStage d (f.setText c).withDocument := by
    rw [undoStage, undoStage, ModFile.undo_of_loaded (hloaded c) d d']
  rw [stages, stages, hundo]
  cases hs : b.undoStage d (f.setText c).withDocument with
  | error fault => rfl
  | ok s =>
    obtain ⟨t, -, ht⟩ := (clears_of_undoStage hs).file
    show b.applyStage d' s = b.applyStage d s
    rw [applyStage, applyStage, ht, ModFile.apply_of_loaded (hloaded t) d d']

/-- The file after both stages is on disk where it was, and its text is loaded. -/
theorem file_of_stages {s : Stage} (h : b.stages d (f.setText c).withDocument = .ok s) :
    s.file.path = f.path ∧ s.file.loaded = some s.file.text := by
  obtain ⟨s₀, hclears, hadds⟩ := exists_of_stages h
  obtain ⟨t, -, ht⟩ := hclears.file
  have hkept : s₀.file.path = f.path ∧ s₀.file.loaded = some s₀.file.text := by
    rw [ht]
    simp [ModFile.setText, ModFile.text]
  cases hadds with
  | nothing => exact hkept
  | content a => exact ⟨a.path_result.trans hkept.1, by rw [a.loaded_result, a.text_result]⟩
  | refused => exact hkept

/-- **Stages that have fixed a file** have made an application to the text that the first of them
leaves. -/
theorem exists_application_of_stages {s : Stage} {variants : List Text}
    (hs : b.stages d (f.setText c).withDocument = .ok s) (hstatus : s.status = .fixed variants) :
    ∃ t, b.Cleared f.folder c t ∧ ∃ a : ModFile.Application (f.setText t) d,
      a.built.toFix.toList = variants ∧
        (s.generated = a.result.buffers.flatMap fun e => e.2.fixedFiles) ∧
        s.file.text = a.text := by
  obtain ⟨s₀, hclears, hadds⟩ := exists_of_stages hs
  obtain ⟨t, ht, hfile⟩ := hclears.file
  cases hadds with
  | nothing => cases hclears <;> cases hstatus
  | refused _ hrefused => rcases hrefused with rfl | rfl <;> cases hstatus
  | content a =>
    have happly : (f.setText t).apply d = (.ok (.applied a.built.toFix), a.result) := by
      rw [← ModFile.apply_withDocument rfl, ← hfile]
      exact a.apply_eq
    obtain ⟨a', hresult, htoFix⟩ := ModFile.exists_application happly
    refine ⟨t, ht, a', ?_, ?_, ?_⟩
    · rw [← htoFix]
      exact Status.fixed.inj hstatus
    · rw [← hresult]
    · show a.result.text = a'.text
      rw [hresult, a'.text_result]

/-! ## Runs -/

/-- **A run over a file** that succeeds, by what it comes to: the file is no mod, or keeps its text,
or is written. -/
inductive Runs (b : Batch) (d : Disk) (path : Text) : Report → Disk → Prop
  | noMod {f : ModFile} {c : Text} : b.openFile path = .ok f → d.readText path = .ok c →
      (Document.ofText b.characters b.assumed c).isMod = false →
      Runs b d path ⟨path, .notMod, false, [], []⟩ d
  | kept {f : ModFile} {c : Text} {s : Stage} : b.openFile path = .ok f →
      d.readText path = .ok c → (Document.ofText b.characters b.assumed c).isMod = true →
      b.stages d (f.setText c).withDocument = .ok s → s.file.text = c →
      Runs b d path ⟨path, s.status, false, s.removed, s.generated⟩ d
  | written {f : ModFile} {c : Text} {s : Stage} {d' : Disk} : b.openFile path = .ok f →
      d.readText path = .ok c → (Document.ofText b.characters b.assumed c).isMod = true →
      b.stages d (f.setText c).withDocument = .ok s → s.file.text ≠ c →
      d.writeText path s.file.text = .ok d' →
      Runs b d path ⟨path, s.status, true, s.removed, s.generated⟩ d'

/-- A file that cannot be read cannot be processed. -/
theorem isMod_of_unreadable (hopen : b.openFile path = .ok f) {cause : Disk.Fault}
    (hread : d.readText path = .error cause) : f.isMod d = (.error (.access path cause), f) := by
  obtain ⟨hpath, hloaded, -⟩ := openFile_spec hopen
  have hload : f.load d = .error (.access path cause) := by
    simp [ModFile.load, ModFile.read, hpath, hloaded, hread]
  simp [ModFile.isMod, ModFile.ask, ModFile.ensureParsed, hload]

/-- What the stages leave is written as its text is. -/
theorem write_of_stages (hopen : b.openFile path = .ok f) {s : Stage}
    (hs : b.stages d (f.setText c).withDocument = .ok s) :
    s.file.write d = .ok d' ↔ d.writeText path s.file.text = .ok d' := by
  obtain ⟨hpath, hloaded⟩ := file_of_stages hs
  exact ModFile.write_eq_ok (hpath.trans (openFile_spec hopen).1) hloaded

theorem runs_of_process {r : Report} (h : b.process d path = (.ok r, d')) :
    b.Runs d path r d' := by
  unfold process at h
  split at h
  · simp at h
  next f hopen =>
  cases hread : d.readText path with
  | error cause => simp [isMod_of_unreadable hopen hread] at h
  | ok c =>
    rw [isMod_of_openFile hopen hread] at h
    cases hmod : (Document.ofText b.characters b.assumed c).isMod with
    | false =>
      simp only [hmod, Prod.mk.injEq, Except.ok.injEq] at h
      obtain ⟨rfl, rfl⟩ := h
      exact .noMod hopen hread hmod
    | true =>
      simp only [hmod, ModFile.text_withDocument, ModFile.text_setText] at h
      split at h
      · simp at h
      next s hs =>
      split at h
      · next hsame =>
        obtain ⟨hr, rfl⟩ := Prod.mk.inj h
        obtain rfl := Except.ok.inj hr
        exact .kept hopen hread hmod hs hsame
      next hne =>
      split at h
      · simp at h
      next hw =>
      obtain ⟨hr, rfl⟩ := Prod.mk.inj h
      obtain rfl := Except.ok.inj hr
      exact .written hopen hread hmod hs hne ((write_of_stages hopen hs).1 hw)

theorem process_of_runs {r : Report} (h : b.Runs d path r d') :
    b.process d path = (.ok r, d') := by
  cases h with
  | noMod hopen hread hmod =>
    rw [process, hopen]
    simp only [isMod_of_openFile hopen hread, hmod]
  | kept hopen hread hmod hs hsame =>
    rw [process, hopen]
    simp only [isMod_of_openFile hopen hread, hmod, ModFile.text_withDocument,
      ModFile.text_setText, hs, if_pos hsame]
  | written hopen hread hmod hs hne hw =>
    rw [process, hopen]
    simp only [isMod_of_openFile hopen hread, hmod, ModFile.text_withDocument,
      ModFile.text_setText, hs, if_neg hne, (write_of_stages hopen hs).2 hw]

/-- **What a run reports**, and the disk that it leaves. -/
theorem process_eq_ok_iff {r : Report} :
    b.process d path = (.ok r, d') ↔ b.Runs d path r d' :=
  ⟨runs_of_process, process_of_runs⟩

/-- **A run that has fixed a file** leaves the text of such an application, whether it is written or
stands there already. -/
theorem exists_application_of_process {r : Report} {variants : List Text}
    (h : b.process d path = (.ok r, d')) (hr : r.status = .fixed variants) :
    ∃ f c t, b.openFile path = .ok f ∧ d.readText path = .ok c ∧ b.Cleared f.folder c t ∧
      ∃ a : ModFile.Application (f.setText t) d, a.built.toFix.toList = variants ∧
        (r.generated = a.result.buffers.flatMap fun e => e.2.fixedFiles) ∧
        d'.readText path = .ok a.text := by
  cases process_eq_ok_iff.1 h with
  | noMod => cases hr
  | kept hopen hread _ hs hsame =>
    obtain ⟨t, ht, a, hvariants, hgenerated, htext⟩ := exists_application_of_stages hs hr
    exact ⟨_, _, t, hopen, hread, ht, a, hvariants, hgenerated, by rw [hread, ← htext, hsame]⟩
  | written hopen hread _ hs _ hw =>
    obtain ⟨t, ht, a, hvariants, hgenerated, htext⟩ := exists_application_of_stages hs hr
    exact ⟨_, _, t, hopen, hread, ht, a, hvariants, hgenerated,
      by rw [← htext, Disk.readText_writeText hw]⟩

/-- A file that is processed can be opened and read. -/
theorem exists_readText_of_process {r : Report} (h : b.process d path = (.ok r, d')) :
    ∃ f c, b.openFile path = .ok f ∧ d.readText path = .ok c := by
  cases process_eq_ok_iff.1 h with
  | noMod hopen hread => exact ⟨_, _, hopen, hread⟩
  | kept hopen hread => exact ⟨_, _, hopen, hread⟩
  | written hopen hread => exact ⟨_, _, hopen, hread⟩

/-- A run over a file that is no mod leaves it as it is. -/
theorem process_of_not_isMod (hopen : b.openFile path = .ok f) (hread : d.readText path = .ok c)
    (hmod : (Document.ofText b.characters b.assumed c).isMod = false) :
    b.process d path = (.ok ⟨path, .notMod, false, [], []⟩, d) :=
  process_eq_ok_iff.2 (.noMod hopen hread hmod)

/-- **A run over a mod** leaves the text that the stages make of it, whether it is written or stands
there already. -/
theorem process_eq_ok_iff_of_isMod (hopen : b.openFile path = .ok f)
    (hread : d.readText path = .ok c)
    (hmod : (Document.ofText b.characters b.assumed c).isMod = true) {r : Report} :
    b.process d path = (.ok r, d') ↔ ∃ s, b.stages d (f.setText c).withDocument = .ok s ∧
      r = ⟨path, s.status, decide (s.file.text ≠ c), s.removed, s.generated⟩ ∧
      d.writeText path s.file.text = .ok d' := by
  rw [process_eq_ok_iff]
  constructor
  · intro h
    cases h with
    | noMod _ hread' hmod' =>
      obtain rfl := Except.ok.inj (hread.symm.trans hread')
      rw [hmod] at hmod'
      cases hmod'
    | kept hopen' hread' _ hs hsame =>
      obtain rfl := Except.ok.inj (hopen.symm.trans hopen')
      obtain rfl := Except.ok.inj (hread.symm.trans hread')
      exact ⟨_, hs, by simp [hsame], hsame ▸ Disk.writeText_readText hread⟩
    | written hopen' hread' _ hs hne hw =>
      obtain rfl := Except.ok.inj (hopen.symm.trans hopen')
      obtain rfl := Except.ok.inj (hread.symm.trans hread')
      exact ⟨_, hs, by simp [hne], hw⟩
  · rintro ⟨s, hs, rfl, hw⟩
    by_cases hsame : s.file.text = c
    · obtain rfl := Except.ok.inj (hw.symm.trans (hsame ▸ Disk.writeText_readText hread))
      simpa [hsame] using Runs.kept hopen hread hmod hs hsame
    · simpa [hsame] using Runs.written hopen hread hmod hs hsame hw

/-- **A run that fails** leaves the disk as it is, whatever it fails at. -/
theorem process_error {fault : Fault} (h : b.process d path = (.error fault, d')) : d' = d := by
  unfold process at h
  split at h
  · exact (Prod.mk.inj h).2.symm
  split at h
  · exact (Prod.mk.inj h).2.symm
  · simp at h
  split at h
  · exact (Prod.mk.inj h).2.symm
  split at h
  · simp at h
  split at h
  · exact (Prod.mk.inj h).2.symm
  · simp at h

end Batch

end Reskin
