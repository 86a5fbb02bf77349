import Reskin.Proofs.Batch.Failures

/-!
# Orders of files

What a run makes of a file depends on the text of that file, and it touches no other one. So many
files, no two of which are one and the same, are processed each as it would be alone, and it does not
matter in which order.

On a disk several paths may lead to one place, and a file may stand in the way of a path. Neither
does harm: no run makes a file where there was none, or a folder, so each path leads where it led
before, or fails as it failed before.

## Main definitions

* `Batch.verdict`: what a run makes of a text
* `Batch.Summary.append`, `Batch.Summary.sum`: the counts over files that are counted apart
* `Batch.Summary.Alike`: the same counts, with files in another order
* `Batch.summaryOf`: the counts over files each of which is processed alone

## Main results

* `Batch.process_of_fault`, `Batch.exists_process_of_verdict`: a run is its verdict on the text
* `Batch.foldl_processInto`: every file is processed as it would be alone
* `Batch.run_of_apart`: runs over many files
-/

namespace Reskin

open Ini (Document)

/-! ## Counts -/

namespace Batch

namespace Summary

variable {s s' t t' : Summary}

/-- The counts over some files and over others. -/
def append (s t : Summary) : Summary where
  fixed := s.fixed + t.fixed
  alreadyFixed := s.alreadyFixed + t.alreadyFixed
  undone := s.undone + t.undone
  unchanged := s.unchanged + t.unchanged
  notMod := s.notMod + t.notMod
  skipped := s.skipped ++ t.skipped
  removed := s.removed ++ t.removed
  generated := s.generated ++ t.generated

theorem append_empty (s : Summary) : s.append empty = s := by
  simp [append, empty]

theorem empty_append (s : Summary) : empty.append s = s := by
  simp [append, empty]

theorem append_assoc (s t u : Summary) : (s.append t).append u = s.append (t.append u) := by
  simp [append, Nat.add_assoc]

/-- The counts over all the files that are counted apart. -/
def sum : List Summary → Summary
  | [] => empty
  | s :: ss => s.append (sum ss)

/-- The counts over one file. -/
def ofOutcome (path : Text) : Except Fault Report → Summary
  | .ok r => empty.record r
  | .error fault => empty.skip path fault.message

theorem record_eq (s : Summary) (r : Report) : s.record r = s.append (empty.record r) := by
  obtain ⟨path, status, written, removed, generated⟩ := r
  cases status <;> simp [record, count, append, empty]

theorem skip_eq (s : Summary) (path reason : Text) :
    s.skip path reason = s.append (empty.skip path reason) := by
  simp [skip, append, empty]

/-- The number of files. -/
def total (s : Summary) : Nat :=
  s.fixed + s.alreadyFixed + s.undone + s.unchanged + s.notMod + s.skipped.length

theorem total_append (s t : Summary) : (s.append t).total = s.total + t.total := by
  simp only [total, append, List.length_append]
  omega

/-- **Every file is counted once**, whatever becomes of it. -/
theorem total_ofOutcome (path : Text) (outcome : Except Fault Report) :
    (ofOutcome path outcome).total = 1 := by
  rcases outcome with fault | ⟨path, status, written, removed, generated⟩
  · rfl
  · cases status <;> rfl

theorem total_sum {ss : List Summary} (h : ∀ s ∈ ss, s.total = 1) : (sum ss).total = ss.length := by
  induction ss with
  | nil => rfl
  | cons s ss ih =>
    rw [sum, total_append, h s List.mem_cons_self, List.length_cons, Nat.add_comm,
      ih fun t ht => h t (List.mem_cons_of_mem _ ht)]

/-- **The same counts**, with the same files listed, in whatever order. -/
structure Alike (s t : Summary) : Prop where
  fixed : t.fixed = s.fixed
  alreadyFixed : t.alreadyFixed = s.alreadyFixed
  undone : t.undone = s.undone
  unchanged : t.unchanged = s.unchanged
  notMod : t.notMod = s.notMod
  skipped : t.skipped.Perm s.skipped
  removed : t.removed.Perm s.removed
  generated : t.generated.Perm s.generated

theorem Alike.refl (s : Summary) : Alike s s :=
  ⟨rfl, rfl, rfl, rfl, rfl, .refl _, .refl _, .refl _⟩

theorem Alike.trans {u : Summary} (h : Alike s t) (h' : Alike t u) : Alike s u :=
  ⟨h'.fixed.trans h.fixed, h'.alreadyFixed.trans h.alreadyFixed, h'.undone.trans h.undone,
    h'.unchanged.trans h.unchanged, h'.notMod.trans h.notMod, h'.skipped.trans h.skipped,
    h'.removed.trans h.removed, h'.generated.trans h.generated⟩

theorem Alike.append (s : Summary) (h : Alike t t') : Alike (s.append t) (s.append t') :=
  ⟨congrArg (s.fixed + ·) h.fixed, congrArg (s.alreadyFixed + ·) h.alreadyFixed,
    congrArg (s.undone + ·) h.undone, congrArg (s.unchanged + ·) h.unchanged,
    congrArg (s.notMod + ·) h.notMod, h.skipped.append_left _, h.removed.append_left _,
    h.generated.append_left _⟩

theorem alike_append_left_comm (s t u : Summary) :
    Alike (s.append (t.append u)) (t.append (s.append u)) := by
  have hlist {α : Type} (xs ys zs : List α) : (ys ++ (xs ++ zs)).Perm (xs ++ (ys ++ zs)) := by
    rw [← List.append_assoc, ← List.append_assoc]
    exact List.perm_append_comm.append_right zs
  exact ⟨Nat.add_left_comm .., Nat.add_left_comm .., Nat.add_left_comm .., Nat.add_left_comm ..,
    Nat.add_left_comm .., hlist .., hlist .., hlist ..⟩

/-- **The order does not count.** -/
theorem alike_sum {ss ss' : List Summary} (h : ss.Perm ss') : Alike (sum ss) (sum ss') := by
  induction h with
  | nil => exact .refl _
  | cons s _ ih => exact .append s ih
  | swap s t ss => exact alike_append_left_comm t s (sum ss)
  | trans _ _ ih ih' => exact ih.trans ih'

end Summary

/-! ## Verdicts -/

/-- **What a run makes of a text**, or of a file that cannot be read: the report, and the text that
it leaves. -/
def verdict (b : Batch) (path : Text) (read : Except Disk.Fault Text) :
    Except Fault (Report × Text) :=
  match b.openFile path, read with
  | .error fault, _ => .error fault
  | .ok _, .error cause => .error (.access path cause)
  | .ok f, .ok c =>
    if (Document.ofText b.characters b.assumed c).isMod then
      (b.stages .empty (f.setText c).withDocument).map fun s =>
        (⟨path, s.status, decide (s.file.text ≠ c), s.removed, s.generated⟩, s.file.text)
    else .ok (⟨path, .notMod, false, [], []⟩, c)

variable {b : Batch} {d d' : Disk} {path : Text} {fault : Fault} {r : Report} {t : Text}

/-- A run fails as its verdict on the text says, and leaves the disk as it is. -/
theorem process_of_fault (h : b.verdict path (d.readText path) = .error fault) :
    b.process d path = (.error fault, d) := by
  unfold verdict at h
  split at h
  · next hopen =>
    obtain rfl := Except.error.inj h
    simp only [process, hopen]
  · next hopen hread =>
    obtain rfl := Except.error.inj h
    simp only [process, hopen, isMod_of_unreadable hopen hread]
  · next f c hopen hread =>
    split at h
    · next hmod =>
      rw [stages_disk b f c d .empty] at h
      cases hs : b.stages d (f.setText c).withDocument with
      | ok s => simp [hs, Except.map] at h
      | error fault' =>
        obtain rfl : fault' = fault := by simpa [hs, Except.map] using h
        simp only [process, hopen, isMod_of_openFile hopen hread, hmod, hs]
    · cases h

/-- **A run reports what its verdict on the text says**, and leaves the text that it says. -/
theorem exists_process_of_verdict (h : b.verdict path (d.readText path) = .ok (r, t)) :
    ∃ c d', d.readText path = .ok c ∧ d.writeText path t = .ok d' ∧
      b.process d path = (.ok r, d') := by
  unfold verdict at h
  split at h
  · cases h
  · cases h
  · next f c hopen hread =>
    split at h
    · next hmod =>
      rw [stages_disk b f c d .empty] at h
      cases hs : b.stages d (f.setText c).withDocument with
      | error fault => simp [hs, Except.map] at h
      | ok s =>
        obtain ⟨hr, ht⟩ : _ = r ∧ s.file.text = t := by simpa [hs, Except.map] using h
        obtain ⟨d', hw⟩ := Disk.exists_writeText hread t
        exact ⟨c, d', hread, hw, (process_eq_ok_iff_of_isMod hopen hread hmod).2
          ⟨s, hs, by simpa using hr.symm, ht ▸ hw⟩⟩
    · next hmod =>
      obtain ⟨rfl, rfl⟩ := Prod.mk.inj (Except.ok.inj h)
      exact ⟨c, d, hread, Disk.writeText_readText hread,
        process_of_not_isMod hopen hread (by simpa using hmod)⟩

/-- **Disks on which a path reads the same** are the same to a run over it. -/
theorem process_congr (hread : d'.readText path = d.readText path) :
    (b.process d' path).1 = (b.process d path).1 := by
  rcases h : b.verdict path (d.readText path) with fault | ⟨r, t⟩
  · rw [process_of_fault h, process_of_fault (hread ▸ h)]
  · obtain ⟨-, d₁, -, -, hrun⟩ := exists_process_of_verdict h
    obtain ⟨-, d₂, -, -, hrun'⟩ := exists_process_of_verdict (d := d') (hread ▸ h)
    rw [hrun, hrun']

/-- The place that the path leads to is left alike where it was alike. -/
theorem node?_process_congr {l : Disk.Location} (hl : d.locate path = .ok l)
    (hl' : d'.locate path = .ok l) (hread : d'.readText path = d.readText path)
    (hn : d'.node? l = d.node? l) :
    (b.process d' path).2.node? l = (b.process d path).2.node? l := by
  rcases h : b.verdict path (d.readText path) with fault | ⟨r, t⟩
  · rw [process_of_fault h, process_of_fault (hread ▸ h)]
    exact hn
  · obtain ⟨-, d₁, -, hw, hrun⟩ := exists_process_of_verdict h
    obtain ⟨-, d₂, -, hw', hrun'⟩ := exists_process_of_verdict (d := d') (hread ▸ h)
    rw [hrun, hrun', Disk.node?_writeText_self hw hl, Disk.node?_writeText_self hw' hl']

/-- No run makes a file where there was none. -/
theorem sameTree_process (b : Batch) (d : Disk) (path : Text) :
    d.SameTree (b.process d path).2 := by
  rcases h : b.verdict path (d.readText path) with fault | ⟨r, t⟩
  · rw [process_of_fault h]
    exact .refl d
  · obtain ⟨c, d₁, hread, hw, hrun⟩ := exists_process_of_verdict h
    rw [hrun]
    exact Disk.sameTree_writeText hread hw

/-! ## Runs -/

/-- The counts over files each of which is processed alone. -/
def summaryOf (b : Batch) (d : Disk) (paths : List Text) : Summary :=
  .sum (paths.map fun path => .ofOutcome path (b.process d path).1)

theorem processInto_eq (b : Batch) (s : Summary) (d : Disk) (path : Text) :
    b.processInto (s, d) path =
      (s.append (.ofOutcome path (b.process d path).1), (b.process d path).2) := by
  unfold processInto
  split
  · next h => rw [Summary.record_eq, h, Summary.ofOutcome]
  · next h => rw [Summary.skip_eq, h, Summary.ofOutcome]

/-- **Every file is processed as it would be alone** on the disk that the run began with, as long as
the files that are still to come stand there as they stood. -/
theorem foldl_processInto {d e : Disk} {paths : List Text} (htree : d.SameTree e)
    (hapart : d.Apart paths)
    (hkept : ∀ path ∈ paths, ∀ l, d.locate path = .ok l → e.node? l = d.node? l) (s : Summary) :
    (paths.foldl b.processInto (s, e)).1 = s.append (b.summaryOf d paths) ∧
      (∀ path ∈ paths, ∀ l, d.locate path = .ok l →
        (paths.foldl b.processInto (s, e)).2.node? l = (b.process d path).2.node? l) ∧
      ∀ l, (∀ path ∈ paths, d.locate path ≠ .ok l) →
        (paths.foldl b.processInto (s, e)).2.node? l = e.node? l := by
  induction paths generalizing s e with
  | nil => exact ⟨(Summary.append_empty s).symm, by simp, fun _ _ => rfl⟩
  | cons path paths ih =>
    obtain ⟨hfirst, hrest⟩ := List.pairwise_cons.1 hapart
    have hread : e.readText path = d.readText path := htree.readText (hkept path List.mem_cons_self)
    -- the first file is the only one that its run touches
    have houtside (l : Disk.Location) (hl : d.locate path ≠ .ok l) :
        (b.process e path).2.node? l = e.node? l :=
      node?_process_of_ne (by rwa [htree.locate])
    have hlater (other : Text) (hother : other ∈ paths) (l : Disk.Location)
        (hl : d.locate other = .ok l) : (b.process e path).2.node? l = d.node? l := by
      rw [houtside l fun hp => hfirst other hother l hp hl]
      exact hkept other (List.mem_cons_of_mem _ hother) l hl
    obtain ⟨hsummary, hlisted, hunlisted⟩ := ih (htree.trans (sameTree_process b e path)) hrest
      hlater (s.append (.ofOutcome path (b.process e path).1))
    rw [List.foldl_cons, processInto_eq]
    refine ⟨?_, ?_, ?_⟩
    · rw [hsummary, Summary.append_assoc, process_congr hread]
      rfl
    · intro other hother l hl
      rcases List.mem_cons.1 hother with rfl | hother
      · rw [hunlisted l fun other' hother' => hfirst other' hother' l hl]
        exact node?_process_congr hl (by rwa [htree.locate]) hread
          (hkept other List.mem_cons_self l hl)
      · exact hlisted other hother l hl
    · intro l hl
      rw [hunlisted l fun other hother => hl other (List.mem_cons_of_mem _ hother)]
      exact houtside l (hl path List.mem_cons_self)

/-- **Many files**, each as if it were alone, and in any order. On paths that lead to different
places a run leaves each file as a run over it alone, and one that fails as it was; it leaves every
other place as it was; and it counts every file once, as it would be counted alone. Another order of
the paths leads to the same disk and the same counts, and lists the same files. -/
theorem run_of_apart (b : Batch) {d : Disk} {paths : List Text} (h : d.Apart paths) :
    (∀ path ∈ paths, ∀ l, d.locate path = .ok l →
      (b.run d paths).2.node? l = (b.process d path).2.node? l ∧
      ((∃ fault, (b.process d path).1 = .error fault) → (b.run d paths).2.node? l = d.node? l)) ∧
    (∀ l, (∀ path ∈ paths, d.locate path ≠ .ok l) → (b.run d paths).2.node? l = d.node? l) ∧
    (b.run d paths).1 = b.summaryOf d paths ∧ (b.run d paths).1.total = paths.length ∧
    ∀ paths', paths.Perm paths' → (∀ l, (b.run d paths').2.node? l = (b.run d paths).2.node? l) ∧
      Summary.Alike (b.run d paths).1 (b.run d paths').1 := by
  have halone {paths : List Text} (h : d.Apart paths) :=
    foldl_processInto (b := b) (.refl d) h (fun _ _ _ _ => rfl) .empty
  have hsummary {paths : List Text} (h : d.Apart paths) :
      (b.run d paths).1 = b.summaryOf d paths := by
    rw [run, (halone h).1, Summary.empty_append]
  refine ⟨fun path hpath l hl => ⟨(halone h).2.1 path hpath l hl, ?_⟩, (halone h).2.2,
    hsummary h, ?_, fun paths' hp => ⟨fun l => ?_, ?_⟩⟩
  · rintro ⟨fault, hfault⟩
    rcases hrun : b.process d path with ⟨result, d'⟩
    obtain rfl : result = .error fault := by rwa [hrun] at hfault
    refine ((halone h).2.1 path hpath l hl).trans ?_
    rw [hrun, process_error hrun]
  · rw [hsummary h, summaryOf, Summary.total_sum, List.length_map]
    intro s hs
    obtain ⟨path, -, rfl⟩ := List.mem_map.1 hs
    exact Summary.total_ofOutcome path _
  · by_cases hl : ∃ path ∈ paths, d.locate path = .ok l
    · obtain ⟨path, hpath, hl⟩ := hl
      exact ((halone (h.of_perm hp)).2.1 path (hp.subset hpath) l hl).trans
        ((halone h).2.1 path hpath l hl).symm
    · push Not at hl
      exact ((halone (h.of_perm hp)).2.2 l fun path hpath => hl path (hp.symm.subset hpath)).trans
        ((halone h).2.2 l hl).symm
  · rw [hsummary h, hsummary (h.of_perm hp)]
    exact Summary.alike_sum (hp.map _)

/-- A path that nothing stands at. -/
def lonePath : Text := "b.ini".toList

/-- The file with the blend override, and a path to nothing: what can be read is processed, what
cannot is counted, and either may come first. -/
theorem run_of_apart_lone :
    let d := oneFile ModFile.blendText
    d.Apart [iniPath, lonePath] ∧ [iniPath, lonePath].Perm [lonePath, iniPath] ∧
      (raidenBatch.run d [iniPath, lonePath]).2.node? [iniPath] =
        (raidenBatch.process d iniPath).2.node? [iniPath] ∧
      (raidenBatch.run d [iniPath, lonePath]).1.total = 2 ∧
      Summary.Alike (raidenBatch.run d [iniPath, lonePath]).1
        (raidenBatch.run d [lonePath, iniPath]).1 := by
  intro d
  have hplace : d.locate iniPath = .ok [iniPath] := by decide +kernel
  have hapart : d.Apart [iniPath, lonePath] := by
    refine List.pairwise_pair.2 fun l hl => ?_
    rw [← Except.ok.inj (hplace.symm.trans hl)]
    decide +kernel
  obtain ⟨hlisted, -, -, htotal, horder⟩ := run_of_apart raidenBatch hapart
  have hperm : [iniPath, lonePath].Perm [lonePath, iniPath] := .swap ..
  exact ⟨hapart, hperm, (hlisted iniPath List.mem_cons_self _ hplace).1, htotal,
    (horder _ hperm).2⟩

end Batch

end Reskin
