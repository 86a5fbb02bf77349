import Mathlib.Data.Multiset.Bind
import Reskin.Proofs.Batch.SecondRun
import Reskin.Proofs.ModFile.BufferFiles
import Reskin.Proofs.ModFile.LoadedFiles
import Reskin.Proofs.ModFile.Recorded

/-!
# Generated files

A run that has fixed a file reports the files to generate for it. They are listed section by section
and place by place, and for each place in the order of the variants, where the block that is written
has all that belongs to a variant in one place. So the two lists differ in their order, and in
nothing else.

## Main results

* `ModFile.Building.perm_generatedFiles`: the files of a building, variant by variant
* `Batch.generated_perm_loaded`: the files that are reported are those that are loaded
-/

namespace Reskin

namespace ModFile

variable {f : ModFile} {d : Disk}

/-- A building keeps the place of the file. -/
theorem Application.folder_built (a : Application f d) : a.built.folder = f.folder := by
  obtain ⟨parsed, hresult⟩ := a.exists_result_eq
  have hpath : a.built.path = f.path := by
    rw [← a.path_result, hresult]
  rw [folder, folder, hpath]

namespace Building

variable (b : Building f d)

/-- The files that are generated, in the order of the tables. -/
theorem generatedFiles_eq : b.built.generatedFiles =
    (b.built.resources.valuesOf .filename).flatMap fun path => b.built.toFix.toList.map fun v =>
      Buffers.whole ⟨b.built.folder, []⟩ (Naming.bufferFile path v) := by
  rw [generatedFiles, b.buffers_built, List.flatMap_map, CallGraph.valuesOf, List.flatMap_assoc]
  exact List.flatMap_congr fun e _ => Buffers.fixedFiles_ofBody b.built.toFix.nodup_toList

/-- **The files that are generated** are those of the variants, each as often as the tables have
it. -/
theorem perm_generatedFiles : (b.built.generatedFiles.map some).Perm
    ((b.built.toFix.toList.flatMap b.built.pathsFor).map
      (Option.map (Buffers.whole ⟨b.built.folder, []⟩))) := by
  have hpaths : (b.built.toFix.toList.flatMap b.built.pathsFor).map
      (Option.map (Buffers.whole ⟨b.built.folder, []⟩)) =
      (b.built.toFix.toList.flatMap fun v => (b.built.resources.valuesOf .filename).map fun path =>
        Buffers.whole ⟨b.built.folder, []⟩ (Naming.bufferFile path v)).map some := by
    rw [List.map_flatMap, List.map_flatMap]
    refine List.flatMap_congr fun v hv => ?_
    rw [b.pathsFor_eq hv, List.map_map, List.map_map]
    rfl
  rw [hpaths, b.generatedFiles_eq]
  -- the two lists go through the same pairs, by rows and by columns
  refine List.Perm.map some (Multiset.coe_eq_coe.1 ?_)
  simpa only [Multiset.coe_bind, Multiset.map_coe] using
    Multiset.bind_map_comm (b.built.resources.valuesOf .filename : Multiset Text)
      (b.built.toFix.toList : Multiset Text)

end Building

end ModFile

namespace Batch

/-- The file that a batch opens has been made by operations, and nothing has been read from it. -/
theorem reachable_of_openFile {b : Batch} {path : Text} {f : ModFile}
    (h : b.openFile path = .ok f) : f.Reachable :=
  .step (d := .empty) (.step (d := .empty) (.step (d := .empty) (.step (d := .empty) (.ofPath path)
    (.withCharacters b.characters)) (.withAssumed b.assumed)) (.withVariants b.options.variants))
    (.withManaged h)

/-- **The files that are loaded and those that are generated.** Once the graphs of a file are built,
the resources that are generated for a variant load the files that the tables have for it, resource
by resource and place by place, and no path is made up on the way. A run that has fixed a file has
appended such resources for all its variants, and reports their files: as seen from the folder, each
as often as the tables have it. -/
theorem generated_perm_loaded :
    (∀ {f g : ModFile} {d : Disk}, f.Reachable → (∀ c, f.MayBelongTo c → c.HasPlainVariants) →
      f.buildGraphs d = (.ok true, g) → ∀ c, ∀ v ∈ g.toFix.toList, g.LoadsItsFiles c v) ∧
    ∀ {b : Batch} {d d' : Disk} {path : Text} {r : Report} {variants : List Text},
      b.process d path = (.ok r, d') → r.status = .fixed variants →
      ∃ f c t g character block, b.openFile path = .ok f ∧ (f.setText t).Reachable ∧
        d.readText path = .ok c ∧ b.Cleared f.folder c t ∧
        (f.setText t).buildGraphs d = (.ok true, g) ∧ g.toFix.toList = variants ∧
        (g.sources character).block variants (some character.title) = .ok block ∧
        d'.readText path = .ok (ModFile.appended t block) ∧
        (r.generated.map some).Perm
          ((variants.flatMap g.pathsFor).map (Option.map (Buffers.whole ⟨f.folder, []⟩))) := by
  refine ⟨fun {f g d} hf hplain h c v hv => ?_, fun {b d d' path r variants} h hr => ?_⟩
  · obtain ⟨building, rfl⟩ := ModFile.exists_building h
    have hcurrent := ModFile.isCurrent_of_reachable hf
    exact building.loadsItsFiles hcurrent
      (fun c hc => hplain c (building.mayBelongTo hcurrent hc)) c hv
  · obtain ⟨f, c, t, hopen, hread, ht, a, rfl, hgenerated, hwritten⟩ :=
      exists_application_of_process h hr
    have htext : a.read.text = t := a.text_read rfl
    have hfolder : a.built.folder = f.folder := a.folder_built
    refine ⟨f, c, t, a.built, a.character, a.block, hopen,
      .step (d := d) (reachable_of_openFile hopen) (.setText t), hread, ht,
      a.building.buildGraphs_eq, rfl, a.block_eq, ?_, ?_⟩
    · rw [hwritten, ModFile.Application.text, htext]
    · obtain ⟨parsed, hresult⟩ := a.exists_result_eq
      have hfiles : r.generated = a.built.generatedFiles := by
        rw [hgenerated, hresult]
        rfl
      rw [hfiles, ← hfolder]
      exact a.building.perm_generatedFiles

/-- The stages of an application to the override that loads two resources, in a file of the batch. -/
def chainApplication (d : Disk) : ModFile.Application (opened.setText ModFile.chainText) d :=
  .ofWalks 3 "TextureOverrideRaidenBlend".toList ModFile.raiden
    [ModFile.weightsRoot] [] ModFile.chainResources [ModFile.chainPart]

/-- The files of both resources are reported, whether an override or only a resource runs them; and
those of a resource with three files are loaded. -/
theorem generated_perm_loaded_chain :
    (∀ c, (ModFile.dressBuilding .empty).built.LoadsItsFiles c "RaidenBoss".toList) ∧
    ∃ r d', raidenBatch.process (oneFile ModFile.chainText) iniPath = (.ok r, d') ∧
      r.status = .fixed ["RaidenBoss".toList] ∧
      r.generated.Perm ["./RaidenRaidenBossRemapBlend.buf".toList,
        "./ExtraRaidenBossRemapBlend.buf".toList] := by
  refine ⟨fun c => generated_perm_loaded.1 (ModFile.reachable_raidenFile ModFile.dressText)
    (ModFile.hasPlainVariants_of_raidenFile ModFile.dressText)
    (ModFile.dressBuilding .empty).buildGraphs_eq c _ (ModFile.mem_toFix_dressBuilding .empty), ?_⟩
  have hcut : Remap.Fence.cut ModFile.chainText = ([], ModFile.chainText) :=
    Remap.Fence.cut_of_not_mem (by decide)
  have hclean : ∀ l ∈ Text.lines ModFile.chainText, Remap.Clean l := by decide +kernel
  have hvariants : (chainApplication (oneFile ModFile.chainText)).built.toFix.toList =
      ["RaidenBoss".toList] := by decide +kernel
  obtain ⟨r, hrun, hstatus, -⟩ := exists_process_of_clean hcut hclean (by decide +kernel)
    (chainApplication _) (by decide +kernel)
  refine ⟨r, _, hrun, hstatus.trans (by rw [hvariants]), ?_⟩
  obtain ⟨f, c, t, g, -, -, hopen, -, hread, ht, hbuild, -, -, -, hperm⟩ :=
    generated_perm_loaded.2 hrun hstatus
  obtain rfl : opened = f := Except.ok.inj (openFile_raidenBatch.symm.trans hopen)
  obtain rfl : ModFile.chainText = c := Except.ok.inj ((readText_oneFile _).symm.trans hread)
  obtain ⟨e, he, rfl⟩ : ∃ e, Remap.erase opened.folder ModFile.chainText = .ok e ∧ t = e.text := ht
  obtain rfl := Except.ok.inj ((Remap.erase_of_clean _ hcut hclean).symm.trans he)
  obtain rfl : (chainApplication (oneFile ModFile.chainText)).built = g :=
    (Prod.mk.inj ((chainApplication _).building.buildGraphs_eq.symm.trans hbuild)).2
  refine (List.map_perm_map_iff (Option.some_injective _)).1 (hperm.trans (.of_eq ?_))
  decide +kernel

end Batch

end Reskin
