import Reskin.Proofs.ModFile.RoundTrip
import Reskin.Proofs.Naming.BufferFile

/-!
# The buffer files of a building

Once the graphs of a file are built, every variant has a buffer file in the place of each file that
a managed resource names. Which of them are the same is decided by the old paths alone: it is the
same for all variants.

## Main definitions

* `ModFile.bufferRows`: the files that the resources name, with those that variants load
* `ModFile.dressBuilding`: the stages of a building for a resource with three files

## Main results

* `ModFile.Building.get?_fixed`: the buffer file that a variant loads
* `ModFile.bufferFiles_eq_iff`: two buffer files of a variant are the same exactly if the old paths
  clash
-/

namespace Reskin.ModFile

/-- The files that the resources of a file name, each with those that variants load in its place. -/
def bufferRows (f : ModFile) : List BufferRow := f.buffers.flatMap (·.2.rows)

/-- **The buffer file that a variant loads** in place of another one. -/
theorem Building.get?_fixed {f : ModFile} {d : Disk} (b : Building f d) {r : BufferRow}
    (hr : r ∈ b.built.bufferRows) {v : Text} (hv : v ∈ b.built.toFix.toList) :
    r.fixed.get? v = some (Naming.bufferFile r.path v) := by
  obtain ⟨e, he, hrow⟩ := List.mem_flatMap.1 hr
  rw [b.buffers_built] at he
  obtain ⟨x, -, rfl⟩ := List.mem_map.1 he
  obtain ⟨⟨place, path⟩, -, rfl⟩ := List.mem_map.1 hrow
  show (Table.ofList (b.built.toFix.toList.map fun v => (v, Naming.bufferFile path v))).get? v =
    some (Naming.bufferFile path v)
  rw [Table.get?_ofList_map, if_pos hv]

/-- A plain name has no slash. -/
theorem isSlash_of_alphanumeric {v : Text} (hv : v.Alphanumeric) :
    ∀ c ∈ v, Naming.isSlash c = false := by
  intro c hc
  have halnum := hv.2 c hc
  unfold Naming.isSlash
  rw [Bool.or_eq_false_iff, beq_eq_false_iff_ne, beq_eq_false_iff_ne]
  constructor
  · rintro rfl
    simp at halnum
  · rintro rfl
    simp at halnum

/-- **Two buffer files of a variant** are the same exactly if the old paths lie in one folder and
their names without extensions are the same, but for a `Blend` at the end of the one where the other
holds none. -/
theorem bufferFiles_eq_iff {f f' : ModFile} {d : Disk} (hf : Reachable f)
    (hplain : ∀ c, f.MayBelongTo c → c.HasPlainVariants)
    (h : f.buildGraphs d = (.ok true, f')) {v : Text} (hv : v ∈ f'.toFix.toList)
    {r s : BufferRow} (hr : r ∈ f'.bufferRows) (hs : s ∈ f'.bufferRows) :
    ∃ new new', r.fixed.get? v = some new ∧ s.fixed.get? v = some new' ∧
      (new = new' ↔ Naming.Clash r.path s.path) := by
  obtain ⟨b, rfl⟩ := exists_building h
  have hcurrent := isCurrent_of_reachable hf
  have halnum : v.Alphanumeric :=
    b.alphanumeric_of_mem_toFix (fun c hc => hplain c (b.mayBelongTo hcurrent hc)) hv
  exact ⟨_, _, b.get?_fixed hr hv, b.get?_fixed hs hv,
    Naming.bufferFile_eq_bufferFile_iff (isSlash_of_alphanumeric halnum)⟩

/-! ## Files with one name -/

/-- A blend override that loads a resource with three files, two of which differ in their extensions
only. -/
def dressText : Text :=
  Text.unlines .lf ["[TextureOverrideRaidenBlend]".toList, "vb1 = ResourceRaiden".toList, [],
    "[ResourceRaiden]".toList, "if $dress == 0".toList, "filename = Raiden.buf".toList,
    "elif $dress == 1".toList, "filename = Raiden.ib".toList, "else".toList,
    "filename = Dress.buf".toList, "endif".toList]

/-- The override. -/
def dressRoot : Text × Ini.Body :=
  ("TextureOverrideRaidenBlend".toList, [.content [("vb1".toList, "ResourceRaiden".toList)]])

/-- The resource. -/
def dressResource : Text × Ini.Body :=
  ("ResourceRaiden".toList,
    [.control "if $dress == 0".toList, .content [("filename".toList, "Raiden.buf".toList)],
      .control "elif $dress == 1".toList, .content [("filename".toList, "Raiden.ib".toList)],
      .control "else".toList, .content [("filename".toList, "Dress.buf".toList)],
      .control "endif".toList])

/-- The stages of a building for the text. -/
def dressBuilding (d : Disk) : Building (raidenFile dressText) d :=
  .ofWalks 2 dressRoot.1 [dressRoot] [] [dressResource]

/-- The file that a part of the resource names, and the one that the variant loads. -/
def dressRow (place : Nat) (path new : Text) : BufferRow := ⟨place, path, [("RaidenBoss".toList, new)]⟩

theorem bufferRows_dressBuilding (d : Disk) : (dressBuilding d).built.bufferRows =
    [dressRow 1 "Raiden.buf".toList "RaidenRaidenBossRemapBlend.buf".toList,
      dressRow 3 "Raiden.ib".toList "RaidenRaidenBossRemapBlend.buf".toList,
      dressRow 5 "Dress.buf".toList "DressRaidenBossRemapBlend.buf".toList] := by
  show ((raidenFile dressText).withDocument.withWalks [dressRoot] [] [dressResource]).bufferRows = _
  decide +kernel

theorem mem_toFix_dressBuilding (d : Disk) :
    "RaidenBoss".toList ∈ (dressBuilding d).built.toFix.toList := by
  show _ ∈ ((raidenFile dressText).withDocument.withWalks [dressRoot] [] [dressResource]).toFix.toList
  decide +kernel

/-- Files with different names stay different. -/
theorem bufferFiles_eq_iff_dress : ∃ r ∈ (dressBuilding .empty).built.bufferRows,
    ∃ s ∈ (dressBuilding .empty).built.bufferRows, r.path = "Raiden.buf".toList ∧
      s.path = "Dress.buf".toList ∧ ∃ new new', r.fixed.get? "RaidenBoss".toList = some new ∧
        s.fixed.get? "RaidenBoss".toList = some new' ∧ new ≠ new' := by
  have hrows := bufferRows_dressBuilding .empty
  have hr : dressRow 1 "Raiden.buf".toList "RaidenRaidenBossRemapBlend.buf".toList ∈
      (dressBuilding .empty).built.bufferRows := by simp [hrows]
  have hs : dressRow 5 "Dress.buf".toList "DressRaidenBossRemapBlend.buf".toList ∈
      (dressBuilding .empty).built.bufferRows := by simp [hrows]
  obtain ⟨new, new', hnew, hnew', hiff⟩ := bufferFiles_eq_iff (reachable_raidenFile dressText)
    (hasPlainVariants_of_raidenFile dressText) (dressBuilding .empty).buildGraphs_eq
    (mem_toFix_dressBuilding .empty) hr hs
  exact ⟨_, hr, _, hs, rfl, rfl, new, new', hnew, hnew',
    fun he => absurd (hiff.1 he) (by decide +kernel)⟩

/-- **Files that differ in their extensions** are remapped to one and the same buffer file. -/
theorem bufferFiles_clash : ¬ ∀ (f f' : ModFile) (d : Disk), Reachable f →
    (∀ c, f.MayBelongTo c → c.HasPlainVariants) → f.buildGraphs d = (.ok true, f') →
    ∀ v ∈ f'.toFix.toList, ∀ r ∈ f'.bufferRows, ∀ s ∈ f'.bufferRows,
      Text.trim r.path ≠ Text.trim s.path → r.fixed.get? v ≠ s.fixed.get? v := by
  intro h
  have hrows := bufferRows_dressBuilding .empty
  exact h _ _ .empty (reachable_raidenFile dressText) (hasPlainVariants_of_raidenFile dressText)
    (dressBuilding .empty).buildGraphs_eq _ (mem_toFix_dressBuilding .empty)
    (dressRow 1 "Raiden.buf".toList "RaidenRaidenBossRemapBlend.buf".toList) (by simp [hrows])
    (dressRow 3 "Raiden.ib".toList "RaidenRaidenBossRemapBlend.buf".toList) (by simp [hrows])
    (by decide +kernel) rfl

end Reskin.ModFile
