import Reskin.Proofs.ModFile.Block
import Reskin.Proofs.Remap.Ids

/-!
# The variants of a file

When the graphs of a file are built, the variants to generate are chosen. They are the requested
ones that every known id of the three graphs has a replacement for; if there is no such variant,
they are all that the character has. Which sections hold the ids, in which order they and the rows
of the tables stand, does not matter.

## Main definitions

* `ModFile.HasId`: the ids in the sections of the graphs

## Main results

* `ModFile.Building.toFix_eq`, `ModFile.Building.mem_toFix_iff`: the variants of a building
* `ModFile.toFix_buildGraphs`: the variants that are chosen, and what they depend on
-/

namespace Reskin

open Ini (Body Document Key)
open Remap (Part)

namespace ModFile

/-- An id in a section of one of the graphs. -/
def HasId (f : ModFile) (kind : Asset.Kind) (id : Text) : Prop :=
  ∃ part, ∃ e ∈ (f.graph part).reached, e.2.Assigns kind.key id

/-- The three graphs, one after the other or by their kind. -/
theorem exists_graph_iff {f : ModFile} {p : CallGraph → Prop} :
    (∃ g ∈ [f.blend, f.others, f.resources], p g) ↔ ∃ part, p (f.graph part) := by
  simp only [List.mem_cons, List.not_mem_nil, or_false]
  constructor
  · rintro ⟨g, rfl | rfl | rfl, hg⟩
    · exact ⟨.blend, hg⟩
    · exact ⟨.others, hg⟩
    · exact ⟨.resources, hg⟩
  · rintro ⟨part, hg⟩
    cases part with
    | blend => exact ⟨_, .inl rfl, hg⟩
    | others => exact ⟨_, .inr (.inl rfl), hg⟩
    | resources => exact ⟨_, .inr (.inr rfl), hg⟩

namespace Building

variable {f : ModFile} {d : Disk} (b : Building f d)

theorem availableCharacter_built : b.built.availableCharacter = b.read.availableCharacter := by
  obtain ⟨blend, others, resources, -, -, -, he⟩ := exists_of_buildFrom b.buildFrom_eq
  rw [he]
  rfl

/-- **The variants of a building** are chosen for its graphs. -/
theorem toFix_eq {c : Character} (hc : b.built.availableCharacter = some c) :
    b.built.toFix =
      variantsFor c [b.built.blend, b.built.others, b.built.resources] f.requested := by
  rw [availableCharacter_built] at hc
  obtain ⟨blend, others, resources, -, -, -, he⟩ := exists_of_buildFrom b.buildFrom_eq
  have havailable : { b.read with blend, others, resources }.availableCharacter = some c := hc
  have hrequested : b.read.requested = f.requested := by
    obtain ⟨_, _, hread⟩ := exists_of_ensureParsed b.ensureParsed_eq
    rw [hread]
  rw [he]
  simp only [withVariantsChosen, havailable]
  rw [← hrequested]
  rfl

/-- The ids that narrow the variants down are those that sections assign. -/
theorem occurs_iff (hf : f.IsCurrent) (kind : Asset.Kind) (id : Text) :
    Occurs [b.built.blend, b.built.others, b.built.resources] kind id ↔ b.built.HasId kind id := by
  have hassigns {part : Part} {e : Text × Body} (he : e ∈ (b.built.graph part).reached) :
      e.2.Assigns kind.key id ↔ id ∈ e.2.valuesOf kind.key := by
    obtain ⟨ls, hls⟩ := Document.exists_eq_ofLines ((b.built_graph hf part).declared e he)
    rw [hls]
    exact Body.assigns_iff
  rw [Occurs, exists_graph_iff, HasId]
  apply exists_congr
  intro part
  exact List.mem_flatMap.trans
    (exists_congr fun e => and_congr_right fun he => (hassigns he).symm)

theorem occurs_eq (hf : f.IsCurrent) :
    Occurs [b.built.blend, b.built.others, b.built.resources] = b.built.HasId := by
  funext kind id
  exact propext (b.occurs_iff hf kind id)

/-- **The variants of a building** are the requested ones that are supported, if there is one. -/
theorem mem_toFix_iff (hf : f.IsCurrent) {c : Character} (hc : b.built.availableCharacter = some c)
    (hsome : ∃ w ∈ f.requested, c.Supports b.built.HasId w) {v : Text} :
    v ∈ b.built.toFix ↔ v ∈ f.requested ∧ c.Supports b.built.HasId v := by
  rw [← b.occurs_eq hf] at hsome ⊢
  rw [b.toFix_eq hc]
  exact mem_variantsFor hsome

end Building

/-- **The variants that are chosen** when graphs are built: the requested ones that every known id
of the graphs has a replacement for or, if there are none, all variants of the character. Files with
the same ids in their graphs get the same variants, in whatever order the ids stand there and the
rows in the tables. -/
theorem toFix_buildGraphs {f f' : ModFile} {d : Disk} (hf : Reachable f)
    (h : f.buildGraphs d = (.ok true, f')) {c : Character} (hc : f'.availableCharacter = some c) :
    ((∃ w ∈ f.requested, c.Supports f'.HasId w) →
        ∀ v, v ∈ f'.toFix ↔ v ∈ f.requested ∧ c.Supports f'.HasId v) ∧
      ((∀ w ∈ f.requested, ¬ c.Supports f'.HasId w) → f'.toFix = c.variants) ∧
      ∀ {g g' : ModFile} {d' : Disk} {c' : Character}, Reachable g →
        g.buildGraphs d' = (.ok true, g') → g'.availableCharacter = some c' →
        g.requested = f.requested → c'.Reorders c →
        (∀ kind id, g'.HasId kind id ↔ f'.HasId kind id) → g'.toFix = f'.toFix := by
  have hcurrent := isCurrent_of_reachable hf
  obtain ⟨b, rfl⟩ := exists_building h
  refine ⟨fun hsome v => b.mem_toFix_iff hcurrent hc hsome, fun hnone => ?_, ?_⟩
  · rw [← b.occurs_eq hcurrent] at hnone
    rw [b.toFix_eq hc]
    exact variantsFor_of_none hnone
  · intro g g' d' c' hg h' hc' hrequested hreorders hids
    have hcurrent' := isCurrent_of_reachable hg
    obtain ⟨b', rfl⟩ := exists_building h'
    rw [b.toFix_eq hc, b'.toFix_eq hc', hrequested]
    apply hreorders.variantsFor_eq
    intro kind id
    rw [b.occurs_iff hcurrent, b'.occurs_iff hcurrent']
    exact hids kind id

/-- A character with one id, and a variant that the id has no replacement for. -/
def knowingRaiden : Character :=
  ⟨"Raiden".toList, [], .empty, ["Other".toList, "RaidenBoss".toList],
    [("111".toList, [("RaidenBoss".toList, "222".toList)])], []⟩

/-- The blend override with this id, and both variants asked for. -/
def knowingFile : ModFile :=
  ((ofText blendText).withAssumed (some knowingRaiden)).withVariants
    ["Other".toList, "RaidenBoss".toList]

theorem reachable_knowingFile : Reachable knowingFile :=
  .step (d := .empty) (.step (d := .empty) (.ofText blendText) (.withAssumed _)) (.withVariants _)

/-- What is generated for the variant that the id has a replacement for. -/
def knowingPart : Text :=
  Text.unlines .lf [[], [], "; ***** RaidenBoss *****".toList,
    "[TextureOverrideRaidenRaidenBossRemapBlend]".toList, "hash = 222".toList, []]

/-- The stages of an application to the file. -/
def knowingApplication (d : Disk) : Application knowingFile d :=
  .ofWalks 1 "TextureOverrideRaidenBlend".toList knowingRaiden blendBodies [] [] [knowingPart]

/-- The id stands in the blend override. -/
theorem hasId_knowing : (knowingApplication .empty).built.HasId .hash "111".toList := by
  have he : ("TextureOverrideRaidenBlend".toList, [.content [("hash".toList, "111".toList)]]) ∈
      ((knowingApplication .empty).built.graph .blend).reached := List.mem_singleton_self _
  exact ⟨.blend, _, he, _, List.mem_singleton_self _, by decide⟩

/-- Every id that the character knows has a replacement for its own variant. -/
theorem supports_knowing (occurs : Asset.Kind → Text → Prop) :
    knowingRaiden.Supports occurs "RaidenBoss".toList := by
  constructor
  · intro kind id _ hknows
    cases kind with
    | hash =>
      obtain rfl : "111".toList = id := by
        simpa [knowingRaiden, Character.knows, Character.table, Table.has, Table.get?] using hknows
      exact ⟨"222".toList, by decide⟩
    | index =>
      simp [knowingRaiden, Character.knows, Character.table, Table.has, Table.get?] at hknows
  · intro _
    decide

/-- Of the two variants that are asked for, the one is chosen that the id has a replacement for. -/
theorem toFix_buildGraphs_knowing :
    "RaidenBoss".toList ∈ (knowingApplication .empty).built.toFix ∧
      "Other".toList ∉ (knowingApplication .empty).built.toFix := by
  obtain ⟨hchosen, -, -⟩ := toFix_buildGraphs (c := knowingRaiden) reachable_knowingFile
    (knowingApplication .empty).building.buildGraphs_eq rfl
  have hrequested : "RaidenBoss".toList ∈ knowingFile.requested := by decide
  have hmem := hchosen ⟨_, hrequested, supports_knowing _⟩
  constructor
  · exact (hmem _).2 ⟨hrequested, supports_knowing _⟩
  · intro h
    obtain ⟨-, hsupports⟩ := (hmem _).1 h
    obtain ⟨new, hnew⟩ := hsupports.replaces .hash _ hasId_knowing (by decide)
    have hfault : knowingRaiden.replace .hash "111".toList "Other".toList =
        .error (.unmapped "111".toList "Other".toList) := by decide
    rw [hfault] at hnew
    cases hnew

end ModFile

end Reskin
