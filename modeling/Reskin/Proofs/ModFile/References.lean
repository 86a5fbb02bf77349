import Reskin.Proofs.ModFile.Recorded
import Reskin.Proofs.ModFile.Sections
import Reskin.Proofs.Remap.References

/-!
# The references of a block

What a generated section refers to is generated for the same variant. Only a resource that an
override of blend weights loads and that is not managed keeps its name.

## Main results

* `ModFile.Building.map_name_sectionsIn`: the names of the sections that are generated for a variant
* `ModFile.references_fixText`: the references of generated sections
-/

namespace Reskin.ModFile

open Ini (Document)
open Remap (Linked Part Sources sectionsIn)

namespace Building

variable {f : ModFile} {d : Disk} (b : Building f d)

/-- A resource that is loaded and not generated is not managed. -/
theorem occursIn_managed_eq_false {n : Text} (hn : n ∈ b.built.blend.valuesOf .vb1)
    (hhas : b.built.resources.has n = false) : b.read.managed.occursIn n = false := by
  rw [Bool.eq_false_iff]
  intro hmanaged
  have hroot : n ∈ b.roots .resources :=
    ((Naming.inOrder_sortResources _).mem_iff n).2 (List.mem_filter.2 ⟨hn, hmanaged⟩)
  have hreached : b.built.resources.has n = true := b.has_of_mem_roots hroot
  simp [hhas] at hreached

variable {b} {c : Character} {block : Text} (hmakes : b.Makes c block)

include hmakes

/-- The names of the sections that are generated for a variant, as they are read. -/
theorem map_name_sectionsIn {v : Text} (hv : v ∈ b.built.toFix.toList) {texts : Part → List Text}
    (htexts : ∀ part, (b.built.sources c).sections part v = .ok (texts part)) (part : Part) :
    (sectionsIn (texts part)).map (·.name) =
      (b.built.graph part).order.map fun n => part.style.rename n v := by
  rw [Sources.map_name_sectionsIn hmakes.isBuilt hmakes.keepsLines hv htexts, graph_sources]
  refine List.map_congr_left fun n hn => ?_
  rw [b.namesByStyle_graph part, b.style_built, hmakes.style]
  obtain ⟨e, he, rfl⟩ := List.mem_map.1 hn
  have hget := (hmakes.isBuilt part).declared e (graph_sources b.built c part ▸ he)
  exact NameStyle.trim_rename (hmakes.alphanumeric v hv) (Document.trim_name hget) _

end Building

/-- **The references of generated sections.** For every variant, each section that is generated is
read as one section, under the name for the variant. What it runs is the name of a section generated
from the same graph; what an override of blend weights loads is the name of a generated resource, or
a resource that was loaded before and is not managed. -/
theorem references_fixText {f f' : ModFile} {d : Disk} (hf : Reachable f)
    (hplain : ∀ c, f.MayBelongTo c → c.HasPlainVariants)
    (hids : ∀ c, f.MayBelongTo c → c.HasLineIds) {doc : Document} {root text : Text}
    (hdoc : f.parsed = some doc) (hroot : doc.root = some root)
    (h : f.fixText d = (.ok text, f')) :
    ∃ c, f.availableCharacter = some c ∧ ∀ v ∈ f'.toFix.toList, ∃ texts : Part → List Text,
      (∀ part, (f'.sources c).sections part v = .ok (texts part)) ∧
      (∀ part, (sectionsIn (texts part)).map (·.name) =
        (f'.graph part).order.map fun n => part.style.rename n v) ∧
      Linked texts fun n => n ∈ valuesAmong doc.bodies .vb1 f'.blend.order ∧
        f.managed.occursIn n = false := by
  obtain ⟨b, c, hread, rfl, rfl, -, hmakes⟩ := exists_makes_of_fixText hf hplain hids hdoc hroot h
  refine ⟨c, hread ▸ hmakes.available, fun v hv => ?_⟩
  obtain ⟨texts, htexts⟩ := Sources.exists_sections_of_block hmakes.block_eq hv
  refine ⟨texts, htexts, Building.map_name_sectionsIn hmakes hv htexts, ?_⟩
  obtain ⟨hsingle, hruns, hloads⟩ := Sources.linked hmakes.isBuilt hmakes.keepsLines hv htexts
  refine ⟨hsingle, hruns, fun x hx n hn => (hloads x hx n hn).imp_right ?_⟩
  rintro ⟨hvalue, hhas⟩
  have hvalue : n ∈ b.built.blend.valuesOf .vb1 := hvalue
  constructor
  · obtain ⟨g, hbuild, hg⟩ := b.exists_graph .blend
    have hbuilt : b.built.blend.Built b.document.bodies := by
      rw [show b.built.blend = g.ensureNames b.built.toFix.toList from hg]
      exact ⟨(CallGraph.build_spec hbuild).1.declared, (CallGraph.build_spec hbuild).1.closed⟩
    rwa [valuesOf_eq_valuesAmong hbuilt] at hvalue
  · rw [← hread]
    exact b.occursIn_managed_eq_false hvalue hhas

/-- The references of what is generated for an override, the resource it loads, and the resource
that this one runs. -/
theorem references_fixText_chain : ∃ texts : Part → List Text,
    (sectionsIn (texts .resources)).map (·.name) =
      ["ResourceRaidenRaidenBossRemapBlend".toList, "ResourceExtraRaidenBossRemapBlend".toList] ∧
    (∀ x ∈ sectionsIn (texts .resources), ∀ n ∈ x.body.callees,
      n ∈ (sectionsIn (texts .resources)).map (·.name)) ∧
    ∀ x ∈ sectionsIn (texts .blend), ∀ n ∈ x.body.valuesOf .vb1,
      n ∈ (sectionsIn (texts .resources)).map (·.name) := by
  obtain ⟨hread, hplain⟩ := (chainApplication .empty).reachable_read
  obtain ⟨c, -, hall⟩ := references_fixText hread
    (fun c hc => (hplain c hc).hasPlainVariants) (fun c hc => (hplain c hc).hasLineIds)
    (chainApplication .empty).parsed_eq (chainApplication .empty).root_eq
    (chainApplication .empty).fixText_eq
  have hv : "RaidenBoss".toList ∈ (chainApplication .empty).built.toFix.toList := by decide +kernel
  obtain ⟨texts, -, hnames, -, hruns, hloads⟩ := hall _ hv
  refine ⟨texts, ?_, hruns .resources, fun x hx n hn => ?_⟩
  · rw [hnames]
    decide +kernel
  · rcases hloads x hx n hn with h | ⟨hvalue, hmanaged⟩
    · exact h
    · have hall : ∀ m ∈ valuesAmong (chainApplication .empty).document.bodies .vb1
          (chainApplication .empty).built.blend.order,
          (chainApplication .empty).read.managed.occursIn m = true := by decide +kernel
      simp [hall n hvalue] at hmanaged

end Reskin.ModFile
