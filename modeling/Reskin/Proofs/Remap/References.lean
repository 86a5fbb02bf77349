import Reskin.Proofs.Remap.Reread

/-!
# References of generated sections

A generated section runs sections of its own kind, and one that overrides blend weights loads
resources. The graphs are closed under calls, and a section that is generated is named in its header
as in the assignments that refer to it. So whatever a generated section refers to is generated too,
but for resources that no graph holds.

## Main definitions

* `Remap.sectionsIn`: the sections that some texts are read as
* `Remap.Linked`: texts whose references lead to one another

## Main results

* `Remap.Sources.exists_section`: a generated section is read as one section
* `Remap.Sources.linked`: the references of the sections that are generated for a variant
-/

namespace Reskin.Remap

open Ini (Body Document Section)

/-- The sections that some texts are read as, each text by itself. -/
def sectionsIn (texts : List Text) : List Section :=
  texts.flatMap fun t => (Document.plain t).sections

/-- **Texts whose references lead to one another.** Each is read as one section. What a section runs
is read from a text of its kind; what an override of blend weights loads is read from the text of a
resource, or is free. -/
structure Linked (texts : Part → List Text) (free : Text → Prop) : Prop where
  single : ∀ part, ∀ t ∈ texts part, ∃ x, (Document.plain t).sections = [x]
  runs : ∀ part, ∀ x ∈ sectionsIn (texts part), ∀ n ∈ x.body.callees,
    n ∈ (sectionsIn (texts part)).map (·.name)
  loads : ∀ x ∈ sectionsIn (texts .blend), ∀ n ∈ x.body.valuesOf .vb1,
    n ∈ (sectionsIn (texts .resources)).map (·.name) ∨ free n

namespace Sources

variable {s : Sources} {variants : List Text} {t : Text}
  (hbuilt : ∀ part, (s.graph part).Built (Document.plain t).bodies)
  (hkeep : s.KeepsLines variants) {v : Text} (hv : v ∈ variants)

include hbuilt hkeep hv

/-- **A generated section** is read as one section. -/
theorem exists_section {part : Part} {e : Text × Body} (he : e ∈ (s.graph part).reached) {u : Text}
    (h : s.sectionText part v e = .ok u) : ∃ x, (Document.plain u).sections = [x] ∧
      s.ReadAs ⟨part, v, e.1, e.2⟩ (x.name, x.body.dense) := by
  obtain ⟨ls, rfl, hls, -, hread⟩ := reads_sectionText hbuilt hkeep hv he h
  obtain ⟨r, rs, hr, hnil, hreadings⟩ := List.forall₂_cons_left_iff.1 hread
  obtain rfl := List.forall₂_nil_left_iff.1 hnil
  obtain ⟨x, hx, rfl⟩ := Document.exists_section [] none
    ((Ini.readings_map_ending .lf ls).trans hreadings)
  refine ⟨x, ?_, hr⟩
  rw [Document.plain, Document.ofText, Text.lines_unlines hls]
  exact hx

/-- **The sections that are read** from the texts of one kind are those that are generated, one by
one. -/
theorem forall₂_sectionsIn_of_sections {part : Part} {ts : List Text}
    (h : s.sections part v = .ok ts) : List.Forall₂
      (fun e x => s.ReadAs ⟨part, v, e.1, e.2⟩ (x.name, x.body.dense)) (s.graph part).reached
      (sectionsIn ts) := by
  have hcollect := (List.forall₂_and_left _ _).2
    ⟨fun e (he : e ∈ (s.graph part).reached) => he, forall₂_of_collect h⟩
  have hflat : List.Forall₂ (fun e x => s.ReadAs ⟨part, v, e.1, e.2⟩ (x.name, x.body.dense))
      ((s.graph part).reached.flatMap fun e => [e]) (sectionsIn ts) := by
    refine List.rel_flatMap hcollect fun e u ⟨he, hu⟩ => ?_
    obtain ⟨x, hx, hread⟩ := exists_section hbuilt hkeep hv he hu
    rw [hx]
    exact .cons hread .nil
  rwa [List.flatMap_singleton'] at hflat

/-- Each of these texts is read as one section. -/
theorem exists_section_of_mem {part : Part} {ts : List Text} (h : s.sections part v = .ok ts)
    {u : Text} (hu : u ∈ ts) : ∃ x, (Document.plain u).sections = [x] := by
  obtain ⟨e, he, hcollect⟩ := exists_of_mem_forall₂ (forall₂_of_collect h) hu
  obtain ⟨x, hx, -⟩ := exists_section hbuilt hkeep hv he hcollect
  exact ⟨x, hx⟩

section Texts

variable {texts : Part → List Text} (htexts : ∀ part, s.sections part v = .ok (texts part))

include htexts

theorem forall₂_sectionsIn (part : Part) : List.Forall₂
    (fun e x => s.ReadAs ⟨part, v, e.1, e.2⟩ (x.name, x.body.dense)) (s.graph part).reached
    (sectionsIn (texts part)) :=
  forall₂_sectionsIn_of_sections hbuilt hkeep hv (htexts part)

/-- The names that are read are those that are generated. -/
theorem map_name_sectionsIn (part : Part) : (sectionsIn (texts part)).map (·.name) =
    (s.graph part).order.map fun n => Text.trim ((s.graph part).nameFor n v) := by
  rw [CallGraph.order, Table.names, List.map_map]
  exact map_eq_map_of_forall₂ (forall₂_sectionsIn hbuilt hkeep hv htexts part) fun _ _ hread =>
    hread.1

/-- A section of a graph has a generated section with its name. -/
theorem mem_map_name_sectionsIn {part : Part} {n : Text} (h : (s.graph part).has n = true) :
    Text.trim ((s.graph part).nameFor n v) ∈ (sectionsIn (texts part)).map (·.name) := by
  rw [map_name_sectionsIn hbuilt hkeep hv htexts]
  obtain ⟨b, hb⟩ := Table.has_iff.1 h
  exact List.mem_map.2 ⟨n, List.mem_map.2 ⟨_, hb, rfl⟩, rfl⟩

/-- **The references of the sections that are generated for a variant.** A resource that is loaded
and is not generated is one that an override of blend weights loaded before. -/
theorem linked : Linked texts fun n => n ∈ s.blend.valuesOf .vb1 ∧ s.resources.has n = false := by
  have origin {part : Part} {x : Section} (hx : x ∈ sectionsIn (texts part)) :
      ∃ e ∈ (s.graph part).reached, s.ReadAs ⟨part, v, e.1, e.2⟩ (x.name, x.body.dense) ∧
        ∃ ls, e.2 = Body.ofLines ls := by
    obtain ⟨e, he, hread⟩ :=
      exists_of_mem_forall₂ (forall₂_sectionsIn hbuilt hkeep hv htexts part) hx
    exact ⟨e, he, hread, Document.exists_eq_ofLines ((hbuilt part).declared e he)⟩
  constructor
  · exact fun part u hu => exists_section_of_mem hbuilt hkeep hv (htexts part) hu
  · intro part x hx n hn
    obtain ⟨e, he, hread, ls, hls⟩ := origin hx
    have hvalues := valuesOf_run_of_readAs hread fun ps hps =>
      Body.keys_of_mem_ofLines (hls ▸ hps)
    rw [Body.valuesOf_dense] at hvalues
    have hrun : n ∈ x.body.valuesOf .run := hn
    rw [hvalues] at hrun
    obtain ⟨m, hm, rfl⟩ := List.mem_map.1 hrun
    exact mem_map_name_sectionsIn hbuilt hkeep hv htexts ((hbuilt part).closed e he m hm)
  · intro x hx n hn
    obtain ⟨e, he, hread, ls, hls⟩ := origin hx
    have hvalues := valuesOf_vb1_of_readAs hread fun ps hps =>
      Body.keys_of_mem_ofLines (hls ▸ hps)
    rw [Body.valuesOf_dense, Copy.loads, List.map_map] at hvalues
    rw [hvalues] at hn
    obtain ⟨m, hm, rfl⟩ := List.mem_map.1 hn
    dsimp only [Function.comp_apply]
    by_cases hhas : s.resources.has m = true
    · have hgraph : (s.graph .resources).has m = true := hhas
      rw [if_pos hhas]
      exact .inl (mem_map_name_sectionsIn hbuilt hkeep hv htexts hgraph)
    · have hm' : m ∈ e.2.valuesOf .vb1 := hm
      rw [if_neg hhas, Body.trim_of_mem_valuesOf (hls ▸ hm')]
      exact .inr ⟨List.mem_flatMap.2 ⟨e, he, hm⟩, Bool.eq_false_iff.2 hhas⟩

end Texts

end Sources

end Reskin.Remap
