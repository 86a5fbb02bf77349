import Reskin.Proofs.ModFile.Building
import Reskin.Proofs.Remap.References

/-!
# The files that generated resources load

The paths in the tables of buffer files come from the same places as the sections that are generated
from them: the parts of a section are counted alike when its files are collected, when its entries
are laid out and when they are read again. So a generated resource loads, part by part, the file
that the table has for it, and no path is made up on the way.

Resources have no ids. What is generated for them is the same for any character and for none, so
nothing need be known about the ids that a character puts in place of others.

## Main definitions

* `ModFile.pathsFor`: the files of a variant, resource by resource, as the tables have them
* `ModFile.LoadsItsFiles`: the resources that are generated for a variant load these files

## Main results

* `Remap.Sources.sections_resources`: resources are the same for every character
* `Remap.Sources.filenames_sectionsIn`: the files that generated resources load, as they are read
* `ModFile.Building.get?_buffers`, `ModFile.Building.fixedPath?_eq`: the tables of a building
* `ModFile.Building.loadsItsFiles`: the resources of a building load the files of the tables
-/

namespace Reskin

open Ini (Body Document Key)
open Remap (Laid Sources layout sectionsIn)

namespace Remap.Sources

/-! ## Resources and characters -/

/-- The assignments of a resource ask for no id. -/
theorem assignments_resources (s : Sources) (o : Option Character) (place : Place)
    (ps : Ini.Pairs) :
    Sources.assignments { s with character := o } .resources place ps =
      s.assignments .resources place ps := by
  induction ps with
  | nil => rfl
  | cons p ps ih =>
    have hfirst : Sources.assignment { s with character := o } .resources place p.1 p.2 =
        s.assignment .resources place p.1 p.2 := rfl
    simp only [assignments, hfirst, ih]

/-- **Resources are the same for every character**, and without one. -/
theorem sections_resources (s : Sources) (o : Option Character) (v : Text) :
    Sources.sections { s with character := o } .resources v = s.sections .resources v := by
  have hwrite : Sources.write { s with character := o } .resources = s.write .resources := by
    funext place ps
    rw [write, write, assignments_resources]
  have htext : Sources.sectionText { s with character := o } .resources v =
      s.sectionText .resources v := by
    funext e
    rw [sectionText, sectionText, hwrite]
    rfl
  rw [sections, sections, htext]
  rfl

/-! ## What is read again -/

/-- **The files that generated resources load**, as they are read: those that take the place of the
files of the old ones, in the same order. -/
theorem filenames_sectionsIn {s : Sources} {variants : List Text} {t : Text}
    (hbuilt : ∀ part, (s.graph part).Built (Document.plain t).bodies)
    (hkeep : s.KeepsLines variants) {v : Text} (hv : v ∈ variants) (halnum : v.Alphanumeric)
    (hfile : ∀ e ∈ s.resources.reached, ∀ p : Place, p.variant = v → p.source = e.1 →
      ∀ path, (p.index, path) ∈ e.2.placed .filename → s.newFile p path = Naming.bufferFile path v)
    {ts : List Text} (h : s.sections .resources v = .ok ts) :
    (sectionsIn ts).flatMap (·.body.valuesOf .filename) =
      s.resources.reached.flatMap fun e =>
        (e.2.valuesOf .filename).map (Naming.bufferFile · v) := by
  have hread := (List.forall₂_and_left _ _).2 ⟨fun e (he : e ∈ s.resources.reached) => he,
    forall₂_sectionsIn_of_sections hbuilt hkeep hv h⟩
  rw [List.flatMap_def, List.flatMap_def]
  refine congrArg List.flatten (map_eq_map_of_forall₂ hread fun e x ⟨he, hx⟩ => ?_)
  obtain ⟨ls, hls⟩ := Document.exists_eq_ofLines ((hbuilt .resources).declared e he)
  have hvalues := valuesOf_filename_of_readAs hx
    (fun ps hps => Body.keys_of_mem_ofLines (hls ▸ hps)) fun p hp hs path hpath =>
      hfile e he p hp hs path hpath
  rw [Body.valuesOf_dense] at hvalues
  rw [hvalues, Copy.files, List.map_map]
  exact List.map_congr_left fun path _ => Naming.trim_bufferFile halnum path

end Remap.Sources

namespace ModFile

/-! ## Tables -/

/-- **The files of a variant**, as the tables have them: resource by resource in the order of the
walk, and by their places; `none` where a table is missing or has no file. -/
def pathsFor (f : ModFile) (variant : Text) : List (Option Text) :=
  f.resources.order.flatMap fun n =>
    match f.buffers.get? n with
    | some b => b.pathsFor variant
    | none => [none]

/-- **The resources that are generated for a variant load the files of the tables.** Places grow
within a table. The sections can be generated, each is read as one section, and the files that are
read are those of the tables. Wherever a file is asked for on the way, there is one. -/
structure LoadsItsFiles (f : ModFile) (c : Character) (variant : Text) : Prop where
  places : ∀ e ∈ f.buffers, e.2.rows.Pairwise fun r s => r.place < s.place
  read : ∃ texts, (f.sources c).sections .resources variant = .ok texts ∧
    (∀ t ∈ texts, ∃ x, (Document.plain t).sections = [x]) ∧
    ((sectionsIn texts).flatMap (·.body.valuesOf .filename)).map some = f.pathsFor variant
  found : ∀ e ∈ f.resources.reached, ∀ p ps,
    Laid.content p ps ∈ layout variant (f.resources.nameFor e.1 variant) e.1 e.2 →
    ∀ k path, (k, path) ∈ ps → Key.ofText? k = some .filename →
      ((f.buffers.get? p.source).bind (·.fixedPath? p.index p.variant)).isSome = true

namespace Building

variable {f : ModFile} {d : Disk} (b : Building f d)

/-- The table of a resource is made from its body. -/
theorem get?_buffers {e : Text × Body} (he : e ∈ b.built.resources.reached) :
    b.built.buffers.get? e.1 = some (Buffers.ofBody b.built.folder e.2 b.built.toFix.toList
      Naming.bufferFile) := by
  obtain ⟨g, hbuild, hg⟩ := b.exists_graph .resources
  have hdeclared : ∀ e ∈ b.built.resources.reached, b.document.bodies.get? e.1 = some e.2 := by
    rw [show b.built.resources = g.ensureNames b.built.toFix.toList from hg]
    exact (CallGraph.build_spec hbuild).1.declared
  obtain ⟨e', hfind⟩ : ∃ e', b.built.resources.reached.find? (·.1 == e.1) = some e' :=
    Option.isSome_iff_exists.1 (List.find?_isSome.2 ⟨e, he, beq_self_eq_true e.1⟩)
  have hname : e'.1 = e.1 := by simpa using List.find?_some hfind
  have hbody : e'.2 = e.2 := by
    have hget := hdeclared e' (List.mem_of_find?_eq_some hfind)
    rw [hname, hdeclared e he] at hget
    exact (Option.some.inj hget).symm
  rw [b.buffers_built, Table.get?, List.find?_map]
  show Option.map _ (Option.map _ (b.built.resources.reached.find? (·.1 == e.1))) = _
  rw [hfind, Option.map_some, Option.map_some, hbody]

/-- **A file of a variant** stands in the table, in the place of the one that the section names. -/
theorem fixedPath?_eq {e : Text × Body} (he : e ∈ b.built.resources.reached) {i : Nat}
    {path v : Text} (hpath : (i, path) ∈ e.2.placed .filename) (hv : v ∈ b.built.toFix.toList) :
    (b.built.buffers.get? e.1).bind (·.fixedPath? i v) = some (Naming.bufferFile path v) := by
  rw [b.get?_buffers he, Option.bind_some, Buffers.fixedPath?_ofBody hpath hv]

/-- The files that the resources name, in the order of the walk. -/
theorem pathsFor_eq {v : Text} (hv : v ∈ b.built.toFix.toList) : b.built.pathsFor v =
    (b.built.resources.valuesOf .filename).map fun path => some (Naming.bufferFile path v) := by
  rw [pathsFor, CallGraph.order, Table.names, List.flatMap_map, CallGraph.valuesOf, List.map_flatMap]
  refine List.flatMap_congr fun e he => ?_
  rw [b.get?_buffers he]
  exact Buffers.pathsFor_ofBody hv

/-- **No path is made up**: wherever a generated resource asks for the file of a part, the table has
one. -/
theorem isSome_fixedPath? (hf : f.IsCurrent) {e : Text × Body}
    (he : e ∈ b.built.resources.reached) {v name : Text} (hv : v ∈ b.built.toFix.toList)
    {p : Remap.Place} {ps : Ini.Pairs} (hp : Laid.content p ps ∈ layout v name e.1 e.2)
    {k path : Text} (hm : (k, path) ∈ ps) (hk : Key.ofText? k = some .filename) :
    ((b.built.buffers.get? p.source).bind (·.fixedPath? p.index p.variant)).isSome = true := by
  obtain ⟨ls, hls⟩ := Document.exists_eq_ofLines ((b.built_graph hf .resources).declared e he)
  rcases Sources.of_mem_layoutFrom hp with ⟨line, -, hline⟩ | ⟨p', ps', hpart, hvar, hsource, hlaid⟩
  · cases hline
  obtain ⟨rfl, rfl⟩ := Laid.content.inj hlaid
  have hcontent : .content ps ∈ e.2 := (Body.mem_partsFrom 0).1 ⟨p.index, hpart⟩
  obtain ⟨hdistinct, htrim⟩ := Body.keys_of_mem_ofLines (hls ▸ hcontent)
  have hcase : Text.eqCaseless k Key.filename.text = true := by
    have hmeans := Key.eqCaseless_of_ofText? hk
    rwa [htrim _ hm, Ini.Pairs.eqCaseless_comm] at hmeans
  have hplaced : (p.index, path) ∈ e.2.placed .filename := by
    have hvalue : ps.value? .filename = some path := hdistinct.get?_of_mem hm hcase
    exact List.mem_filterMap.2 ⟨(p.index, ps), hpart, by simp [hvalue]⟩
  rw [hsource, hvar, b.fixedPath?_eq he hplaced hv]
  rfl

section Current

variable (hf : f.IsCurrent)
  (hplain : ∀ c, b.read.availableCharacter = some c → c.HasPlainVariants)

include hf hplain

/-- **The resources of a building** load the files of the tables, for every variant. -/
theorem loadsItsFiles (c : Character) {v : Text} (hv : v ∈ b.built.toFix.toList) :
    b.built.LoadsItsFiles c v := by
  have hnames (part : Remap.Part) : ((b.built.sources c).graph part).NamesByStyle := by
    rw [graph_sources]
    exact b.namesByStyle_graph part
  obtain ⟨texts, htexts⟩ := Sources.exists_sections hnames (by simp [sources]) .resources v
  have hnone := (Sources.sections_resources (b.built.sources c) none v).trans htexts
  have hgraph (part : Remap.Part) :
      Sources.graph { b.built.sources c with character := none } part = b.built.graph part := by
    cases part <;> rfl
  have hbuilt (part : Remap.Part) :
      (Sources.graph { b.built.sources c with character := none } part).Built
        (Document.plain b.read.text).bodies := by
    rw [hgraph]
    exact b.built_graph hf part
  have hkeep : Sources.KeepsLines { b.built.sources c with character := none }
      b.built.toFix.toList := by
    refine Sources.keepsLines_of_files (fun part => ?_)
      (fun w hw => (b.alphanumeric_of_mem_toFix hplain hw).newline_not_mem) (fun _ hc => by cases hc)
      fun _ _ _ _ h => b.newline_not_mem_of_buffers hf hplain h
    rw [hgraph]
    exact b.namesByStyle_graph part
  refine ⟨fun e he => ?_, ⟨texts, htexts, fun t ht => ?_, ?_⟩, fun e he p ps hp k path hm hk =>
    b.isSome_fixedPath? hf he hv hp hm hk⟩
  · rw [b.buffers_built] at he
    obtain ⟨e', -, rfl⟩ := List.mem_map.1 he
    exact Buffers.pairwise_rows_ofBody
  · exact Sources.exists_section_of_mem hbuilt hkeep hv hnone ht
  · rw [Sources.filenames_sectionsIn hbuilt hkeep hv (b.alphanumeric_of_mem_toFix hplain hv) ?_
      hnone, b.pathsFor_eq hv, CallGraph.valuesOf, List.map_flatMap, List.map_flatMap]
    · exact List.flatMap_congr fun e _ => by rw [List.map_map]; rfl
    · intro e he p hvar hsource path hpath
      have hfixed := b.fixedPath?_eq he hpath hv
      rw [Sources.newFile, hsource, hvar]
      show (((b.built.buffers.get? e.1).bind (·.fixedPath? p.index v)).getD _) = _
      rw [hfixed, Option.getD_some]

end Current

end Building

end ModFile

end Reskin
