import Reskin.Proofs.CallGraph.Preorder
import Reskin.Proofs.ModFile.Readings
import Reskin.Proofs.Naming.Resources

/-!
# The sections of a block

Which sections are generated, and in which order, is decided by the document, its root and the
character: what the root reaches, then what the other sections with known ids reach, then what the
managed resources of the first ones reach. A block has the headers of the sections that are
generated for these, variant by variant, and no other headers.

## Main definitions

* `ModFile.Selection`: the sections that others are generated for, in order

## Main results

* `ModFile.Selection.unique`: there is one selection
* `ModFile.Building.selection`: the sections that graphs hold
* `ModFile.headers_fixText`: the headers of a block
-/

namespace Reskin.ModFile

open CallGraph (Preorder)
open Ini (Bodies Document)
open Naming (InOrder blendName fixName resourceName)
open Remap (Part Sources headerOf)

/-! ## Selection -/

/-- The values of a key in the sections of some names, in order. -/
def valuesAmong (bodies : Bodies) (key : Ini.Key) (names : List Text) : List Text :=
  names.flatMap fun n => ((bodies.get? n).map (·.valuesOf key)).getD []

/-- **The sections that others are generated for**, kind by kind. -/
structure Selection (f : ModFile) (doc : Document) (root : Text) (c : Character)
    (names : Part → List Text) : Prop where
  /-- What the root reaches. -/
  blend : Preorder doc.bodies [root] (names .blend)
  /-- What the sections outside of these with a known id reach, in the order of the file. -/
  others : Preorder doc.bodies
    ((doc.sections.filter fun s => s.name ∉ names .blend ∧ hasKnownId c s.body).map (·.name))
    (names .others)
  /-- What the managed ones among the resources that the first sections load reach, in the order of
  resources. -/
  resources : ∃ roots,
    InOrder ((valuesAmong doc.bodies .vb1 (names .blend)).filter f.managed.occursIn) roots ∧
      Preorder doc.bodies roots (names .resources)

/-- A file, a document, a root and a character have one selection. -/
theorem Selection.unique {f : ModFile} {doc : Document} {root : Text} {c : Character}
    {names names' : Part → List Text} (h : Selection f doc root c names)
    (h' : Selection f doc root c names') : names = names' := by
  have hblend : names .blend = names' .blend := h.blend.unique h'.blend
  obtain ⟨roots, hroots, hresources⟩ := h.resources
  obtain ⟨roots', hroots', hresources'⟩ := h'.resources
  rw [← hblend] at hroots'
  obtain rfl := hroots.unique hroots'
  have hothers := h'.others
  rw [← hblend] at hothers
  funext part
  cases part with
  | blend => exact hblend
  | others => exact h.others.unique hothers
  | resources => exact hresources.unique hresources'

theorem mem_order_iff {g : CallGraph} {n : Text} : n ∈ g.order ↔ g.has n = true :=
  Table.has_iff_mem_names.symm

/-- The values of a key in a graph are those in the sections it holds. -/
theorem valuesOf_eq_valuesAmong {bodies : Bodies} {g : CallGraph} (h : g.Built bodies)
    (key : Ini.Key) : g.valuesOf key = valuesAmong bodies key g.order := by
  rw [CallGraph.valuesOf, valuesAmong, CallGraph.order, Table.names, List.flatMap_map]
  refine List.flatMap_congr fun e he => ?_
  rw [h.declared e he]
  rfl

namespace Building

variable {f : ModFile} {d : Disk} (b : Building f d)

/-- The order of each graph is that of a search through its roots. -/
theorem preorder_graph (part : Part) :
    Preorder b.document.bodies (b.roots part) (b.built.graph part).order := by
  obtain ⟨g, hbuild, hg⟩ := b.exists_graph part
  have horder : (b.built.graph part).order = g.order := by
    rw [hg]
    rfl
  rw [horder]
  exact CallGraph.preorder_of_build hbuild

/-- **The sections that the graphs hold** are those that others are generated for. -/
theorem selection {c : Character} (hc : b.read.availableCharacter = some c) :
    Selection b.read b.document b.root c fun part => (b.built.graph part).order := by
  constructor
  · exact b.preorder_graph .blend
  · have hroots : b.roots .others = (b.document.sections.filter fun s =>
        s.name ∉ b.built.blend.order ∧ hasKnownId c s.body).map (·.name) := by
      show otherRoots b.read.availableCharacter b.built.blend b.document = _
      rw [hc, otherRoots]
      congr 2
      funext s
      simp [mem_order_iff]
    exact hroots ▸ b.preorder_graph .others
  · refine ⟨b.roots .resources, ?_, b.preorder_graph .resources⟩
    obtain ⟨g, hbuild, hg⟩ := b.exists_graph .blend
    have hvalues : b.built.blend.valuesOf .vb1 =
        valuesAmong b.document.bodies .vb1 b.built.blend.order := by
      rw [show b.built.blend = g.ensureNames b.built.toFix.toList from hg]
      exact valuesOf_eq_valuesAmong (CallGraph.build_spec hbuild).1 .vb1
    show InOrder _ (resourceRoots b.read.managed b.built.blend)
    rw [resourceRoots, hvalues]
    exact Naming.inOrder_sortResources _

/-- The headers of the sections generated from one graph. -/
theorem map_headers (c : Character) (part : Part) (v : Text) :
    ((b.built.sources c).headers part v).map (· ++ ['\n']) = (b.built.graph part).order.map
      fun n => headerOf ((b.read.graph part).style.rename n v) := by
  have hline (n : Text) : (b.built.sources c).headerLine part n v ++ ['\n'] =
      headerOf ((b.read.graph part).style.rename n v) := by
    rw [Sources.headerLine, graph_sources, b.namesByStyle_graph part, b.style_built]
    simp [headerOf]
  rw [Sources.headers, graph_sources, CallGraph.order, Table.names, List.map_flatMap, List.map_map,
    List.map_eq_flatMap]
  refine List.flatMap_congr fun e _ => ?_
  rw [List.map_singleton, hline]
  rfl

end Building

/-! ## Headers -/

/-- **The headers of a block**: for every variant in order those of the sections that are generated
for what the root reaches, for what the other sections with known ids reach, and for what the managed
resources reach. -/
theorem headers_fixText {f f' : ModFile} {d : Disk} (hf : Reachable f)
    (hplain : ∀ c, f.MayBelongTo c → c.HasPlainVariants)
    (hids : ∀ c, f.MayBelongTo c → c.HasLineIds) {doc : Document} {root text : Text}
    (hdoc : f.parsed = some doc) (hroot : doc.root = some root)
    (h : f.fixText d = (.ok text, f')) :
    ∃ c names, f.availableCharacter = some c ∧ Selection f doc root c names ∧
      (Text.lines text).filter Ini.Line.isHeader = f'.toFix.toList.flatMap fun v =>
        (names .blend).map (fun n => headerOf (blendName n v)) ++
          (names .others).map (fun n => headerOf (fixName n v)) ++
          (names .resources).map (fun n => headerOf (resourceName n v)) := by
  obtain ⟨b, c, hread, rfl, rfl, rfl, hmakes⟩ := exists_makes_of_fixText hf hplain hids hdoc hroot h
  have hselection := b.selection hmakes.available
  have hc := hmakes.available
  rw [hread] at hselection hc
  refine ⟨c, _, hc, hselection, ?_⟩
  rw [Sources.filter_isHeader_block hmakes.isBuilt hmakes.keepsLines
    (fun v hv => (hmakes.alphanumeric v hv).newline_not_mem) b.isEmpty_blend
    (by simp [Character.title]) hmakes.block_eq, List.map_flatMap]
  refine List.flatMap_congr fun v _ => ?_
  rw [Sources.allHeaders, List.map_append, List.map_append, b.map_headers, b.map_headers,
    b.map_headers, hmakes.style, hmakes.style, hmakes.style]
  rfl

/-- The headers of the block for an override that loads a resource. -/
theorem headers_fixText_weights :
    (Text.lines (weightsApplication .empty).block).filter Ini.Line.isHeader =
      [headerOf "TextureOverrideRaidenRaidenBossRemapBlend".toList,
        headerOf "ResourceRaidenRaidenBossRemapBlend".toList] := by
  obtain ⟨hread, hplain⟩ := (weightsApplication .empty).reachable_read
  obtain ⟨c, names, hc, hselection, hheaders⟩ := headers_fixText hread
    (fun c hc => (hplain c hc).hasPlainVariants) (fun c hc => (hplain c hc).hasLineIds)
    (weightsApplication .empty).parsed_eq (weightsApplication .empty).root_eq
    (weightsApplication .empty).fixText_eq
  obtain rfl := hselection.unique ((weightsApplication .empty).building.selection hc)
  rw [hheaders]
  show ((raidenFile weightsText).withDocument.withWalks [weightsRoot] []
    [weightsResource]).toFix.toList.flatMap _ = _
  decide +kernel

end Reskin.ModFile
