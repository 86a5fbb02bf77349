import Reskin.Proofs.ModFile.Current
import Reskin.Proofs.Remap.Rewriting
import Reskin.Proofs.Variants

/-!
# Building the graphs of a file

Building that succeeds goes through fixed stages: the document is read, its root is found, and three
graphs are built one after the other, each from roots of its own. The graphs remember the names that
their styles give, for variants that the character lists or has in its tables. Of a current file
they hold sections of its text.

## Main definitions

* `ModFile.graph`: the graph of a kind of sections
* `ModFile.Building`, `ModFile.Building.roots`: the stages of a building of graphs, and what each
  graph starts from
* `ModFile.Building.Makes`: a block that a building makes
* `Character.HasPlainVariants`, `Character.HasLineIds`: variants with plain names, and replacements
  of ids that stand on one line

## Main results

* `ModFile.exists_building`: a building that succeeds is its stages
* `ModFile.Building.exists_graph`: the graph of a kind of sections is built from its roots
* `ModFile.Building.alphanumeric_of_mem_toFix`: the variants that are generated
* `ModFile.Building.keepsLines`: what takes the place of a value stands on one line
* `ModFile.exists_makes_of_fixText`: a block that is made, and what it is made from
* `ModFile.hasStyles_of_reachable`: the styles of the graphs of a file
-/

namespace Reskin

open Ini (Document)
open Remap (Part Sources)

/-! ## Variants -/

/-- The variants that a character lists or has in its tables have plain names. -/
structure Character.HasPlainVariants (c : Character) : Prop where
  listed : ∀ v ∈ c.listed, Text.Alphanumeric v
  tables : ∀ kind, ∀ row ∈ c.table kind, ∀ p ∈ row.2, Text.Alphanumeric p.1

theorem Character.IsPlain.hasPlainVariants {c : Character} (hc : c.IsPlain) : c.HasPlainVariants :=
  ⟨hc.listed, fun kind row hr p hp => (hc.entries kind row hr p hp).1⟩

namespace Character.HasPlainVariants

variable {c : Character} (hc : c.HasPlainVariants)

include hc

theorem alphanumeric_of_table {kind : Asset.Kind} {row : Text × Table Text}
    (hr : row ∈ c.table kind) {v : Text} (hv : v ∈ row.2.names) : Text.Alphanumeric v := by
  obtain ⟨p, hp, rfl⟩ := List.mem_map.1 hv
  exact hc.tables kind row hr p hp

/-- Every variant of the character has a plain name. -/
theorem alphanumeric_of_mem_variants {v : Text} (h : v ∈ c.variants) : Text.Alphanumeric v := by
  unfold Character.variants at h
  split at h
  · have table (kind : Asset.Kind) (h : v ∈ (c.table kind).variants) : Text.Alphanumeric v := by
      obtain ⟨row, hr, hv⟩ := List.mem_flatMap.1 (VariantSet.mem_ofList.1 h)
      exact hc.alphanumeric_of_table hr hv
    rcases List.mem_append.1 (VariantSet.mem_ofList.1 h) with h | h
    · exact table .hash h
    · exact table .index h
  · exact hc.listed v (VariantSet.mem_ofList.1 h)

/-- **The variants that are generated** for the character have plain names, whatever variants are
asked for. -/
theorem alphanumeric_of_mem_variantsFor {graphs : List CallGraph} {requested : VariantSet} {v : Text}
    (h : v ∈ ModFile.variantsFor c graphs requested) : Text.Alphanumeric v := by
  rcases ModFile.exists_replaces_of_mem_variantsFor h with h | ⟨kind, id, new, h⟩
  · exact hc.alphanumeric_of_mem_variants h
  · obtain ⟨row, hr, hp⟩ := Character.exists_of_replace h
    exact hc.tables kind row hr _ hp

end Character.HasPlainVariants

/-! ## Ids -/

/-- The replacements in the tables of the character stand on one line. -/
def Character.HasLineIds (c : Character) : Prop :=
  ∀ kind, ∀ row ∈ c.table kind, ∀ p ∈ row.2, '\n' ∉ p.2

theorem Character.IsPlain.hasLineIds {c : Character} (hc : c.IsPlain) : c.HasLineIds :=
  fun kind row hr p hp => (hc.entries kind row hr p hp).2.newline_not_mem

/-! ## Documents of current files -/

namespace Ini.Document

theorem mem_of_character_eq {characters : List Character} {assumed : Option Character} {t : Text}
    {c : Character} (h : (ofText characters assumed t).character = some c) : c ∈ characters := by
  have hr : (rootOf characters assumed ((Text.lines t).filter Line.isHeader)).2 = some c := h
  unfold rootOf at hr
  split at hr
  · next header c' hroot =>
    obtain rfl := Option.some.inj hr
    obtain ⟨x, -, hx⟩ := List.exists_of_findSome?_eq_some hroot
    obtain ⟨c'', hf, he⟩ := Option.map_eq_some_iff.1 hx
    obtain rfl : c'' = c' := (Prod.mk.inj he).2
    exact List.mem_of_find?_eq_some hf
  · split at hr <;> simp at hr

end Ini.Document

/-- How the generated names of a kind of sections are made. -/
def Remap.Part.style : Part → NameStyle
  | .blend => .blend
  | .others => .fix
  | .resources => .resource

namespace ModFile

/-- The file may be one of the character. -/
def MayBelongTo (f : ModFile) (c : Character) : Prop := c ∈ f.characters ∨ f.assumed = some c

/-- Reading a current file gives the document of its text. -/
theorem IsCurrent.eq_document {f g : ModFile} {d : Disk} (hf : f.IsCurrent)
    (h : f.ensureParsed d = .ok g) {doc : Document} (hdoc : g.parsed = some doc) :
    doc = g.document := by
  have key (f' : ModFile) (hp : ∀ doc, f'.parsed = some doc → doc = f'.document)
      (hdoc : f'.withDocument.parsed = some doc) : doc = f'.withDocument.document := by
    have hsame : f'.withDocument.document = f'.document := by
      rw [withDocument_eq]
      rfl
    cases hf' : f'.parsed with
    | some doc' =>
      rw [withDocument_of_parsed hf', hf'] at hdoc
      rw [hsame, ← hp doc' hf', Option.some.inj hdoc]
    | none =>
      rw [parsed_withDocument hf'] at hdoc
      rw [hsame, Option.some.inj hdoc]
  obtain ⟨f', hl, rfl⟩ := ensureParsed_eq_ok.1 h
  refine key f' (fun doc' hp => ?_) hdoc
  rcases load_spec hl with ⟨rfl, -⟩ | ⟨-, path, text, -, -, rfl⟩
  · exact (hf doc' hp).2
  · simp [setText] at hp

/-- Reading does not change which characters a file may belong to. -/
theorem mayBelongTo_of_ensureParsed {f g : ModFile} {d : Disk} (h : f.ensureParsed d = .ok g)
    (c : Character) : g.MayBelongTo c ↔ f.MayBelongTo c := by
  obtain ⟨_, _, rfl⟩ := exists_of_ensureParsed h
  rfl

/-! ## Graphs -/

/-- The graph of a kind of sections. -/
def graph (f : ModFile) : Part → CallGraph
  | .blend => f.blend
  | .others => f.others
  | .resources => f.resources

theorem graph_sources (f : ModFile) (c : Character) (part : Part) :
    (f.sources c).graph part = f.graph part := by
  cases part <;> rfl

/-! ## Styles -/

/-- The names of every graph are of the style of its kind. -/
def HasStyles (f : ModFile) : Prop := ∀ part, (f.graph part).style = part.style

/-- The graphs of one file have the styles of those of another one. -/
def SameStyles (f g : ModFile) : Prop := ∀ part, (g.graph part).style = (f.graph part).style

theorem SameStyles.trans {f g k : ModFile} (h : SameStyles f g) (h' : SameStyles g k) :
    SameStyles f k := fun part => (h' part).trans (h part)

theorem sameStyles_withDocument (f : ModFile) : SameStyles f f.withDocument := by
  rw [withDocument_eq]
  rintro (_ | _ | _) <;> rfl

theorem sameStyles_setText (f : ModFile) (text : Text) : SameStyles f (f.setText text) := by
  rintro (_ | _ | _) <;> rfl

theorem sameStyles_ensureParsed {f g : ModFile} {d : Disk} (h : f.ensureParsed d = .ok g) :
    SameStyles f g := by
  obtain ⟨_, _, rfl⟩ := exists_of_ensureParsed h
  rintro (_ | _ | _) <;> rfl

/-- Building graphs keeps their styles, however far it comes. -/
theorem sameStyles_buildFrom (f : ModFile) (doc : Document) (root : Text) :
    SameStyles f (f.buildFrom doc root).2 := by
  have hstyle {g g' : CallGraph} {roots : List Text} {bodies : Ini.Bodies} {missing : Option Text}
      (h : g.build roots bodies = (missing, g')) : g'.style = g.style := by
    rw [CallGraph.build, Prod.mk.injEq] at h
    rw [← h.2]
  obtain ⟨x, hx⟩ : ∃ x, f.buildFrom doc root = x := ⟨_, rfl⟩
  rw [hx]
  cases buildFrom_eq_iff.1 hx with
  | noBlend hb => rintro (_ | _ | _) <;> simp [graph, hstyle hb]
  | noOthers hb ho => rintro (_ | _ | _) <;> simp [graph, hstyle hb, hstyle ho]
  | noResources hb ho hr => rintro (_ | _ | _) <;> simp [graph, hstyle hb, hstyle ho, hstyle hr]
  | all hb ho hr =>
    rintro (_ | _ | _) <;>
      simp [graph, withVariantsChosen, CallGraph.ensureNames, hstyle hb, hstyle ho, hstyle hr]

theorem SameStyles.of_prepares {f g : ModFile} {d : Disk} (h : Prepares d f g) : SameStyles f g := by
  cases h with
  | stay => exact fun _ => rfl
  | read hread => exact sameStyles_ensureParsed hread
  | build doc root hread => exact (sameStyles_ensureParsed hread).trans (sameStyles_buildFrom _ doc root)

theorem SameStyles.of_leaves {f g : ModFile} {d : Disk} (h : Leaves d f g) : SameStyles f g := by
  cases h with
  | prepared hk => exact .of_prepares hk
  | @changed k text hk =>
    exact ((SameStyles.of_prepares hk).trans (sameStyles_setText k text)).trans
      (sameStyles_withDocument _)

/-- **Every operation** keeps the styles, or sets them anew. -/
theorem hasStyles_of_step {f g : ModFile} {d : Disk} (hf : f.HasStyles) (h : Step d f g) :
    g.HasStyles := by
  have keep {k : ModFile} (hk : SameStyles f k) : k.HasStyles := fun part => (hk part).trans (hf part)
  cases h with
  | withCharacters => exact keep (by rintro (_ | _ | _) <;> rfl)
  | withAssumed => exact keep (by rintro (_ | _ | _) <;> rfl)
  | withVariants => exact keep (by rintro (_ | _ | _) <;> rfl)
  | withManaged hg =>
    unfold withManaged at hg
    split at hg
    · obtain rfl := Except.ok.inj hg
      exact keep (by rintro (_ | _ | _) <;> rfl)
    · simp at hg
  | setText text => exact keep (sameStyles_setText f text)
  | read hg =>
    unfold ModFile.read at hg
    split at hg
    · exact Except.ok.inj hg ▸ hf
    · split at hg
      · exact Except.ok.inj hg ▸ keep (sameStyles_setText f _)
      · simp at hg
  | clear => rintro (_ | _ | _) <;> rfl
  | ensureParsed hg => exact keep (sameStyles_ensureParsed hg)
  | isMod => exact keep (.of_prepares (prepares_ask f _ d))
  | isFixed => exact keep (.of_prepares (prepares_ask f _ d))
  | buildGraphs => exact keep (.of_prepares (prepares_buildGraphs f d))
  | fixText => exact keep (.of_prepares (prepares_fixText f d))
  | apply => exact keep (.of_leaves (leaves_apply f d))
  | undo => exact keep (.of_leaves (leaves_undo f d))

/-- **Whatever the operations are**, the names of every graph are of the style of its kind. -/
theorem hasStyles_of_reachable {f : ModFile} (h : Reachable f) : f.HasStyles := by
  induction h with
  | ofText text => rintro (_ | _ | _) <;> rfl
  | ofPath path => rintro (_ | _ | _) <;> rfl
  | step _ hstep ih => exact hasStyles_of_step ih hstep

/-! ## Stages -/

/-- **The stages of a building of graphs** that succeeds. -/
structure Building (f : ModFile) (d : Disk) where
  /-- The file with its document read. -/
  read : ModFile
  document : Document
  root : Text
  /-- The file with its graphs built. -/
  built : ModFile
  ensureParsed_eq : f.ensureParsed d = .ok read
  parsed_eq : read.parsed = some document
  root_eq : document.root = some root
  buildFrom_eq : read.buildFrom document root = (.ok (), built)

/-- **A building that succeeds** is its stages. -/
theorem exists_building {f f' : ModFile} {d : Disk} (h : f.buildGraphs d = (.ok true, f')) :
    ∃ b : Building f d, b.built = f' := by
  unfold buildGraphs at h
  split at h
  · simp at h
  next g hg =>
  split at h
  · simp at h
  next doc hdoc =>
  split at h
  · simp at h
  next root hroot =>
  split at h
  · simp at h
  next k hb =>
  obtain rfl : k = f' := (Prod.mk.inj h).2
  exact ⟨⟨g, doc, root, k, hg, hdoc, hroot, hb⟩, rfl⟩

/-- The file with graphs that reach the given sections. -/
def withWalks (f : ModFile) (blend others resources : Ini.Bodies) : ModFile :=
  { f with
    blend := ⟨f.blend.style, blend, []⟩
    others := ⟨f.others.style, others, []⟩
    resources := ⟨f.resources.style, resources, []⟩ }.withVariantsChosen

/-- Graphs whose walks are known. -/
theorem buildFrom_eq_of_walks {f : ModFile} {doc : Document} {root : Text} {n : Nat}
    {blend others resources : Ini.Bodies}
    (hb : CallGraph.walkWithin doc.bodies n [] [root] = some (none, blend))
    (ho : CallGraph.walkWithin doc.bodies n []
      (otherRoots f.availableCharacter ⟨f.blend.style, blend, []⟩ doc) = some (none, others))
    (hr : CallGraph.walkWithin doc.bodies n []
      (resourceRoots f.managed ⟨f.blend.style, blend, []⟩) = some (none, resources)) :
    f.buildFrom doc root = (.ok (), f.withWalks blend others resources) := by
  have hc (g : CallGraph) : { f with blend := g }.availableCharacter = f.availableCharacter := rfl
  simp only [buildFrom, hc, CallGraph.build_eq_of_walkWithin hb,
    CallGraph.build_eq_of_walkWithin ho, CallGraph.build_eq_of_walkWithin hr]
  rfl

/-- Stages make a building that succeeds. -/
theorem Building.buildGraphs_eq {f : ModFile} {d : Disk} (b : Building f d) :
    f.buildGraphs d = (.ok true, b.built) := by
  unfold buildGraphs
  rw [b.ensureParsed_eq]
  simp only [b.parsed_eq, b.root_eq, b.buildFrom_eq]

/-- The stages of a building whose walks are known, for a file that is not read yet. What the walks
are is evaluated. -/
def Building.ofWalks {f : ModFile} {d : Disk} (n : Nat) (root : Text)
    (blend others resources : Ini.Bodies)
    (hload : f.load d = .ok f := by rfl) (hparsed : f.parsed = none := by rfl)
    (hroot : f.document.root = some root := by decide +kernel)
    (hblend : CallGraph.walkWithin f.document.bodies n [] [root] = some (none, blend) := by
      decide +kernel)
    (hothers : CallGraph.walkWithin f.document.bodies n []
      (otherRoots f.withDocument.availableCharacter ⟨f.withDocument.blend.style, blend, []⟩
        f.document) = some (none, others) := by decide +kernel)
    (hresources : CallGraph.walkWithin f.document.bodies n []
      (resourceRoots f.withDocument.managed ⟨f.withDocument.blend.style, blend, []⟩) =
        some (none, resources) := by decide +kernel) : Building f d where
  read := f.withDocument
  document := f.document
  root := root
  built := f.withDocument.withWalks blend others resources
  ensureParsed_eq := ensureParsed_of_load hload
  parsed_eq := parsed_withDocument hparsed
  root_eq := hroot
  buildFrom_eq := buildFrom_eq_of_walks hblend hothers hresources

/-- A block that is made for a file which is read already: its graphs are built first. -/
theorem exists_character_of_fixText {f f' : ModFile} {d : Disk} {doc : Document} {root text : Text}
    (hread : f.ensureParsed d = .ok f) (hdoc : f.parsed = some doc) (hroot : doc.root = some root)
    (h : f.fixText d = (.ok text, f')) : ∃ c, f.availableCharacter = some c ∧
      f.buildFrom doc root = (.ok (), f') ∧
      (f'.sources c).block f'.toFix.toList (some c.title) = .ok text := by
  unfold fixText at h
  split at h
  · simp at h
  next c hc =>
  rw [buildGraphs_eq hread hdoc, hroot] at h
  rcases hb : f.buildFrom doc root with ⟨fault | _, k⟩
  · simp [hb, Except.map] at h
  · simp only [hb, Except.map] at h
    obtain ⟨hblock, rfl⟩ := Prod.mk.inj h
    exact ⟨c, hc, rfl, hblock⟩

/-- **A block that is made** for a current file is made from a building. -/
theorem exists_building_of_fixText {f f' : ModFile} {d : Disk} {doc : Document} {root text : Text}
    (hf : f.IsCurrent) (hdoc : f.parsed = some doc) (hroot : doc.root = some root)
    (h : f.fixText d = (.ok text, f')) : ∃ (b : Building f d) (c : Character), b.read = f ∧
      b.built = f' ∧ f.availableCharacter = some c ∧
      (f'.sources c).block f'.toFix.toList (some c.title) = .ok text := by
  have hread : f.ensureParsed d = .ok f :=
    ensureParsed_of_parsed (load_of_loaded (hf doc hdoc).1 d) hdoc
  obtain ⟨c, hc, hb, hblock⟩ := exists_character_of_fixText hread hdoc hroot h
  exact ⟨⟨f, doc, root, f', hread, hdoc, hroot, hb⟩, c, rfl, rfl, hc, hblock⟩

namespace Building

/-- A path that a section names stands on a line of the text. -/
theorem exists_line_of_placed {t : Text} {name : Text} {b : Ini.Body}
    (hb : (Document.plain t).bodies.get? name = some b) {i : Nat} {path : Text}
    (hp : (i, path) ∈ b.placed .filename) :
    ∃ line ∈ Text.lines t, path <:+: line ∧ '\n' ∉ path := by
  obtain ⟨c, hc, -, rfl⟩ := Document.exists_chunk_of_get?_bodies hb
  obtain ⟨ps, hps, hv⟩ := Ini.Body.mem_valuesOf.1 (List.mem_map.2 ⟨(i, path), hp, rfl⟩)
  obtain ⟨k, hk, -⟩ := Ini.Pairs.mem_of_get?_eq_some hv
  obtain ⟨line, hline, ha⟩ := (Ini.Body.comesFrom_of_mem_ofLines hps).2 k path hk
  have hmem := ((Ini.mem_lines_of_mem_chunks hc).2 line hline).1
  have hi := (Ini.Line.infix_of_assignment? ha).2
  exact ⟨line, hmem, hi.trans (Ini.Line.withoutBreak_infix_self line),
    fun hn => Ini.Line.newline_not_mem_withoutBreak hmem (hi.subset hn)⟩

variable {f : ModFile} {d : Disk} (b : Building f d)

/-! ### Graphs -/

/-- The names that the graph of a kind of sections starts from. -/
def roots : Part → List Text
  | .blend => [b.root]
  | .others => otherRoots b.read.availableCharacter b.built.blend b.document
  | .resources => resourceRoots b.read.managed b.built.blend

/-- **The graph of a kind of sections** is built from its roots, and the names in it are remembered
for the variants. -/
theorem exists_graph (part : Part) : ∃ g,
    (b.read.graph part).build (b.roots part) b.document.bodies = (none, g) ∧
      b.built.graph part = g.ensureNames b.built.toFix.toList := by
  obtain ⟨blend, others, resources, hb, ho, hr, he⟩ := exists_of_buildFrom b.buildFrom_eq
  unfold roots
  rw [he]
  cases part with
  | blend => exact ⟨blend, hb, rfl⟩
  | others => exact ⟨others, ho, rfl⟩
  | resources => exact ⟨resources, hr, rfl⟩

/-- The graphs remember the names that their styles give. -/
theorem namesByStyle_graph (part : Part) : (b.built.graph part).NamesByStyle := by
  obtain ⟨g, hbuild, hg⟩ := b.exists_graph part
  rw [hg]
  exact CallGraph.namesByStyle_ensureNames (CallGraph.build_spec hbuild).2.2.2 _

theorem style_built (part : Part) : (b.built.graph part).style = (b.read.graph part).style := by
  obtain ⟨g, hbuild, hg⟩ := b.exists_graph part
  rw [hg]
  exact (CallGraph.build_spec hbuild).2.2.1

theorem hasStyles_built (hf : f.HasStyles) : b.built.HasStyles := fun part =>
  (b.style_built part).trans ((sameStyles_ensureParsed b.ensureParsed_eq part).trans (hf part))

/-- The walk of a graph has met its roots. -/
theorem has_of_mem_roots {part : Part} {n : Text}
    (h : n ∈ b.roots part) : (b.built.graph part).has n = true := by
  obtain ⟨g, hbuild, hg⟩ := b.exists_graph part
  rw [hg]
  exact (CallGraph.build_spec hbuild).2.1 n h

theorem isEmpty_blend : b.built.blend.isEmpty = false := by
  have hroot : b.root ∈ b.roots .blend := List.mem_singleton_self _
  obtain ⟨body, hbody⟩ := Table.has_iff.1 (b.has_of_mem_roots hroot)
  exact List.isEmpty_eq_false_iff_exists_mem.2 ⟨_, hbody⟩

/-- The buffer files of the resources, resource by resource. -/
theorem buffers_built : b.built.buffers = b.built.resources.reached.map fun e =>
    (e.1, Buffers.ofBody b.built.folder e.2 b.built.toFix.toList Naming.bufferFile) := by
  obtain ⟨blend, others, resources, -, -, -, he⟩ := exists_of_buildFrom b.buildFrom_eq
  rw [he]
  rfl

/-- **The variants that are generated** have plain names. -/
theorem alphanumeric_of_mem_toFix
    (hplain : ∀ c, b.read.availableCharacter = some c → c.HasPlainVariants) {v : Text}
    (hv : v ∈ b.built.toFix.toList) : Text.Alphanumeric v := by
  obtain ⟨blend, others, resources, -, -, -, he⟩ := exists_of_buildFrom b.buildFrom_eq
  have havailable : { b.read with blend, others, resources }.availableCharacter =
      b.read.availableCharacter := rfl
  rw [he] at hv
  simp only [withVariantsChosen, havailable] at hv
  cases hc : b.read.availableCharacter with
  | none => simp [hc, VariantSet.empty] at hv
  | some c =>
    rw [hc] at hv
    exact (hplain c hc).alphanumeric_of_mem_variantsFor hv

section Current

variable (hf : f.IsCurrent)

include hf

theorem document_eq : b.document = b.read.document := hf.eq_document b.ensureParsed_eq b.parsed_eq

theorem mayBelongTo {c : Character} (hc : b.read.availableCharacter = some c) : f.MayBelongTo c := by
  rw [← mayBelongTo_of_ensureParsed b.ensureParsed_eq]
  unfold availableCharacter ModFile.character at hc
  rw [b.parsed_eq, Option.bind_some, Option.or_eq_some_iff] at hc
  rcases hc with hc | ⟨-, hc⟩
  · rw [b.document_eq hf] at hc
    exact .inl (Document.mem_of_character_eq hc)
  · exact .inr hc

theorem bodies_document : b.document.bodies = (Document.plain b.read.text).bodies := by
  rw [b.document_eq hf]
  rfl

/-- **The graphs** are built from the text. -/
theorem built_graph (part : Part) :
    (b.built.graph part).Built (Document.plain b.read.text).bodies := by
  obtain ⟨g, hbuild, hg⟩ := b.exists_graph part
  obtain ⟨hdeclared, hclosed⟩ := (CallGraph.build_spec (b.bodies_document hf ▸ hbuild)).1
  rw [hg]
  exact ⟨hdeclared, hclosed⟩

/-- A buffer file that a variant loads is generated from one that a section of the text names. -/
theorem exists_of_buffers {name : Text} {files : Buffers} {i : Nat} {variant path : Text}
    (hb : b.built.buffers.get? name = some files) (hpath : files.fixedPath? i variant = some path) :
    ∃ body j old, ∃ v ∈ b.built.toFix.toList,
      (Document.plain b.read.text).bodies.get? name = some body ∧
      (j, old) ∈ body.placed .filename ∧ path = Naming.bufferFile old v := by
  have hmem := Table.mem_of_get?_eq_some hb
  rw [b.buffers_built] at hmem
  obtain ⟨e, hreach, hee⟩ := List.mem_map.1 hmem
  obtain ⟨rfl, rfl⟩ := Prod.mk.inj hee
  obtain ⟨j, old, v, hplaced, hv, rfl⟩ := Buffers.exists_of_fixedPath? hpath
  exact ⟨e.2, j, old, v, hv, (b.built_graph hf .resources).declared e hreach, hplaced, rfl⟩

/-- A buffer file that a variant loads stands on one line. -/
theorem newline_not_mem_of_buffers
    (hplain : ∀ c, b.read.availableCharacter = some c → c.HasPlainVariants)
    {source variant path : Text} {i : Nat}
    (h : (b.built.buffers.get? source).bind (·.fixedPath? i variant) = some path) : '\n' ∉ path := by
  obtain ⟨files, hget, hpath⟩ := Option.bind_eq_some_iff.1 h
  obtain ⟨body, j, old, w, hw, hbody, hplaced, rfl⟩ := b.exists_of_buffers hf hget hpath
  obtain ⟨-, -, -, hold⟩ := exists_line_of_placed hbody hplaced
  exact Naming.newline_not_mem_bufferFile hold
    (b.alphanumeric_of_mem_toFix hplain hw).newline_not_mem

/-- **What takes the place of a value** stands on one line if the value does. -/
theorem keepsLines (hplain : ∀ c, b.read.availableCharacter = some c → c.HasPlainVariants)
    {c : Character} (hids : c.HasLineIds) :
    (b.built.sources c).KeepsLines b.built.toFix.toList := by
  refine Sources.keepsLines_of_files (fun part => ?_)
    (fun w hw => (b.alphanumeric_of_mem_toFix hplain hw).newline_not_mem) (fun c' hc' => ?_)
    fun _ _ _ _ h => b.newline_not_mem_of_buffers hf hplain h
  · rw [graph_sources]
    exact b.namesByStyle_graph part
  · obtain rfl : c = c' := Option.some.inj hc'
    exact hids

end Current

/-! ### Blocks -/

/-- **A block that a building makes** for a character: the variants have plain names, what takes the
place of a value stands on one line, and the graphs hold sections of the text. -/
structure Makes (c : Character) (block : Text) : Prop where
  available : b.read.availableCharacter = some c
  block_eq : (b.built.sources c).block b.built.toFix.toList (some c.title) = .ok block
  alphanumeric : ∀ v ∈ b.built.toFix.toList, Text.Alphanumeric v
  keepsLines : (b.built.sources c).KeepsLines b.built.toFix.toList
  isBuilt : ∀ part, ((b.built.sources c).graph part).Built (Document.plain b.read.text).bodies
  style : ∀ part, (b.read.graph part).style = part.style

end Building

/-- **A block that is made** for a file which is read already, whatever was done to the file before. -/
theorem exists_makes_of_fixText {f f' : ModFile} {d : Disk} (hf : Reachable f)
    (hplain : ∀ c, f.MayBelongTo c → c.HasPlainVariants)
    (hids : ∀ c, f.MayBelongTo c → c.HasLineIds) {doc : Document} {root text : Text}
    (hdoc : f.parsed = some doc) (hroot : doc.root = some root)
    (h : f.fixText d = (.ok text, f')) : ∃ (b : Building f d) (c : Character), b.read = f ∧
      b.built = f' ∧ b.document = doc ∧ b.root = root ∧ b.Makes c text := by
  have hcurrent := isCurrent_of_reachable hf
  obtain ⟨b, c, hread, rfl, hc, hblock⟩ := exists_building_of_fixText hcurrent hdoc hroot h
  have hparsed : b.read.parsed = some doc := by rw [hread, hdoc]
  obtain rfl : b.document = doc := Option.some.inj (b.parsed_eq.symm.trans hparsed)
  obtain rfl : b.root = root := Option.some.inj (b.root_eq.symm.trans hroot)
  have hplain' (c : Character) (hc : b.read.availableCharacter = some c) : c.HasPlainVariants :=
    hplain c (b.mayBelongTo hcurrent hc)
  have havailable : b.read.availableCharacter = some c := by rw [hread, hc]
  refine ⟨b, c, hread, rfl, rfl, rfl, havailable, hblock,
    fun v hv => b.alphanumeric_of_mem_toFix hplain' hv,
    b.keepsLines hcurrent hplain' (hids c (b.mayBelongTo hcurrent havailable)), fun part => ?_, ?_⟩
  · rw [graph_sources]
    exact b.built_graph hcurrent part
  · rw [hread]
    exact hasStyles_of_reachable hf

end ModFile

end Reskin
