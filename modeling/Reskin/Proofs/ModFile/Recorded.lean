import Mathlib.Data.List.Find
import Mathlib.Data.List.Nodup
import Reskin.Proofs.ModFile.Readings
import Reskin.Proofs.Remap.Resources

/-!
# The buffer files that removal finds again

An application generates buffer files for every section of the resource graph, and so for resources
that no override loads but another resource runs. Removal reads its block and records the resources
that are loaded there. So it finds the files of a generated resource exactly if some generated
section loads it, where of the sections of one name only the first is found.

## Main definitions

* `ModFile.Stands`: the generated sections that are found under their names
* `ModFile.filesOf`, `ModFile.generatedFiles`: the files of a generated section, and those that are
  generated

## Main results

* `ModFile.Application.rel_bodies`: what the text of an application says under a generated name
* `ModFile.Application.refers_iff`: the resources that the block refers to
* `ModFile.resources_undo_apply`: what is recorded when an application is removed
-/

namespace Reskin

open Ini (Body Document)
open Remap (Copy LeavesAlone Refers)
open Remap.Fence (FenceFree)

namespace ModFile

/-- The section is found under its name: it is the first one that is generated under it. -/
def Stands (f : ModFile) (c : Copy) : Prop := f.copies.find? (f.nameOf · == f.nameOf c) = some c

/-- The files that a generated section names, as seen from the folder of the mod file. -/
def filesOf (f : ModFile) (c : Copy) : List Text := c.files.map (Buffers.whole ⟨f.folder, []⟩)

/-- **The buffer files that are generated** for the file. -/
def generatedFiles (f : ModFile) : List Text := f.buffers.flatMap fun e => e.2.fixedFiles

theorem stands_of_find? {f : ModFile} {n : Text} {c : Copy}
    (h : f.copies.find? (f.nameOf · == n) = some c) : f.Stands c ∧ f.nameOf c = n := by
  obtain rfl : f.nameOf c = n := by simpa using List.find?_some h
  exact ⟨h, rfl⟩

theorem Stands.mem {f : ModFile} {c : Copy} (h : f.Stands c) : c ∈ f.copies :=
  List.mem_of_find?_eq_some h

/-- If no two names are the same, every section is found. -/
theorem stands_of_nodup {f : ModFile} (h : (f.copies.map f.nameOf).Nodup) {c : Copy}
    (hc : c ∈ f.copies) : f.Stands c := by
  obtain ⟨c', hfind⟩ : ∃ c', f.copies.find? (f.nameOf · == f.nameOf c) = some c' :=
    Option.isSome_iff_exists.1 (List.find?_isSome.2 ⟨c, hc, by simp⟩)
  obtain ⟨hstands, hname⟩ := stands_of_find? hfind
  obtain rfl : c' = c := List.inj_on_of_nodup_map h hstands.mem hc hname
  exact hstands

namespace Application

variable {f : ModFile} {d : Disk} (a : Application f d) (hf : f.IsCurrent)

include hf

/-! ### The sections of the text -/

/-- A generated section stands in for one that is read from lines. -/
theorem exists_lines_of_copy {c : Copy} (hc : c ∈ a.built.copies) :
    ∃ ls, c.body = Body.ofLines ls :=
  Document.exists_eq_ofLines (a.get?_bodies_of_copy hf hc)

/-- Every variant of a resource names the file that is generated for it. -/
theorem newFile_eq {c : Copy} (hc : c ∈ a.built.copies) {place : Remap.Place}
    (hv : place.variant = c.variant) (hs : place.source = c.source) {v : Text}
    (hp : (place.index, v) ∈ c.body.placed .filename) :
    (a.built.sources a.character).newFile place v = Naming.bufferFile v c.variant := by
  rw [Remap.Sources.newFile, hv, hs]
  cases hb : (a.built.sources a.character).buffers.get? c.source with
  | none => rfl
  | some b =>
    have hmem := Table.mem_of_get?_eq_some hb
    rw [sources, a.buffers_built] at hmem
    obtain ⟨e, hreach, he⟩ := List.mem_map.1 hmem
    obtain ⟨hname, rfl⟩ := Prod.mk.inj he
    have hbody : e.2 = c.body := by
      have hget := (a.built_graph hf .resources).declared e hreach
      rw [hname, a.get?_bodies_of_copy hf hc] at hget
      exact (Option.some.inj hget).symm
    rw [hbody, Option.bind_some, Buffers.fixedPath?_ofBody hp (mem_copies.1 hc).1]
    rfl

variable (hplain : a.character.HasPlainVariants)
  (hclean : ∀ l ∈ Text.lines a.read.text, Remap.Clean l)

include hplain hclean

omit hclean in
/-- What a generated section loads has no blanks around it. -/
theorem trim_of_mem_loads {c : Copy} (hc : c ∈ a.built.copies) {n : Text}
    (hn : n ∈ c.loads a.built.resources) : Text.trim n = n := by
  obtain ⟨ls, hls⟩ := a.exists_lines_of_copy hf hc
  obtain ⟨part, variant, source, body⟩ := c
  obtain rfl : body = Body.ofLines ls := hls
  cases part with
  | blend =>
    obtain ⟨m, hm, rfl⟩ := List.mem_map.1 hn
    split
    · next hhas =>
      obtain ⟨b, hb⟩ := Table.has_iff.1 hhas
      have hcopy : (⟨.resources, variant, m, b⟩ : Copy) ∈ a.built.copies :=
        mem_copies.2 ⟨(mem_copies.1 hc).1, hb⟩
      exact a.trim_nameOf hf hplain hcopy
    · exact Body.trim_of_mem_valuesOf hm
  | others => exact Body.trim_of_mem_valuesOf hn
  | resources => simp [Copy.loads] at hn

variable (hids : a.character.HasLineIds)

include hids

/-- **What the text says under a generated name**: the values of the first section that is generated
under it, or nothing. -/
theorem rel_bodies {n : Text} (hn : Naming.isGenerated n = true) :
    Option.Rel (fun c b => b.valuesOf .vb1 = c.loads a.built.resources ∧
        b.valuesOf .filename = c.files.map Text.trim)
      (a.built.copies.find? (a.built.nameOf · == n))
      ((Document.plain a.text).bodies.get? n) := by
  obtain ⟨rs, hread, hrs⟩ := a.readings_text hf hplain hids
  have hnone : (Ini.readings (Text.lines (ahead a.read.text))).find? (·.1 == n) = none := by
    refine List.find?_eq_none.2 fun r hr he => ?_
    have hname : r.1 ∈ Ini.headerNames (Text.lines (ahead a.read.text)) :=
      Ini.map_fst_readings _ ▸ List.mem_map.2 ⟨r, hr, rfl⟩
    exact Remap.not_mem_headerNames_of_clean (clean_ahead hclean) hn (beq_iff_eq.1 he ▸ hname)
  have hdense : ((Document.plain a.text).bodies.get? n).map Body.dense = _ :=
    Document.map_dense_get?_bodies [] none (Text.lines a.text) n
  rw [hread, List.find?_append, hnone, Option.none_or] at hdense
  have hnames : (a.built.copies.find? fun c =>
      Text.trim ((a.built.sources a.character).nameOf c) == n) =
        a.built.copies.find? (a.built.nameOf · == n) := by
    rw [nameOf_sources]
    exact List.find?_congr fun c hc => by rw [a.trim_nameOf hf hplain hc]
  have hrel := Remap.Sources.rel_find?_of_readAs hrs n
  rw [hnames] at hrel
  generalize hcopy : a.built.copies.find? (a.built.nameOf · == n) = copy at hrel ⊢
  generalize rs.find? (·.1 == n) = reading at hrel hdense
  cases hrel with
  | none =>
    rw [Option.map_eq_none_iff.1 hdense]
    exact .none
  | @some c r hr =>
    obtain ⟨b, hb, hbr⟩ := Option.map_eq_some_iff.1 hdense
    have hc := List.mem_of_find?_eq_some hcopy
    obtain ⟨ls, hls⟩ := a.exists_lines_of_copy hf hc
    have hbody : ∀ ps, .content ps ∈ c.body → ps.Distinct ∧ ∀ p ∈ ps, Text.trim p.1 = p.1 :=
      fun ps hps => Body.keys_of_mem_ofLines (hls ▸ hps)
    rw [hb]
    refine .some ⟨?_, ?_⟩
    · rw [← Body.valuesOf_dense, hbr, Remap.Sources.valuesOf_vb1_of_readAs hr hbody]
      exact (List.map_congr_left fun n hn => a.trim_of_mem_loads hf hplain hc hn).trans
        (List.map_id _)
    · rw [← Body.valuesOf_dense, hbr]
      exact Remap.Sources.valuesOf_filename_of_readAs hr hbody fun p hv hs v hp =>
        a.newFile_eq hf hc hv hs hp

/-- A section that is found under its name is read as it has been generated. -/
theorem body_of_stands {c : Copy} (hc : a.built.Stands c) :
    ∃ b, (Document.plain a.text).bodies.get? (a.built.nameOf c) = some b ∧
      b.valuesOf .vb1 = c.loads a.built.resources ∧
      b.valuesOf .filename = c.files.map Text.trim := by
  have hrel := a.rel_bodies hf hplain hclean hids (a.isGenerated_nameOf c)
  rw [show a.built.copies.find? (a.built.nameOf · == a.built.nameOf c) = some c from hc] at hrel
  generalize hb : (Document.plain a.text).bodies.get? (a.built.nameOf c) = body at hrel
  cases hrel with
  | some h => exact ⟨_, rfl, h⟩

/-- Whatever is read under a generated name is a section that is found under it. -/
theorem stands_of_body {n : Text} (hn : Naming.isGenerated n = true) {b : Body}
    (hb : (Document.plain a.text).bodies.get? n = some b) :
    ∃ c, a.built.Stands c ∧ a.built.nameOf c = n ∧ b.valuesOf .vb1 = c.loads a.built.resources ∧
      b.valuesOf .filename = c.files.map Text.trim := by
  have hrel := a.rel_bodies hf hplain hclean hids hn
  rw [hb] at hrel
  generalize hc : a.built.copies.find? (a.built.nameOf · == n) = copy at hrel
  cases hrel with
  | some h =>
    obtain ⟨hstands, hname⟩ := stands_of_find? hc
    exact ⟨_, hstands, hname, h⟩

/-! ### Removal of the block -/

omit hclean hids in
/-- The names that the block declares are those of the generated sections. -/
theorem declares_iff {n : Text} :
    a.Declares n ↔ ∃ c ∈ a.built.copies, a.built.nameOf c = n := by
  constructor
  · rintro ⟨part, v, hv, e, he, rfl⟩
    rw [graph_sources] at he
    have hc : (⟨part, v, e.1, e.2⟩ : Copy) ∈ a.built.copies := mem_copies.2 ⟨hv, he⟩
    refine ⟨_, hc, ?_⟩
    rw [← a.trim_nameOf hf hplain hc, ← nameOf_sources _ a.character]
    rfl
  · rintro ⟨c, hc, rfl⟩
    obtain ⟨hv, he⟩ := mem_copies.1 hc
    refine ⟨c.part, c.variant, hv, (c.source, c.body), by rwa [graph_sources], ?_⟩
    rw [← a.trim_nameOf hf hplain hc, ← nameOf_sources _ a.character]
    rfl

section Closed

variable {names : List Text} (hnames : ∀ n, n ∈ names ↔ a.Declares n)
  (hclosed : ∀ n, a.Declares n → ∃ b, (Document.plain a.text).bodies.get? n = some b ∧
    ∀ c ∈ b.callees, a.Declares c)

include hnames hclosed

/-- **The resources that the block refers to** are those that its sections load, as far as they are
found under their names. -/
theorem refers_iff {n : Text} : Refers (Document.plain a.text) names n ↔
    ∃ c, a.built.Stands c ∧ n ∈ c.loads a.built.resources := by
  constructor
  · rintro ⟨r, hr, -, m, b, hreach, hb, hn⟩
    have hm : a.Declares m := by
      clear hb
      induction hreach with
      | refl => exact (hnames r).1 hr
      | tail _ hrun ih =>
        obtain ⟨b', hb', hcallee⟩ := hrun
        obtain ⟨b'', hb'', hcallees⟩ := hclosed _ ih
        obtain rfl : b' = b'' := Option.some.inj (hb'.symm.trans hb'')
        exact hcallees _ hcallee
    obtain ⟨c, -, rfl⟩ := (a.declares_iff hf hplain).1 hm
    obtain ⟨c', hc', -, hvb, -⟩ :=
      a.stands_of_body hf hplain hclean hids (a.isGenerated_nameOf c) hb
    exact ⟨c', hc', hvb ▸ hn⟩
  · rintro ⟨c, hc, hn⟩
    obtain ⟨b, hb, hvb, -⟩ := a.body_of_stands hf hplain hclean hids hc
    refine ⟨a.built.nameOf c, (hnames _).2 ((a.declares_iff hf hplain).2 ⟨c, hc.mem, rfl⟩),
      ?_, a.built.nameOf c, b, .refl, hb, hvb ▸ hn⟩
    simp [Table.has, hb]

/-- The resources that the first pass records, and their files. -/
theorem resources_of_fence {folder : Text} {r : Table Buffers}
    (hr : Remap.generatedResources folder (Document.plain a.text) names = .ok r) :
    (∀ n, r.has n = true ↔ ∃ c, a.built.Stands c ∧ a.built.nameOf c = n ∧
      ∃ c', a.built.Stands c' ∧ n ∈ c'.loads a.built.resources) ∧
    ∀ file, file ∈ r.flatMap (·.2.namedFiles) ↔ ∃ c, a.built.Stands c ∧
      r.has (a.built.nameOf c) = true ∧ file ∈ c.files.map (Buffers.whole ⟨folder, []⟩) := by
  have hrefers {n : Text} := a.refers_iff hf hplain hclean hids hnames hclosed (n := n)
  have hfiles (b : Body) (c : Copy) (h : b.valuesOf .filename = c.files.map Text.trim) :
      (Remap.namedBuffers folder b).namedFiles = c.files.map (Buffers.whole ⟨folder, []⟩) := by
    rw [Remap.namedBuffers, Buffers.namedFiles_ofBody, h, List.map_map]
    exact List.map_congr_left fun path _ => Buffers.whole_trim _ path
  refine ⟨fun n => ⟨fun h => ?_, ?_⟩, fun file => ⟨fun h => ?_, ?_⟩⟩
  · obtain ⟨b, hb⟩ := Table.has_iff.1 h
    obtain ⟨hgen, hn, body, hbody, -⟩ := (Remap.mem_generatedResources hr).1 hb
    obtain ⟨c, hc, hname, -⟩ := a.stands_of_body hf hplain hclean hids hgen hbody
    exact ⟨c, hc, hname, hrefers.1 hn⟩
  · rintro ⟨c, hc, rfl, hn⟩
    obtain ⟨b, hb, -⟩ := a.body_of_stands hf hplain hclean hids hc
    exact Table.has_iff.2 ⟨_, (Remap.mem_generatedResources hr).2
      ⟨a.isGenerated_nameOf c, hrefers.2 hn, b, hb, rfl⟩⟩
  · obtain ⟨⟨n, b⟩, hb, hfile⟩ := List.mem_flatMap.1 h
    obtain ⟨hgen, hn, body, hbody, rfl⟩ := (Remap.mem_generatedResources hr).1 hb
    obtain ⟨c, hc, rfl, -, hnamed⟩ := a.stands_of_body hf hplain hclean hids hgen hbody
    exact ⟨c, hc, Table.has_iff.2 ⟨_, hb⟩, hfiles body c hnamed ▸ hfile⟩
  · rintro ⟨c, hc, hhas, hfile⟩
    obtain ⟨b, hb⟩ := Table.has_iff.1 hhas
    obtain ⟨-, -, body, hbody, rfl⟩ := (Remap.mem_generatedResources hr).1 hb
    obtain ⟨body', hbody', -, hnamed⟩ := a.body_of_stands hf hplain hclean hids hc
    obtain rfl : body = body' := Option.some.inj (hbody.symm.trans hbody')
    exact List.mem_flatMap.2 ⟨_, hb, (hfiles body c hnamed).symm ▸ hfile⟩

end Closed

omit hplain hids in
/-- **Erasure of the block** records what the first pass finds from the names in its fence; these are
the names that the block declares, and calls from them do not leave it. -/
theorem exists_erase_resources (hp : f.IsPlain) (hfree : FenceFree a.read.text) (folder : Text) :
    ∃ e names, Remap.erase folder a.text = .ok e ∧
      Remap.generatedResources folder (Document.plain a.text) names = .ok e.resources ∧
      (∀ n, n ∈ names ↔ a.Declares n) ∧
      ∀ n, a.Declares n → ∃ b, (Document.plain a.text).bodies.get? n = some b ∧
        ∀ c ∈ b.callees, a.Declares c := by
  obtain ⟨ls, htext, hinert, hhead, -⟩ := a.exists_fence hf hp hfree.noRule
  have htitle := a.plain_title hf hp
  have hend : MayFollow folder [] := .inl rfl
  have hcut := cut_fenceOf (e := Text.lineEnding a.read.text) htitle hinert hfree hend
  rw [List.append_nil, ← htext] at hcut
  obtain ⟨r, hr⟩ := a.exists_erase hf hp hfree hclean hend folder
  rw [List.append_nil] at hr
  have hresources := Remap.resources_of_fences hr (by simp [hcut]) rfl
  rw [hcut] at hresources
  refine ⟨_, _, hr, hresources, fun n => ⟨of_mem_fencedNames htitle hinert, fun hn => ?_⟩,
    fun n hn => ?_⟩
  · obtain ⟨l, hl, hh, rfl⟩ := hhead n hn
    exact mem_fencedNames_of_mem htitle hinert hl hh
  · have := exists_body_of_declared (e := Text.lineEnding a.read.text) htitle hinert
      (whole_ahead a.read.text) (clean_ahead hclean) hend
      (fun _ => a.isGenerated_of_declares hf hp hfree.noRule) hhead hn
    rwa [List.append_nil, ← htext] at this

omit hf hplain hclean hids in
/-- **The generated files** are those of the generated resources. -/
theorem mem_generatedFiles {file : Text} : file ∈ a.built.generatedFiles ↔
    ∃ c ∈ a.built.copies, c.part = .resources ∧ file ∈ a.built.filesOf c := by
  simp only [generatedFiles, a.buffers_built, List.mem_flatMap, List.mem_map]
  constructor
  · rintro ⟨_, ⟨e, he, rfl⟩, hfile⟩
    obtain ⟨v, hv, path, hpath, rfl⟩ := Buffers.mem_fixedFiles_ofBody.1 hfile
    exact ⟨⟨.resources, v, e.1, e.2⟩, mem_copies.2 ⟨hv, he⟩, rfl,
      List.mem_map_of_mem (List.mem_map_of_mem hpath)⟩
  · rintro ⟨⟨part, v, source, body⟩, hc, hpart, hfile⟩
    obtain rfl : part = .resources := hpart
    obtain ⟨hv, he⟩ := mem_copies.1 hc
    obtain ⟨new, hnew, rfl⟩ := List.mem_map.1 hfile
    obtain ⟨path, hpath, rfl⟩ := List.mem_map.1 hnew
    exact ⟨_, ⟨_, he, rfl⟩, Buffers.mem_fixedFiles_ofBody.2 ⟨v, hv, path, hpath, rfl⟩⟩

section Loaded

variable (hnodup : (a.built.copies.map a.built.nameOf).Nodup) {c : Copy}
  (hc : c ∈ a.built.copies) (hpart : c.part = .resources)

include hnodup hc hpart

omit hf hplain hclean hids hpart in
/-- What loads a resource under its generated name stands in for an override that loads the resource,
or writes that name itself. -/
theorem value_of_loads {c' : Copy} (hc' : c' ∈ a.built.copies)
    (hn : a.built.nameOf c ∈ c'.loads a.built.resources) :
    c.source ∈ a.built.blend.valuesOf .vb1 ∨
      a.built.nameOf c ∈ a.built.blend.valuesOf .vb1 ++ a.built.others.valuesOf .vb1 := by
  obtain ⟨part, v, source, body⟩ := c'
  obtain ⟨hv, hreach⟩ := mem_copies.1 hc'
  rw [List.mem_append]
  cases part with
  | blend =>
    obtain ⟨m, hm, he⟩ := List.mem_map.1 hn
    have hblend : m ∈ a.built.blend.valuesOf .vb1 := List.mem_flatMap.2 ⟨_, hreach, hm⟩
    split at he
    · next hhas =>
      obtain ⟨b, hb⟩ := Table.has_iff.1 hhas
      have hm' : (⟨.resources, v, m, b⟩ : Copy) ∈ a.built.copies := mem_copies.2 ⟨hv, hb⟩
      have := List.inj_on_of_nodup_map hnodup hm' hc he
      exact .inl (this ▸ hblend)
    · exact .inr (.inl (he ▸ hblend))
  | others => exact .inr (.inr (List.mem_flatMap.2 ⟨_, hreach, hn⟩))
  | resources => simp [Copy.loads] at hn

omit hplain hids in
theorem exists_loads_of_value (h : c.source ∈ a.built.blend.valuesOf .vb1 ∨
    a.built.nameOf c ∈ a.built.blend.valuesOf .vb1 ++ a.built.others.valuesOf .vb1) :
    ∃ c', a.built.Stands c' ∧ a.built.nameOf c ∈ c'.loads a.built.resources := by
  obtain ⟨hv, hreach⟩ := mem_copies.1 hc
  rw [hpart] at hreach
  have hname : a.built.nameOf c = a.built.resources.nameFor c.source c.variant := by
    rw [nameOf, hpart]
    rfl
  have hstands (part : Remap.Part) {e : Text × Body} (he : e ∈ (a.built.graph part).reached) :
      a.built.Stands ⟨part, c.variant, e.1, e.2⟩ :=
    stands_of_nodup hnodup (mem_copies.2 ⟨hv, he⟩)
  have hhas : a.built.resources.has c.source = true := Table.has_iff.2 ⟨_, hreach⟩
  rw [List.mem_append] at h
  rcases h with hs | hs | hs
  · obtain ⟨e, he, hn⟩ := List.mem_flatMap.1 hs
    exact ⟨_, hstands .blend he, List.mem_map.2 ⟨_, hn, by rw [if_pos hhas, hname]⟩⟩
  · obtain ⟨e, he, hn⟩ := List.mem_flatMap.1 hs
    refine ⟨_, hstands .blend he, List.mem_map.2 ⟨_, hn, if_neg fun hno => ?_⟩⟩
    obtain ⟨b, hb⟩ := Table.has_iff.1 hno
    have := a.isGenerated_source hf hclean (c := ⟨.resources, c.variant, _, b⟩)
      (mem_copies.2 ⟨hv, hb⟩)
    exact Bool.false_ne_true (this.symm.trans (a.isGenerated_nameOf c))
  · obtain ⟨e, he, hn⟩ := List.mem_flatMap.1 hs
    exact ⟨_, hstands .others he, hn⟩

omit hplain hids in
/-- **The resources that are loaded**, if no two generated sections share a name: those that an
override loads, and those whose generated names are written as names of resources. -/
theorem exists_loads_iff :
    (∃ c', a.built.Stands c' ∧ a.built.nameOf c ∈ c'.loads a.built.resources) ↔
      c.source ∈ a.built.blend.valuesOf .vb1 ∨
        a.built.nameOf c ∈ a.built.blend.valuesOf .vb1 ++ a.built.others.valuesOf .vb1 :=
  ⟨fun ⟨_, hstands, hn⟩ => a.value_of_loads hnodup hc hstands.mem hn,
    a.exists_loads_of_value hf hclean hnodup hc hpart⟩

end Loaded

end Application

/-! ## The files that are found -/

/-- **What is recorded when an application is removed**: the generated resources that some generated
section loads, with their files, where of the sections of one name only the first counts. What has
been generated are the files of all generated resources. If no two generated sections share a name,
a resource is recorded exactly if an override of blend weights loads the one that it stands in for,
or its name is written as that of a resource; so all files are found if all resources are loaded by
overrides, and none of them is reached through another resource only. -/
theorem resources_undo_apply {f f' g : ModFile} {d : Disk} {variants : VariantSet}
    (hf : f.IsCurrent) (hp : f.IsPlain) (hload : f.load d = .ok g)
    (halone : LeavesAlone f.folder g.text) (hfree : FenceFree g.text)
    (h : f.apply d = (.ok (.applied variants), f')) (k k' : ModFile) (d' : Disk)
    (hk : k.load d' = .ok k') (htext : k'.text = f'.text) (hfolder : k'.folder = f'.folder) :
    ∃ e u, k.undo d' = (.ok e, u) ∧
      (∀ n, e.resources.has n = true ↔ ∃ c, f'.Stands c ∧ f'.nameOf c = n ∧
        ∃ c', f'.Stands c' ∧ n ∈ c'.loads f'.resources) ∧
      (∀ file, file ∈ e.files ↔ ∃ c, f'.Stands c ∧ e.resources.has (f'.nameOf c) = true ∧
        file ∈ f'.filesOf c) ∧
      (∀ file, file ∈ f'.generatedFiles ↔
        ∃ c ∈ f'.copies, c.part = .resources ∧ file ∈ f'.filesOf c) ∧
      ((f'.copies.map f'.nameOf).Nodup →
        (∀ c ∈ f'.copies, c.part = .resources → (e.resources.has (f'.nameOf c) = true ↔
          c.source ∈ f'.blend.valuesOf .vb1 ∨
            f'.nameOf c ∈ f'.blend.valuesOf .vb1 ++ f'.others.valuesOf .vb1)) ∧
        ((∀ n ∈ f'.resources.order, n ∈ f'.blend.valuesOf .vb1) →
          ∀ file ∈ f'.generatedFiles, file ∈ e.files)) := by
  obtain ⟨a, rfl, -⟩ := exists_application h
  obtain ⟨-, hclean⟩ := Remap.leavesAlone_iff.1 halone
  rw [← a.text_read hload] at hfree hclean
  have hplain := (a.isPlain_character hf hp).hasPlainVariants
  obtain ⟨e, names, he, hresources, hnames, hclosed⟩ :=
    a.exists_erase_resources hf hclean hp hfree k'.folder
  obtain ⟨u, hu, -⟩ := exists_undo_of_erase hk (by rw [htext, a.text_result, he])
  obtain ⟨hhas, hfiles⟩ := a.resources_of_fence hf hplain hclean
    (a.isPlain_character hf hp).hasLineIds hnames hclosed hresources
  obtain ⟨parsed, hresult⟩ := a.exists_result_eq
  rw [hresult] at hfolder ⊢
  rw [hfolder] at hfiles
  refine ⟨e, u, hu, hhas, hfiles, fun file => a.mem_generatedFiles, fun hnodup => ?_⟩
  have hrecorded (c : Copy) (hc : c ∈ a.built.copies) (hpart : c.part = .resources) :
      e.resources.has (a.built.nameOf c) = true ↔ c.source ∈ a.built.blend.valuesOf .vb1 ∨
        a.built.nameOf c ∈ a.built.blend.valuesOf .vb1 ++ a.built.others.valuesOf .vb1 := by
    rw [← a.exists_loads_iff hf hclean hnodup hc hpart, hhas]
    exact ⟨fun ⟨_, _, _, hload⟩ => hload, fun hload => ⟨c, stands_of_nodup hnodup hc, rfl, hload⟩⟩
  refine ⟨hrecorded, fun hloaded file hfile => ?_⟩
  obtain ⟨c, hc, hpart, hfile⟩ := a.mem_generatedFiles.1 hfile
  refine (hfiles file).2 ⟨c, stands_of_nodup hnodup hc, (hrecorded c hc hpart).2 (.inl ?_), hfile⟩
  have hreach := (mem_copies.1 hc).2
  rw [hpart] at hreach
  exact hloaded _ (List.mem_map_of_mem hreach)

/-- The file of the one resource is found again. -/
theorem resources_undo_apply_weights : ∃ e u,
    (ofText (weightsApplication .empty).result.text).undo .empty = (.ok e, u) ∧
      (weightsApplication .empty).result.generatedFiles =
        ["./RaidenRaidenBossRemapBlend.buf".toList] ∧
      "./RaidenRaidenBossRemapBlend.buf".toList ∈ e.files := by
  have hfree : FenceFree weightsText := Remap.Fence.fenceFree_of_not_mem (by decide)
  obtain ⟨e, u, hu, -, -, -, hall⟩ := resources_undo_apply (isCurrent_of_parsed rfl)
    (isPlain_raidenFile weightsText) rfl (leavesAlone_weightsText _) hfree
    (weightsApplication .empty).apply_eq (ofText (weightsApplication .empty).result.text) _ .empty
    rfl rfl (by decide +kernel)
  have hfiles : (weightsApplication .empty).result.generatedFiles =
      ["./RaidenRaidenBossRemapBlend.buf".toList] := by decide +kernel
  obtain ⟨-, hfound⟩ := hall (by decide +kernel)
  exact ⟨e, u, hu, hfiles, hfound (by decide +kernel) _ (hfiles ▸ List.mem_singleton_self _)⟩

/-! ## A resource that only a resource runs -/

/-- A blend override that loads a resource, and another resource that this one runs. -/
def chainText : Text :=
  Text.unlines .lf ["[TextureOverrideRaidenBlend]".toList, "vb1 = ResourceRaidenBlend".toList, [],
    "[ResourceRaidenBlend]".toList, "filename = RaidenBlend.buf".toList,
    "run = ResourceExtra".toList, [], "[ResourceExtra]".toList, "filename = Extra.buf".toList]

/-- The resources of the text. -/
def chainResources : Ini.Bodies :=
  [("ResourceRaidenBlend".toList, [.content [("filename".toList, "RaidenBlend.buf".toList),
      ("run".toList, "ResourceExtra".toList)]]),
    ("ResourceExtra".toList, [.content [("filename".toList, "Extra.buf".toList)]])]

/-- What is generated for the one variant. -/
def chainPart : Text :=
  Text.unlines .lf [[], [], "; ***** RaidenBoss *****".toList,
    "[TextureOverrideRaidenRaidenBossRemapBlend]".toList,
    "vb1 = ResourceRaidenRaidenBossRemapBlend".toList, [], [],
    "[ResourceRaidenRaidenBossRemapBlend]".toList,
    "filename = RaidenRaidenBossRemapBlend.buf".toList,
    "run = ResourceExtraRaidenBossRemapBlend".toList, [],
    "[ResourceExtraRaidenBossRemapBlend]".toList,
    "filename = ExtraRaidenBossRemapBlend.buf".toList]

/-- The stages of an application to the text. -/
def chainApplication (d : Disk) : Application (raidenFile chainText) d :=
  .ofWalks 3 "TextureOverrideRaidenBlend".toList raiden [weightsRoot] [] chainResources [chainPart]

/-- **A file that is not found again**: it is generated for the resource that only a resource runs,
and removal does not record that one. -/
theorem resources_undo_apply_chain :
    (raidenFile chainText).IsPlain ∧ LeavesAlone (raidenFile chainText).folder chainText ∧
      FenceFree chainText ∧
      (raidenFile chainText).apply .empty =
        (.ok (.applied (chainApplication .empty).built.toFix), (chainApplication .empty).result) ∧
      "./ExtraRaidenBossRemapBlend.buf".toList ∈ (chainApplication .empty).result.generatedFiles ∧
      ∃ e u, (ofText (chainApplication .empty).result.text).undo .empty = (.ok e, u) ∧
        "./ExtraRaidenBossRemapBlend.buf".toList ∉ e.files := by
  have hcurrent : (raidenFile chainText).IsCurrent := isCurrent_of_parsed rfl
  have hplain := isPlain_raidenFile chainText
  have halone (folder : Text) : LeavesAlone folder chainText :=
    Remap.leavesAlone_iff.2 ⟨Remap.Fence.cut_of_not_mem (by decide), by decide +kernel⟩
  have hfree : FenceFree chainText := Remap.Fence.fenceFree_of_not_mem (by decide)
  have hclean := (Remap.leavesAlone_iff.1 (halone [])).2
  have hraiden := (chainApplication .empty).isPlain_character hcurrent hplain
  obtain ⟨e, names, he, hresources, hnames, hclosed⟩ :=
    (chainApplication .empty).exists_erase_resources hcurrent hclean hplain hfree ['.']
  obtain ⟨u, hu, -⟩ := exists_undo_of_erase
    (k := ofText (chainApplication .empty).result.text) (d := .empty) rfl
    (by rw [← (chainApplication .empty).text_result] at he; exact he)
  obtain ⟨hhas, hfiles⟩ := (chainApplication .empty).resources_of_fence hcurrent
    hraiden.hasPlainVariants hclean hraiden.hasLineIds hnames hclosed hresources
  refine ⟨hplain, halone _, hfree, (chainApplication .empty).apply_eq, by decide +kernel,
    e, u, hu, fun hm => ?_⟩
  · obtain ⟨c, hc, hrecorded, hfile⟩ := (hfiles _).1 hm
    obtain ⟨-, -, -, c', hc', hload⟩ := (hhas _).1 hrecorded
    have hnone : ∀ c ∈ (chainApplication .empty).built.copies,
        "./ExtraRaidenBossRemapBlend.buf".toList ∈ c.files.map (Buffers.whole ⟨['.'], []⟩) →
          ∀ c' ∈ (chainApplication .empty).built.copies, (chainApplication .empty).built.nameOf c ∉
            c'.loads (chainApplication .empty).built.resources := by
      decide +kernel
    exact hnone c hc.mem hfile c' hc'.mem hload

end ModFile

end Reskin
