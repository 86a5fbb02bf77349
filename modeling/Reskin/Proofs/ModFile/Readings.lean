import Reskin.Proofs.ModFile.RoundTrip
import Reskin.Proofs.Remap.Headers

/-!
# The text of an application, read again

Behind what the text said before, the text of an application says what the generated sections say,
one after the other: every header of the block is that of a generated section, and below it stands
what takes the place of the entries of the section it is made for. This holds for all texts and
titles; it takes variants with plain names, and ids that do not break lines.

## Main definitions

* `ModFile.copies`, `ModFile.nameOf`: the sections generated for a file, and their names

## Main results

* `ModFile.Application.keepsLines`: what is written into the block stands on one line
* `ModFile.Application.readings_text`: what is read of the text of an application
* `ModFile.Application.headerNames_text`: the names of its headers
-/

namespace Reskin

open Ini (Document)
open Remap (Copy LeavesAlone Sources blockRule blockStyle)

/-- Clean lines have no header with a generated name. -/
theorem Remap.not_mem_headerNames_of_clean {t n : Text} (h : ∀ l ∈ Text.lines t, Clean l)
    (hn : Naming.isGenerated n = true) : n ∉ Ini.headerNames (Text.lines t) := by
  intro hm
  obtain ⟨l, hl, he⟩ := List.mem_map.1 hm
  obtain ⟨hl, hh⟩ := List.mem_filter.1 hl
  exact sectionName_ne_of_clean hl (h l hl) hh hn he

namespace ModFile

/-- The name of a section that is generated for the file. -/
def nameOf (f : ModFile) (c : Copy) : Text := (f.graph c.part).nameFor c.source c.variant

/-- **The sections that are generated** for the file, in order: variant by variant those of the
three graphs. -/
def copies (f : ModFile) : List Copy :=
  f.toFix.toList.flatMap fun v => [Remap.Part.blend, .others, .resources].flatMap fun part =>
    (f.graph part).reached.map fun e => ⟨part, v, e.1, e.2⟩

theorem nameOf_sources (f : ModFile) (c : Character) : (f.sources c).nameOf = f.nameOf := by
  funext x
  rw [Sources.nameOf, graph_sources]
  rfl

theorem copies_sources (f : ModFile) (c : Character) :
    (f.sources c).copies f.toFix.toList = f.copies := by
  refine List.flatMap_congr fun v _ => ?_
  simp [Sources.allGathered, Sources.gathered, graph_sources, List.map_eq_flatMap]

theorem mem_copies {f : ModFile} {c : Copy} : c ∈ f.copies ↔
    c.variant ∈ f.toFix.toList ∧ (c.source, c.body) ∈ (f.graph c.part).reached := by
  obtain ⟨part, v, source, body⟩ := c
  cases part <;> simp [copies]

namespace Application

variable {f : ModFile} {d : Disk} (a : Application f d)

/-- The file that results is the one that was built, with another text and its document. -/
theorem exists_result_eq :
    ∃ parsed, a.result = { a.built with loaded := some a.text, parsed := parsed } :=
  ⟨_, withDocument_eq _⟩

variable (hf : f.IsCurrent) (hplain : a.character.HasPlainVariants)
  (hids : a.character.HasLineIds)

include hf hplain hids

/-- **What is written into the block** stands on one line. -/
theorem keepsLines : (a.built.sources a.character).KeepsLines a.built.toFix.toList := by
  refine a.building.keepsLines hf (fun c hc => ?_) hids
  obtain rfl : a.character = c := Option.some.inj (a.character_eq.symm.trans hc)
  exact hplain

/-- **The lines of the text**: those ahead of the block, the heading and what follows it, and the
rule. -/
theorem exists_text_lines : ∃ ls, a.text = ahead a.read.text ++
      (Text.unlines (Text.lineEnding a.read.text) ls ++ blockRule a.character.title) ∧
    (∀ l ∈ ls, '\n' ∉ l) ∧ Ini.IdleStart ls ∧
    List.Forall₂ (a.built.sources a.character).ReadAs a.built.copies (Ini.readings ls) := by
  obtain ⟨parts, hparts, hblock⟩ := Remap.exists_block_eq a.block_eq
  obtain ⟨ls, heq, hls, hstart, hread⟩ := Sources.exists_readings (a.built_graph hf)
    (a.keepsLines hf hplain hids)
    (fun v hv => (a.alphanumeric_of_mem_toFix hplain hv).newline_not_mem) a.isEmpty_blend hparts
  rw [copies_sources] at hread
  have htitle : '\n' ∉ a.character.title := by simp [Character.title]
  have hidle {l : Text} (hl : l ∈ Remap.blockHead a.character.title) :
      '\n' ∉ l ∧ Ini.Line.isIdle l = true := Remap.idle_of_mem_blockHead htitle hl
  have hlines : ∀ l ∈ Remap.blockHead a.character.title ++ ls, '\n' ∉ l := fun l hl =>
    (List.mem_append.1 hl).elim (fun h => (hidle h).1) (hls l)
  refine ⟨Remap.blockHead a.character.title ++ ls, ?_, hlines, ?_, ?_⟩
  · rw [Application.text, appended_eq, hblock, Remap.framed_eq_unlines _ heq, ← List.append_assoc,
      ← Text.unlines_append, Text.withEnding_unlines_append hlines (Remap.newline_not_mem_blockRule _)]
  · exact Ini.IdleStart.append (Ini.idleStart_of_idle fun l hl => (hidle hl).2) hstart
  · rwa [Ini.readings_append _ hstart, Ini.readings_of_idle fun l hl => (hidle hl).2]

/-- **What is read of the text**: what was read ahead of the block, and the generated sections. -/
theorem readings_text : ∃ rs, Ini.readings (Text.lines a.text) =
      Ini.readings (Text.lines (ahead a.read.text)) ++ rs ∧
    List.Forall₂ (a.built.sources a.character).ReadAs a.built.copies rs := by
  obtain ⟨ls, htext, hls, hstart, hread⟩ := a.exists_text_lines hf hplain hids
  refine ⟨Ini.readings ls, ?_, hread⟩
  have hrule : Text.lines (blockRule a.character.title) = [blockRule a.character.title] :=
    Text.lines_of_not_mem (Remap.newline_not_mem_blockRule _) (by simp [blockRule])
  have hidle : ∀ l ∈ [blockRule a.character.title], Ini.Line.isIdle l = true :=
    fun l hl => List.mem_singleton.1 hl ▸ Ini.Line.isIdle_comment _
  rw [htext, Text.lines_append (whole_ahead _), Text.lines_unlines_append hls, hrule,
    ← List.append_assoc, Ini.readings_append_idle _ hidle,
    Ini.readings_append _ (Ini.idleStart_map_ending _ hstart), Ini.readings_map_ending]

/-! ### Names -/

omit hf hplain hids in
/-- The names of generated sections are those of the styles. -/
theorem nameOf_eq (c : Copy) :
    a.built.nameOf c = (a.built.graph c.part).style.rename c.source c.variant := by
  rw [nameOf, ← graph_sources _ a.character, a.namesByStyle_graph]

omit hf hplain hids in
theorem isGenerated_nameOf (c : Copy) : Naming.isGenerated (a.built.nameOf c) = true := by
  rw [nameOf_eq, Naming.isGenerated_rename]

omit hplain hids in
/-- A generated section stands in for one that the text declares. -/
theorem get?_bodies_of_copy {c : Copy} (hc : c ∈ a.built.copies) :
    (Document.plain a.read.text).bodies.get? c.source = some c.body := by
  have hreach := (mem_copies.1 hc).2
  rw [← graph_sources _ a.character] at hreach
  exact (a.built_graph hf c.part).declared _ hreach

omit hplain hids in
/-- A generated section stands in for one whose header the text has. -/
theorem exists_header_of_copy {c : Copy} (hc : c ∈ a.built.copies) :
    ∃ l ∈ Text.lines a.read.text, Ini.Line.isHeader l = true ∧ Ini.Line.sectionName l = c.source := by
  have hhas : (Document.plain a.read.text).bodies.has c.source = true :=
    Option.isSome_iff_exists.2 ⟨_, a.get?_bodies_of_copy hf hc⟩
  exact Document.exists_header_of_has hhas

omit hplain hids in
/-- In a text without generated content no generated section stands in for another one. -/
theorem isGenerated_source (hclean : ∀ l ∈ Text.lines a.read.text, Remap.Clean l) {c : Copy}
    (hc : c ∈ a.built.copies) : Naming.isGenerated c.source = false := by
  obtain ⟨l, hl, hh, hname⟩ := a.exists_header_of_copy hf hc
  rw [← hname]
  exact Remap.isGenerated_eq_false_of_clean hl (hclean l hl) hh

omit hids in
/-- The names of generated sections have no blanks around them. -/
theorem trim_nameOf {c : Copy} (hc : c ∈ a.built.copies) :
    Text.trim (a.built.nameOf c) = a.built.nameOf c := by
  rw [nameOf_eq]
  exact NameStyle.trim_rename (a.alphanumeric_of_mem_toFix hplain (mem_copies.1 hc).1)
    (Document.trim_name (a.get?_bodies_of_copy hf hc)) _

/-- **The names of the headers** of the text: those it had, and those of the generated sections. -/
theorem headerNames_text :
    Ini.headerNames (Text.lines a.text) =
      Ini.headerNames (Text.lines a.read.text) ++ a.built.copies.map a.built.nameOf := by
  obtain ⟨rs, hread, hrs⟩ := a.readings_text hf hplain hids
  have hnames : rs.map (·.1) = a.built.copies.map a.built.nameOf := by
    rw [Sources.map_fst_of_readAs hrs, nameOf_sources]
    exact List.map_congr_left fun c hc => a.trim_nameOf hf hplain hc
  rw [← Ini.map_fst_readings, hread, List.map_append, Ini.map_fst_readings, hnames,
    ← Ini.headerNames_lines_trimEnd (ahead _), trimEnd_ahead, Ini.headerNames_lines_trimEnd]

end Application

/-! ## An application with a resource -/

/-- A blend override that loads a resource. -/
def weightsText : Text :=
  Text.unlines .lf ["[TextureOverrideRaidenBlend]".toList, "vb1 = ResourceRaidenBlend".toList, [],
    "[ResourceRaidenBlend]".toList, "filename = RaidenBlend.buf".toList]

/-- The override. -/
def weightsRoot : Text × Ini.Body :=
  ("TextureOverrideRaidenBlend".toList,
    [.content [("vb1".toList, "ResourceRaidenBlend".toList)]])

/-- The resource. -/
def weightsResource : Text × Ini.Body :=
  ("ResourceRaidenBlend".toList, [.content [("filename".toList, "RaidenBlend.buf".toList)]])

/-- What is generated for the one variant. -/
def weightsPart : Text :=
  Text.unlines .lf [[], [], "; ***** RaidenBoss *****".toList,
    "[TextureOverrideRaidenRaidenBossRemapBlend]".toList,
    "vb1 = ResourceRaidenRaidenBossRemapBlend".toList, [], [],
    "[ResourceRaidenRaidenBossRemapBlend]".toList,
    "filename = RaidenRaidenBossRemapBlend.buf".toList]

/-- The stages of an application to the text. -/
def weightsApplication (d : Disk) : Application (raidenFile weightsText) d :=
  .ofWalks 2 "TextureOverrideRaidenBlend".toList raiden
    [weightsRoot] [] [weightsResource] [weightsPart]

theorem leavesAlone_weightsText (folder : Text) : LeavesAlone folder weightsText :=
  Remap.leavesAlone_iff.2 ⟨Remap.Fence.cut_of_not_mem (by decide), by decide +kernel⟩

end ModFile

end Reskin
