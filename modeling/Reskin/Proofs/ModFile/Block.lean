import Reskin.Proofs.ModFile.Apply
import Reskin.Proofs.Remap.Leftover

/-!
# The block of an application

What a block is made from when it is made for a current mod file: three graphs of sections that the
text declares, quiet buffer files, and variants with plain names. For plain characters and a text
free of fences every line of the block is therefore inert.

## Main definitions

* `ModFile.IsPlain`: files for plain characters only

## Main results

* `ModFile.Application.fitsText`: graphs and tables are made from the text
* `ModFile.Application.alphanumeric_of_mem_toFix`: the variants that are generated
* `ModFile.Application.exists_block_lines`: the lines of the block are inert
-/

namespace Reskin

open Ini (Document)
open Remap (Erasable Inert Quiet Sources blockRule blockStyle)
open Remap.Fence (RuleFree)

namespace ModFile

/-- Every character that the file may belong to is plain. -/
structure IsPlain (f : ModFile) : Prop where
  characters : ∀ c ∈ f.characters, c.IsPlain
  assumed : ∀ c, f.assumed = some c → c.IsPlain

theorem IsPlain.of_mayBelongTo {f : ModFile} (h : f.IsPlain) {c : Character}
    (hc : f.MayBelongTo c) : c.IsPlain :=
  hc.elim (h.characters c) (h.assumed c)

namespace Application

variable {f : ModFile} {d : Disk} (a : Application f d)

/-- The graphs of an application are built as those of any file. -/
def building : Building f d where
  read := a.read
  document := a.document
  root := a.root
  built := a.built
  ensureParsed_eq := a.ensureParsed_eq
  parsed_eq := a.parsed_eq
  root_eq := a.root_eq
  buildFrom_eq := a.buildFrom_eq

theorem mayBelongTo_character (hf : f.IsCurrent) : f.MayBelongTo a.character :=
  a.building.mayBelongTo hf a.character_eq

/-! ### Graphs and tables -/

theorem isEmpty_blend : (a.built.sources a.character).blend.isEmpty = false :=
  a.building.isEmpty_blend

/-- The names of the sections that the block declares. -/
def Declares (name : Text) : Prop :=
  (a.built.sources a.character).Declares a.built.toFix.toList name

theorem namesByStyle_graph (part : Remap.Part) :
    ((a.built.sources a.character).graph part).NamesByStyle := by
  rw [graph_sources]
  exact a.building.namesByStyle_graph part

/-- The buffer files of an application, resource by resource. -/
theorem buffers_built : a.built.buffers = a.built.resources.reached.map fun e =>
    (e.1, Buffers.ofBody a.built.folder e.2 a.built.toFix.toList Naming.bufferFile) :=
  a.building.buffers_built

/-- **The variants that are generated** have plain names. -/
theorem alphanumeric_of_mem_toFix (hplain : a.character.HasPlainVariants) {v : Text}
    (hv : v ∈ a.built.toFix.toList) : Text.Alphanumeric v := by
  refine a.building.alphanumeric_of_mem_toFix (fun c hc => ?_) hv
  obtain rfl : a.character = c := Option.some.inj (a.character_eq.symm.trans hc)
  exact hplain

/-- **The graphs of an application** are built from its text. -/
theorem built_graph (hf : f.IsCurrent) (part : Remap.Part) :
    ((a.built.sources a.character).graph part).Built (Document.plain a.read.text).bodies := by
  rw [graph_sources]
  exact a.building.built_graph hf part

variable (hf : f.IsCurrent) (hp : f.IsPlain)

include hf hp

theorem isPlain_character : a.character.IsPlain := hp.of_mayBelongTo (a.mayBelongTo_character hf)

/-- **Graphs and tables** of an application are made from its text. -/
theorem fitsText (hrule : RuleFree a.read.text) :
    (a.built.sources a.character).FitsText a.read.text where
  built := a.built_graph hf
  named := a.namesByStyle_graph
  plain := by
    rintro c hc
    obtain rfl := Option.some.inj hc
    exact a.isPlain_character hf hp
  buffers := by
    intro name b i variant path hget hpath
    obtain ⟨body, j, old, v, hv, hbody, hplaced, rfl⟩ := a.building.exists_of_buffers hf hget hpath
    obtain ⟨line, hline, hi, hn⟩ := Building.exists_line_of_placed hbody hplaced
    exact (Remap.quiet_of_line hrule hline hi hn).bufferFile (Remap.foreign_of_alphanum
      (a.alphanumeric_of_mem_toFix (a.isPlain_character hf hp).hasPlainVariants hv).2)

/-- A title of letters, digits and blanks. -/
theorem plain_title : ∀ c ∈ a.character.title, c.isAlphanum = true ∨ c = ' ' := fun c hc =>
  (a.isPlain_character hf hp).name c (List.mem_filter.1 hc).1

/-- Every name that the block declares is a generated one. -/
theorem isGenerated_of_declares (hrule : RuleFree a.read.text) {n : Text} (hn : a.Declares n) :
    Naming.isGenerated n = true :=
  Sources.isGenerated_of_declares (a.fitsText hf hp hrule) hn

/-- **The lines of the block** between its heading and its rule are inert, and every section that the
block declares has its header among them. The second pass would leave none of them that is not
blank. -/
theorem exists_block_lines (hrule : RuleFree a.read.text) :
    ∃ ls, a.block = blockStyle.heading (a.character.title ++ [' ']) ++
        '\n' :: (Text.unlines .lf ls ++ blockRule a.character.title) ∧
      (∀ l ∈ ls, Inert a.Declares l) ∧
      (∀ name, a.Declares name → ∃ l ∈ ls, Ini.Line.isHeader l = true ∧
        Ini.Line.sectionName l = name) ∧ Erasable ls := by
  obtain ⟨parts, hparts, hblock⟩ := Remap.exists_block_eq a.block_eq
  obtain ⟨ls, heq, hline, hheaders⟩ := Sources.exists_lines a.isEmpty_blend hparts
  have hfits := a.fitsText hf hp hrule
  have hblockline (l : Text) (hl : (a.built.sources a.character).BlockLine a.built.toFix.toList l) :
      Inert a.Declares l :=
    Sources.inert_of_blockLine hfits hrule (fun v hv =>
      a.alphanumeric_of_mem_toFix (a.isPlain_character hf hp).hasPlainVariants hv) hl
  have hinert : ∀ l ∈ ls, Inert a.Declares l := fun l hl => hblockline l (hline l hl)
  have htitle := a.plain_title hf hp
  refine ⟨Remap.credit a.character.title :: [] :: ls, ?_, ?_, ?_, ?_⟩
  · rw [hblock, Remap.framed, List.append_assoc (Remap.credit _), heq]
    simp [Text.LineEnding.text]
  · intro l hl
    rcases List.mem_cons.1 hl with rfl | hl
    · exact Remap.inert_credit htitle
    rcases List.mem_cons.1 hl with rfl | hl
    · exact Remap.inert_of_not_mem (by simp) (by simp)
    · exact hinert l hl
  · intro name hname
    obtain ⟨v, hv, l, hl, n, rfl, hn⟩ := Sources.exists_header_of_declares hname
    have hmem := hheaders v hv _ hl
    refine ⟨_, List.mem_cons_of_mem _ (List.mem_cons_of_mem _ hmem), ?_, hn⟩
    exact Ini.Line.isHeader_bracketed fun hnl => (hinert _ hmem).quiet.newline (by simp [hnl])
  · refine .cons (Ini.Line.isHeader_comment _) (.inr (Remap.isBoilerplate_credit ?_)) ?_
    · intro hm
      rcases htitle _ hm with h | h <;> revert h <;> decide
    refine .cons (by decide) (.inl (by simp [Text.Blank])) ?_
    refine Sources.erasable_of_blockLine a.isEmpty_blend hparts
      (fun l hl => (hblockline l hl).quiet.newline) hline heq fun l hl hh => ?_
    rw [Ini.Line.isGeneratedHeader_iff (hinert l hl).quiet.newline hh]
    exact a.isGenerated_of_declares hf hp hrule ((hinert l hl).header hh)

end Application

end ModFile

end Reskin
