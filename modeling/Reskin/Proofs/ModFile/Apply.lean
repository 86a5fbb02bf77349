import Reskin.Proofs.Ini.Document
import Reskin.Proofs.ModFile.Building
import Reskin.Proofs.Remap.Frame

/-!
# Adding generated content

An application that succeeds goes through fixed stages: the document is read, its root and a
character are found, the three graphs are built, and the block made from them is appended. Whatever
the characters are, the first line of the block is recognised wherever the text is read again.

## Main definitions

* `ModFile.Application`: the stages of an application
* `ModFile.ahead`: the text that stands ahead of an appended block
* `ModFile.raidenFile`, `ModFile.blendApplication`: a file, and the stages of an application to it

## Main results

* `ModFile.exists_application`, `ModFile.Application.apply_eq`: an application that succeeds is its
  stages
* `ModFile.Application.exists_text_eq`: the frame of the text that results
* `ModFile.apply_idempotent`: generated content is added once
-/

namespace Reskin.ModFile

open Ini (Document)
open Remap (blockStyle blockRule)

/-! ## Stages -/

/-- **The stages of an application** that succeeds. -/
structure Application (f : ModFile) (d : Disk) where
  /-- The file with its document read. -/
  read : ModFile
  document : Document
  root : Text
  character : Character
  /-- The file with its graphs built. -/
  built : ModFile
  /-- The generated block. -/
  block : Text
  ensureParsed_eq : f.ensureParsed d = .ok read
  parsed_eq : read.parsed = some document
  isFixed_eq : document.isFixed = false
  root_eq : document.root = some root
  character_eq : read.availableCharacter = some character
  buildFrom_eq : read.buildFrom document root = (.ok (), built)
  block_eq : (built.sources character).block built.toFix.toList (some character.title) = .ok block

/-- The text that stands ahead of an appended block. -/
def ahead (text : Text) : Text :=
  let e := Text.lineEnding text
  Text.trimEnd text ++ e.text ++ e.text ++ e.text

theorem appended_eq (text block : Text) :
    appended text block = ahead text ++ Text.withEnding (Text.lineEnding text) block := rfl

namespace Application

variable {f : ModFile} {d : Disk} (a : Application f d)

/-- The text with the block. -/
def text : Text := appended a.read.text a.block

/-- The file that results. -/
def result : ModFile := (a.built.setText a.text).withDocument

theorem text_built : a.built.text = a.read.text := by
  rw [ModFile.text, ModFile.text, loaded_of_buildFrom a.buildFrom_eq]

@[simp] theorem text_result : a.result.text = a.text := by
  rw [result, text_withDocument]
  rfl

theorem parsed_result : a.result.parsed = some a.result.document := by
  have hp : (a.built.setText a.text).parsed = none := rfl
  have hw : a.result = { a.built.setText a.text with
      parsed := some (a.built.setText a.text).document } := by
    simp [result, withDocument, hp]
  rw [hw]
  rfl

theorem loaded_result : a.result.loaded = some a.text := by
  simp [result, withDocument, setText]

theorem path_result : a.result.path = f.path := by
  obtain ⟨_, _, hread⟩ := exists_of_ensureParsed a.ensureParsed_eq
  have hbuilt := (sameReading_buildFrom a.read a.document a.root).path
  rw [a.buildFrom_eq] at hbuilt
  rw [result, path_withDocument]
  refine hbuilt.trans ?_
  rw [hread]

theorem load_result (d' : Disk) : a.result.load d' = .ok a.result :=
  load_of_loaded (by simp [a.loaded_result]) d'

end Application

/-- The stages of an application whose walks are known, to a file that is not read yet. What the
walks and the parts are is evaluated. -/
def Application.ofWalks {f : ModFile} {d : Disk} (n : Nat) (root : Text) (c : Character)
    (blend others resources : Ini.Bodies) (parts : List Text)
    (hload : f.load d = .ok f := by rfl) (hparsed : f.parsed = none := by rfl)
    (hfixed : f.document.isFixed = false := by decide +kernel)
    (hroot : f.document.root = some root := by decide +kernel)
    (hc : f.withDocument.availableCharacter = some c := by decide +kernel)
    (hblend : CallGraph.walkWithin f.document.bodies n [] [root] = some (none, blend) := by
      decide +kernel)
    (hothers : CallGraph.walkWithin f.document.bodies n []
      (otherRoots (some c) ⟨f.withDocument.blend.style, blend, []⟩ f.document) =
        some (none, others) := by decide +kernel)
    (hresources : CallGraph.walkWithin f.document.bodies n []
      (resourceRoots f.withDocument.managed ⟨f.withDocument.blend.style, blend, []⟩) =
        some (none, resources) := by decide +kernel)
    (hparts : ((f.withDocument.withWalks blend others resources).sources c).variantParts
      (f.withDocument.withWalks blend others resources).toFix.toList = .ok parts := by
      decide +kernel) :
    Application f d where
  read := f.withDocument
  document := f.document
  root := root
  character := c
  built := f.withDocument.withWalks blend others resources
  block := Remap.framed c.title parts
  ensureParsed_eq := ensureParsed_of_load hload
  parsed_eq := parsed_withDocument hparsed
  isFixed_eq := hfixed
  root_eq := hroot
  character_eq := hc
  buildFrom_eq := buildFrom_eq_of_walks hblend (hc ▸ hothers) hresources
  block_eq := Remap.block_eq_framed hparts c.title

/-- **An application that succeeds** is its stages. -/
theorem exists_application {f f' : ModFile} {d : Disk} {variants : VariantSet}
    (h : f.apply d = (.ok (.applied variants), f')) :
    ∃ a : Application f d, f' = a.result ∧ variants = a.built.toFix := by
  rcases hg : f.ensureParsed d with fault | g
  · simp [apply, hg] at h
  obtain ⟨doc, hdoc⟩ := exists_parsed_of_ensureParsed hg
  cases (apply_eq_iff hg hdoc).1 h with
  | @applied root block k hfixed hroot hfix =>
  obtain ⟨c, hc, hb, hblock⟩ :=
    exists_character_of_fixText (ensureParsed_ensureParsed hg) hdoc hroot hfix
  refine ⟨⟨g, doc, root, c, k, block, hg, hdoc, hfixed, hroot, hc, hb, hblock⟩, ?_, rfl⟩
  rw [Application.result, Application.text, ModFile.text, ModFile.text, loaded_of_buildFrom hb]

/-- The block is made for the file once it is read. -/
theorem Application.fixText_eq {f : ModFile} {d : Disk} (a : Application f d) :
    a.read.fixText d = (.ok a.block, a.built) := by
  unfold fixText buildGraphs
  rw [a.character_eq, ensureParsed_ensureParsed a.ensureParsed_eq]
  simp only [a.parsed_eq, a.root_eq, a.buildFrom_eq, a.block_eq]

/-- Stages that succeed make an application. -/
theorem Application.apply_eq {f : ModFile} {d : Disk} (a : Application f d) :
    f.apply d = (.ok (.applied a.built.toFix), a.result) := by
  unfold apply
  have hroot : a.document.root.isNone = false := by simp [a.root_eq]
  rw [a.ensureParsed_eq]
  simp only [a.parsed_eq, a.isFixed_eq, hroot, a.fixText_eq, a.text_built]
  rfl

/-! ## The text that results -/

theorem whole_ahead (t : Text) : Text.Whole (ahead t) := by
  unfold ahead
  simp only [Text.LineEnding.text_eq, ← List.append_assoc]
  exact Text.whole_append_newline _

theorem newline_not_mem_title (c : Character) : '\n' ∉ c.title ++ [' '] := by
  simp [Character.title]

/-- **The frame of the text that results**: the text, empty lines, a heading on a line of its own
and, at the end, the rule that closes it. -/
theorem Application.exists_text_eq {f : ModFile} {d : Disk} (a : Application f d) :
    ∃ body, a.text = ahead a.read.text ++
      (blockStyle.heading (a.character.title ++ [' ']) ++ (Text.lineEnding a.read.text).text ++
        (body ++ blockRule a.character.title)) := by
  obtain ⟨parts, -, hblock⟩ := Remap.exists_block_eq a.block_eq
  have hh := Remap.Fence.newline_not_mem_heading Remap.blockStyle_mem
    (newline_not_mem_title a.character)
  have hn : Text.withEnding (Text.lineEnding a.read.text) ['\n'] =
      (Text.lineEnding a.read.text).text := by
    cases Text.lineEnding a.read.text <;> rfl
  refine ⟨Text.withEnding (Text.lineEnding a.read.text)
    (Remap.credit a.character.title ++ parts.flatten ++ ['\n', '\n']), ?_⟩
  rw [Application.text, appended_eq, hblock, Remap.framed, List.append_cons, Text.withEnding_append,
    Text.withEnding_append, Text.withEnding_of_not_mem hh, hn, Text.withEnding_append,
    Text.withEnding_of_not_mem (Remap.newline_not_mem_blockRule _)]

/-- The text that results is fixed, whatever characters it is read for. -/
theorem Application.isFixed_ofText {f : ModFile} {d : Disk} (a : Application f d)
    (characters : List Character) (assumed : Option Character) :
    (Document.ofText characters assumed a.text).isFixed = true := by
  obtain ⟨body, ht⟩ := a.exists_text_eq
  have hn := newline_not_mem_title a.character
  have hh := Remap.Fence.newline_not_mem_heading Remap.blockStyle_mem hn
  have hmem : blockStyle.heading (a.character.title ++ [' ']) ++
      (Text.lineEnding a.read.text).text ∈ Text.lines a.text := by
    rw [ht, Text.lines_append (whole_ahead _), Text.lines_line_append hh]
    simp
  refine List.any_eq_true.2 ⟨_, hmem, ?_⟩
  rw [Document.isFixedLine, Ini.Line.isBlockHeading_append_blank (Text.LineEnding.blank _),
    Remap.isBlockHeading_heading Remap.blockStyle_mem hn, Bool.or_true]

/-- **Generated content is added once.** After an application that succeeds the file is fixed, and
another application changes nothing; nor does an application to any file with the same text,
whatever characters, variants and resources it is opened for. -/
theorem apply_idempotent {f f' : ModFile} {d : Disk} {variants : VariantSet}
    (h : f.apply d = (.ok (.applied variants), f')) :
    (∀ d', f'.isFixed d' = (.ok true, f') ∧ f'.apply d' = (.ok .alreadyFixed, f')) ∧
      ∀ (g g' : ModFile) (d' : Disk), g.parsed = none → g.load d' = .ok g' → g'.text = f'.text →
        (g.apply d').1 = .ok .alreadyFixed ∧ (g.apply d').2.text = f'.text := by
  obtain ⟨a, rfl, -⟩ := exists_application h
  constructor
  · intro d'
    have he := ensureParsed_of_parsed (a.load_result d') a.parsed_result
    have hf : a.result.document.isFixed = true := by
      rw [document, a.text_result]
      exact a.isFixed_ofText _ _
    constructor
    · rw [isFixed, ask, he]
      simp [a.parsed_result, hf]
    · rw [apply, he]
      simp [a.parsed_result, hf]
  · intro g g' d' hp hl ht
    have hp' : g'.parsed = none := by
      rcases load_spec hl with ⟨rfl, -⟩ | ⟨-, path, text, -, -, rfl⟩
      · exact hp
      · rfl
    have he : g.ensureParsed d' = .ok g'.withDocument := ensureParsed_eq_ok.2 ⟨g', hl, rfl⟩
    have hf : g'.document.isFixed = true := by
      rw [document, ht, a.text_result]
      exact a.isFixed_ofText _ _
    rw [apply, he]
    simp [parsed_withDocument hp', hf, ht]

/-! ## An application -/

/-- A character with one variant and no ids. -/
def raiden : Character := ⟨"Raiden".toList, [], .empty, ["RaidenBoss".toList], [], []⟩

/-- A mod file in memory that the character is assumed for. -/
def raidenFile (text : Text) : ModFile := (ofText text).withAssumed (some raiden)

/-- A blend override with one line. -/
def blendText : Text :=
  Text.unlines .lf ["[TextureOverrideRaidenBlend]".toList, "hash = 111".toList]

/-- The sections of the text. -/
def blendBodies : Ini.Bodies :=
  [("TextureOverrideRaidenBlend".toList, [.content [("hash".toList, "111".toList)]])]

/-- What is generated for the one variant. -/
def blendPart : Text :=
  Text.unlines .lf [[], [], "; ***** RaidenBoss *****".toList,
    "[TextureOverrideRaidenRaidenBossRemapBlend]".toList, "hash = 111".toList, []]

/-- The stages of an application to the blend override. -/
def blendApplication (d : Disk) : Application (raidenFile blendText) d :=
  .ofWalks 1 "TextureOverrideRaidenBlend".toList raiden blendBodies [] [] [blendPart]

/-- The file with the blend override is fixed after one application, and so is a file with the same
text that no character is assumed for. -/
theorem apply_idempotent_blend :
    (raidenFile blendText).apply .empty =
        (.ok (.applied (blendApplication .empty).built.toFix), (blendApplication .empty).result) ∧
      ((blendApplication .empty).result.apply .empty).1 = .ok .alreadyFixed ∧
      ((ofText (blendApplication .empty).result.text).apply .empty).1 = .ok .alreadyFixed := by
  have happly := (blendApplication .empty).apply_eq
  obtain ⟨hagain, hother⟩ := apply_idempotent happly
  have hopened := hother (ofText _) _ .empty rfl rfl rfl
  exact ⟨happly, congrArg Prod.fst (hagain .empty).2, hopened.1⟩

end Reskin.ModFile
