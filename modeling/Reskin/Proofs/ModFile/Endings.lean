import Reskin.Proofs.ModFile.Answers
import Reskin.Proofs.Remap.Endings

/-!
# Mod files with other line endings

A file whose lines end in carriage returns and line feeds is treated as the same file with plain line
feeds. Its document is the same, so the same graphs are built and the same block is made; the block
takes the line ending of the first line, and removal keeps that of every line. What one file answers
the other one answers, and the text that one is left with is that of the other with its ending.

This needs a line feed in the text, since a text without one does not tell its ending, and root
patterns that do not tell the two endings apart.

## Main definitions

* `ModFile.reload`: a file with the same document and another text

## Main results

* `ModFile.appended_withEnding`: a block behind a text with the other ending
* `ModFile.fixText_reload`: the block does not depend on the text beyond its document
* `ModFile.answers_withEnding`: reading, adding content and removing it
-/

namespace Reskin

open Ini (Document)
open Text (LineEnding withEnding)

namespace ModFile

/-! ## Another text with the same document -/

/-- The file with another text in the place of its own, of which the document is kept. -/
def reload (f : ModFile) (t : Text) : ModFile := { f with loaded := some t }

variable {f : ModFile} {d d' : Disk} {t : Text}

/-- **Graphs are built from the document**, whatever the text. -/
theorem buildFrom_reload (f : ModFile) (t : Text) (doc : Document) (root : Text) :
    (f.reload t).buildFrom doc root =
      ((f.buildFrom doc root).1, (f.buildFrom doc root).2.reload t) := by
  obtain ⟨x, hx⟩ : ∃ x, f.buildFrom doc root = x := ⟨_, rfl⟩
  rw [hx]
  cases buildFrom_eq_iff.1 hx with
  | noBlend hb => exact buildFrom_eq_iff.2 (.noBlend hb)
  | noOthers hb ho => exact buildFrom_eq_iff.2 (.noOthers hb ho)
  | noResources hb ho hr => exact buildFrom_eq_iff.2 (.noResources hb ho hr)
  | all hb ho hr => exact buildFrom_eq_iff.2 (.all hb ho hr)

theorem ensureParsed_reload {doc : Document} (hdoc : f.parsed = some doc) :
    (f.reload t).ensureParsed d = .ok (f.reload t) :=
  ensureParsed_of_parsed (load_of_loaded rfl d) hdoc

/-- **The block is made from the document**, whatever the text. -/
theorem fixText_reload {doc : Document} (hl : f.loaded.isSome = true) (hdoc : f.parsed = some doc) :
    (f.reload t).fixText d' = ((f.fixText d).1, (f.fixText d).2.reload t) := by
  have hread : f.ensureParsed d = .ok f := ensureParsed_of_parsed (load_of_loaded hl d) hdoc
  have hc : (f.reload t).availableCharacter = f.availableCharacter := rfl
  rw [fixText, fixText, hc, buildGraphs_eq (ensureParsed_reload hdoc) hdoc, buildGraphs_eq hread hdoc]
  cases f.availableCharacter with
  | none => rfl
  | some c =>
    cases doc.root with
    | none => rfl
    | some root =>
      simp only [buildFrom_reload]
      rcases f.buildFrom doc root with ⟨fault | _, k⟩ <;> rfl

/-! ## Blocks -/

/-- **A block behind a text with the other ending** is the block behind the text, all of it with that
ending. -/
theorem appended_withEnding (hr : '\r' ∉ t) (hn : '\n' ∈ t) (block : Text) :
    appended (withEnding .crlf t) block = withEnding .crlf (appended t block) := by
  have hfeed : Text.lineEnding t = .lf := Text.lineEnding_withEnding .lf hr hn
  have hline : withEnding .crlf LineEnding.lf.text = LineEnding.crlf.text := rfl
  have hblock : withEnding .lf block = block := rfl
  simp only [appended, Text.lineEnding_withEnding .crlf hr hn, hfeed, Text.trimEnd_withEnding,
    Text.withEnding_append, hline, hblock]

/-! ## Operations -/

section Operations

variable (hdoc : Document.ofText f.characters f.assumed (withEnding .crlf t) =
  Document.ofText f.characters f.assumed t)

include hdoc

/-- Once both are read, one file is the other one with another text. -/
theorem withDocument_withEnding : (f.setText (withEnding .crlf t)).withDocument =
    (f.setText t).withDocument.reload (withEnding .crlf t) := by
  simp only [withDocument, setText, reload, document, text, Option.getD_some, hdoc]

/-- **Adding content** comes to the same, with the other ending. -/
theorem apply_withEnding (hr : '\r' ∉ t) (hn : '\n' ∈ t) (d d' : Disk) :
    ((f.setText (withEnding .crlf t)).apply d').1 = ((f.setText t).apply d).1 ∧
      ((f.setText (withEnding .crlf t)).apply d').2.text =
        withEnding .crlf ((f.setText t).apply d).2.text := by
  obtain ⟨k, hk⟩ : ∃ k, (f.setText t).withDocument = k := ⟨_, rfl⟩
  have hloaded : k.loaded.isSome = true := by rw [← hk, loaded_withDocument]; rfl
  have htext : k.text = t := by rw [← hk]; exact text_withDocument _
  obtain ⟨doc, hparsed⟩ : ∃ doc, k.parsed = some doc :=
    ⟨_, hk ▸ parsed_withDocument (f := f.setText t) rfl⟩
  have hread : (f.setText t).ensureParsed d = .ok k :=
    hk ▸ ensureParsed_of_load (load_of_loaded rfl d)
  have hread' : (f.setText (withEnding .crlf t)).ensureParsed d' =
      .ok (k.reload (withEnding .crlf t)) := by
    rw [ensureParsed_of_load (load_of_loaded rfl d'), withDocument_withEnding hdoc, hk]
  have hreload : (k.reload (withEnding .crlf t)).parsed = some doc := hparsed
  have hblock : (k.reload (withEnding .crlf t)).fixText d' =
      ((k.fixText d).1, (k.fixText d).2.reload (withEnding .crlf t)) :=
    fixText_reload hloaded hparsed
  have hkept : (k.fixText d).2.text = t := (sameTask_fixText hloaded d).text.trans htext
  obtain ⟨x, hx⟩ : ∃ x, (f.setText t).apply d = x := ⟨_, rfl⟩
  rw [hx]
  cases (apply_eq_iff hread hparsed).1 hx with
  | alreadyFixed hfixed =>
    rw [(apply_eq_iff hread' hreload).2 (.alreadyFixed hfixed), htext]
    exact ⟨rfl, rfl⟩
  | noRoot hfixed hroot =>
    rw [(apply_eq_iff hread' hreload).2 (.noRoot hfixed hroot), htext]
    exact ⟨rfl, rfl⟩
  | failed hfixed hroot hfix =>
    rw [hfix] at hblock hkept
    rw [(apply_eq_iff hread' hreload).2 (.failed hfixed hroot hblock), hkept]
    exact ⟨rfl, rfl⟩
  | applied hfixed hroot hfix =>
    rw [hfix] at hblock hkept
    rw [(apply_eq_iff hread' hreload).2 (.applied hfixed hroot hblock), text_withDocument,
      text_withDocument, hkept]
    exact ⟨rfl, appended_withEnding hr hn _⟩

end Operations

/-- **Removing content** comes to the same, with the other ending. -/
theorem undo_withEnding (f : ModFile) (e : LineEnding) (t : Text) (d d' : Disk) :
    ((f.setText (withEnding e t)).undo d').1 =
        ((f.setText t).undo d).1.map (fun r => { r with text := withEnding e r.text }) ∧
      ((f.setText (withEnding e t)).undo d').2.text =
        withEnding e ((f.setText t).undo d).2.text := by
  have hload : (f.setText t).load d = .ok (f.setText t) := load_of_loaded rfl d
  have hload' : (f.setText (withEnding e t)).load d' = .ok (f.setText (withEnding e t)) :=
    load_of_loaded rfl d'
  have herase := Remap.erase_withEnding e f.folder t
  cases hr : Remap.erase f.folder t with
  | error fault =>
    rw [hr] at herase
    rw [undo_eq_of_erase_error hload hr, undo_eq_of_erase_error hload' herase, text_withDocument,
      text_withDocument]
    exact ⟨rfl, rfl⟩
  | ok r =>
    rw [hr] at herase
    obtain ⟨u, hu, htext⟩ := exists_undo_of_erase hload hr
    obtain ⟨u', hu', htext'⟩ := exists_undo_of_erase hload' herase
    rw [hu, hu', htext, htext']
    exact ⟨rfl, rfl⟩

/-- **The line ending does not matter.** A text with a line feed and no carriage returns, and the
same text with a carriage return ahead of every line feed, hold the same document, unless a root
pattern tells the two endings apart. Adding content to a file with the one has the same outcome or
fault as adding it to the file with the other, and removing it takes the same or fails alike. Either
time the texts that are left differ as they did before. -/
theorem answers_withEnding (f : ModFile) (hc : ∀ c ∈ f.characters, c.IgnoresEnding) {t : Text}
    (hr : '\r' ∉ t) (hn : '\n' ∈ t) (d d' : Disk) :
    Document.ofText f.characters f.assumed (withEnding .crlf t) =
        Document.ofText f.characters f.assumed t ∧
      (((f.setText (withEnding .crlf t)).apply d').1 = ((f.setText t).apply d).1 ∧
        ((f.setText (withEnding .crlf t)).apply d').2.text =
          withEnding .crlf ((f.setText t).apply d).2.text) ∧
      ((f.setText (withEnding .crlf t)).undo d').1 =
          ((f.setText t).undo d).1.map (fun r => { r with text := withEnding .crlf r.text }) ∧
        ((f.setText (withEnding .crlf t)).undo d').2.text =
          withEnding .crlf ((f.setText t).undo d).2.text := by
  have hdoc := Document.ofText_withEnding hc hr f.assumed
  exact ⟨hdoc, apply_withEnding hdoc hr hn d d', undo_withEnding f .crlf t d d'⟩

theorem ignoresEnding_raiden : raiden.IgnoresEnding := by
  have hroot (header : Text) : raiden.isRoot header = true := by cases header <;> rfl
  intro header _ _ _
  rw [hroot, hroot]

/-- A file without a text that may belong to the character. -/
def askedFile : ModFile := (ofText []).withCharacters [raiden]

/-- The stages of an application to the blend override, in that file. -/
def askedApplication (d : Disk) : Application (askedFile.setText blendText) d :=
  .ofWalks 1 "TextureOverrideRaidenBlend".toList raiden blendBodies [] [] [blendPart]

/-- The blend override with carriage returns is fixed like the one without. -/
theorem answers_withEnding_blend :
    (∀ c ∈ askedFile.characters, c.IgnoresEnding) ∧ '\r' ∉ blendText ∧ '\n' ∈ blendText ∧
      ((askedFile.setText (withEnding .crlf blendText)).apply .empty).1 =
        .ok (.applied (askedApplication .empty).built.toFix) ∧
      ((askedFile.setText (withEnding .crlf blendText)).apply .empty).2.text =
        withEnding .crlf (askedApplication .empty).text := by
  have hc : ∀ c ∈ askedFile.characters, c.IgnoresEnding := by
    intro c hc
    obtain rfl := List.mem_singleton.1 hc
    exact ignoresEnding_raiden
  have hr : '\r' ∉ blendText := by decide +kernel
  have hn : '\n' ∈ blendText := by decide +kernel
  obtain ⟨-, ⟨houtcome, htext⟩, -⟩ := answers_withEnding askedFile hc hr hn .empty .empty
  rw [(askedApplication .empty).apply_eq] at houtcome htext
  exact ⟨hc, hr, hn, houtcome, htext.trans (by rw [Application.text_result])⟩

end ModFile

end Reskin
