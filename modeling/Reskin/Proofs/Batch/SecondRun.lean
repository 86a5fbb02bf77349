import Reskin.Proofs.Batch.Stages
import Reskin.Proofs.ModFile.FixedText

/-!
# Second runs

A file that a batch has fixed is fixed again by the next run, from the text without generated
content. It stays as it is exactly if that text becomes the same again. For plain characters and a
text free of fences it is the text of the first run without its blank end, so that a settled text
stays, and one with a blank end that matters may not.

## Main results

* `Batch.stages_iff`: what both stages make of a text
* `Batch.process_unwritten_iff`: files that a run leaves as they are
* `Batch.exists_of_process_fixed`: files that a run has fixed
* `Batch.process_again`: the second run
-/

namespace Reskin

open Ini (Document)
open Remap.Fence (FenceFree)

namespace ModFile

variable {f g : ModFile} {d : Disk}

/-- **What is added is a fence.** -/
theorem Application.cut_text_ne_nil (a : Application f d) : (Remap.Fence.cut a.text).1 ≠ [] := by
  intro h
  obtain ⟨body, ht⟩ := a.exists_text_eq
  have hnone := Remap.Fence.cut_eq_self_iff.1 (Remap.Fence.cut_eq_self_of_nil h) _ _ ht
  obtain ⟨r, hr⟩ := Remap.exists_after?_frame (newline_not_mem_title a.character)
    a.character.title ((Text.lineEnding a.read.text).text ++ body) []
  rw [← List.append_assoc] at hnone
  simp only [List.append_assoc, List.append_nil] at hnone hr
  simp [hnone] at hr

end ModFile

namespace Batch

section Run

variable {b : Batch} (hb : b.IsDefault) {f g : ModFile} {d d₁ : Disk} {path c : Text}

include hb

/-- **Both stages**: generated content is removed from the text, and added to what is left. -/
theorem stages_iff {status : Status} :
    (∃ s, b.stages d (f.setText c).withDocument = .ok s ∧ s.file = g ∧ s.status = status) ↔
      ∃ e outcome, Remap.erase f.folder c = .ok e ∧
        (f.setText e.text).apply d = (.ok outcome, g) ∧ status = statusOf outcome := by
  have hundo := ModFile.undo_withDocument f d c
  cases he : Remap.erase f.folder c with
  | error fault =>
    rw [he] at hundo
    simp [stages, undoStage, hb.fixOnly, hundo, bind, Except.bind]
  | ok e =>
    rw [he] at hundo
    obtain ⟨status', removed, hstage⟩ : ∃ status removed,
        b.undoStage d (f.setText c).withDocument =
          .ok ⟨(f.setText e.text).withDocument, status, removed, []⟩ := by
      rw [undoStage, if_neg (by simp [hb.fixOnly]), hundo]
      simp only
      split
      · exact ⟨_, _, rfl⟩
      · exact ⟨_, _, rfl⟩
    have hrun : b.stages d (f.setText c).withDocument =
        b.applyStage d ⟨(f.setText e.text).withDocument, status', removed, []⟩ := by
      simp only [stages, hstage, bind, Except.bind]
    rw [hrun, applyStage, if_neg (by simp [hb.undoOnly]), ModFile.apply_withDocument rfl]
    cases happly : (f.setText e.text).apply d with
    | mk result k =>
      cases result with
      | error fault => simp [happly]
      | ok outcome => cases outcome <;> simp [happly, statusOf, eq_comm]

/-- **Files that a run leaves as they are**: those that are no mods, and those whose text comes back
from both stages. -/
theorem process_unwritten_iff (hopen : b.openFile path = .ok f) (hread : d.readText path = .ok c) :
    (∃ r, b.process d path = (.ok r, d) ∧ r.written = false) ↔
      (Document.ofText b.characters b.assumed c).isMod = false ∨
        ∃ e outcome g, Remap.erase f.folder c = .ok e ∧
          (f.setText e.text).apply d = (.ok outcome, g) ∧ g.text = c := by
  simp only [process_eq_ok_iff]
  constructor
  · rintro ⟨r, hrun, hr⟩
    cases hrun with
    | noMod _ hread' hmod =>
      obtain rfl := Except.ok.inj (hread.symm.trans hread')
      exact .inl hmod
    | kept hopen' hread' _ hs hsame =>
      obtain rfl := Except.ok.inj (hopen.symm.trans hopen')
      obtain rfl := Except.ok.inj (hread.symm.trans hread')
      obtain ⟨e, outcome, he, happly, -⟩ := (stages_iff hb).1 ⟨_, hs, rfl, rfl⟩
      exact .inr ⟨e, outcome, _, he, happly, hsame⟩
    | written => cases hr
  · intro h
    cases hmod : (Document.ofText b.characters b.assumed c).isMod with
    | false => exact ⟨_, .noMod hopen hread hmod, rfl⟩
    | true =>
      obtain ⟨e, outcome, g, he, happly, hg⟩ := h.resolve_left (by simp [hmod])
      obtain ⟨s, hs, rfl, -⟩ := (stages_iff hb).2 ⟨e, outcome, he, happly, rfl⟩
      exact ⟨_, .kept hopen hread hmod hs hg, rfl⟩

/-- **Files that a run has fixed** hold what their text becomes without generated content. -/
theorem exists_of_process_fixed {r : Report} {variants : List Text}
    (h : b.process d path = (.ok r, d₁)) (hr : r.status = .fixed variants) :
    ∃ f c e, b.openFile path = .ok f ∧ d.readText path = .ok c ∧
      Remap.erase f.folder c = .ok e ∧
      ∃ a : ModFile.Application (f.setText e.text) d, d₁.readText path = .ok a.text := by
  obtain ⟨f, c, t, hopen, hread, ht, a, -, -, hwritten⟩ := exists_application_of_process h hr
  rw [Cleared, if_neg (by simp [hb.fixOnly])] at ht
  obtain ⟨e, he, rfl⟩ := ht
  exact ⟨f, c, e, hopen, hread, he, a, hwritten⟩

/-- A run that writes. -/
theorem exists_process_written (hopen : b.openFile path = .ok f) (hread : d.readText path = .ok c)
    (hmod : (Document.ofText b.characters b.assumed c).isMod = true) {e : Remap.Erasure}
    (he : Remap.erase f.folder c = .ok e) (a : ModFile.Application (f.setText e.text) d)
    (hne : a.text ≠ c) (hwrite : d.writeText path a.text = .ok d₁) :
    ∃ r, b.process d path = (.ok r, d₁) ∧ r.status = .fixed a.built.toFix.toList ∧
      r.written = true := by
  obtain ⟨s, hs, hfile, hstatus⟩ := (stages_iff hb).2 ⟨e, _, he, a.apply_eq, rfl⟩
  have htext : s.file.text = a.text := by rw [hfile, a.text_result]
  exact ⟨_, process_eq_ok_iff.2 (.written hopen hread hmod hs (by rwa [htext]) (by rwa [htext])),
    hstatus, rfl⟩

end Run

/-! ## The second run -/

/-- A run is done with a file without writing it, and without touching anything else. -/
def Leaves (b : Batch) (d : Disk) (path : Text) : Prop :=
  ∃ r, b.process d path = (.ok r, d) ∧ r.written = false

theorem leaves_iff {b : Batch} (hb : b.IsDefault) {f : ModFile} {d d' : Disk} {path u : Text}
    (a : ModFile.Application (f.setText u) d') (hopen : b.openFile path = .ok f)
    (hread : d.readText path = .ok a.text) :
    b.Leaves d path ↔ (Document.ofText b.characters b.assumed a.text).isMod = false ∨
      ∃ e, Remap.erase f.folder a.text = .ok e ∧ f.fixedText e.text = some a.text := by
  rw [Leaves, process_unwritten_iff hb hopen hread]
  refine or_congr_right ⟨?_, ?_⟩
  · rintro ⟨e, outcome, g, he, happly, hg⟩
    refine ⟨e, he, (ModFile.fixedText_eq_some_iff d).2 ?_⟩
    rcases ModFile.text_of_apply happly with ⟨variants, rfl⟩ | hsame
    · obtain ⟨a', rfl, -⟩ := ModFile.exists_application happly
      exact ⟨a', by rw [← a'.text_result, hg]⟩
    · have := Remap.length_erase_lt he a.cut_text_ne_nil
      rw [← hsame, hg] at this
      exact absurd this (lt_irrefl _)
  · rintro ⟨e, he, hfixed⟩
    obtain ⟨a', ha'⟩ := (ModFile.fixedText_eq_some_iff d).1 hfixed
    exact ⟨e, _, _, he, a'.apply_eq, by rw [a'.text_result, ha']⟩

/-- Erasure of what a run has fixed, for plain characters. -/
theorem exists_erase_of_isPlain {f : ModFile} {d : Disk} {c : Text} {e : Remap.Erasure}
    (he : Remap.erase f.folder c = .ok e) (a : ModFile.Application (f.setText e.text) d)
    (hp : f.IsPlain) (hfree : FenceFree e.text) :
    ∃ e', Remap.erase f.folder a.text = .ok e' ∧ e'.text = Text.trimEnd e.text := by
  have hcurrent : (f.setText e.text).IsCurrent := ModFile.isCurrent_of_parsed rfl
  have hread : a.read.text = e.text := a.text_read rfl
  rw [← hread] at hfree
  obtain ⟨r, hr⟩ := a.exists_erase hcurrent ⟨hp.characters, hp.assumed⟩ hfree
    (by rw [hread]; exact Remap.clean_of_erase he) (.inl rfl : ModFile.MayFollow f.folder []) f.folder
  rw [List.append_nil] at hr
  refine ⟨_, hr, ?_⟩
  simp only [List.append_nil, ModFile.trimEnd_ahead, hread]

/-- **The second run.** A file that a batch has fixed is left as it is exactly if it no longer is
a mod, or if the text that erasure leaves of it becomes the same text again. For plain characters,
where the first run has added a block to a text free of fences, that is the text without its blank
end; so a settled text is left as it is. -/
theorem process_again {b : Batch} (hb : b.IsDefault) {d d₁ : Disk} {path : Text} {r : Report}
    {variants : List Text} (h : b.process d path = (.ok r, d₁))
    (hr : r.status = .fixed variants) :
    ∃ f c e n, b.openFile path = .ok f ∧ d.readText path = .ok c ∧
      Remap.erase f.folder c = .ok e ∧ f.fixedText e.text = some n ∧ d₁.readText path = .ok n ∧
      (b.Leaves d₁ path ↔ (Document.ofText b.characters b.assumed n).isMod = false ∨
        ∃ e', Remap.erase f.folder n = .ok e' ∧ f.fixedText e'.text = some n) ∧
      (f.IsPlain → FenceFree e.text →
        (b.Leaves d₁ path ↔ (Document.ofText b.characters b.assumed n).isMod = false ∨
          f.fixedText (Text.trimEnd e.text) = some n) ∧
        (ModFile.Settled e.text → b.Leaves d₁ path)) := by
  obtain ⟨f, c, e, hopen, hread, he, a, hn⟩ := exists_of_process_fixed hb h hr
  have hfixed : f.fixedText e.text = some a.text := (ModFile.fixedText_eq_some_iff d).2 ⟨a, rfl⟩
  refine ⟨f, c, e, a.text, hopen, hread, he, hfixed, hn, leaves_iff hb a hopen hn, ?_⟩
  intro hp hfree
  obtain ⟨e', he', htext⟩ := exists_erase_of_isPlain he a hp hfree
  have hplain : b.Leaves d₁ path ↔
      (Document.ofText b.characters b.assumed a.text).isMod = false ∨
        f.fixedText (Text.trimEnd e.text) = some a.text := by
    rw [leaves_iff hb a hopen hn, ← htext]
    refine or_congr_right ⟨?_, fun h => ⟨e', he', h⟩⟩
    rintro ⟨e'', he'', h⟩
    obtain rfl : e' = e'' := Except.ok.inj (he'.symm.trans he'')
    exact h
  exact ⟨hplain, fun hs => hplain.2 (.inr (ModFile.fixedText_trimEnd hs hfixed))⟩

/-! ## A folder with one file -/

/-- A batch for one character, with nothing else asked for. -/
def raidenBatch : Batch := ⟨.default, [ModFile.raiden], none⟩

theorem isDefault_raidenBatch : raidenBatch.IsDefault := ⟨rfl, rfl⟩

/-- The path of the one file. -/
def iniPath : Text := "a.ini".toList

/-- A disk with one file. -/
def oneFile (t : Text) : Disk := ⟨[([iniPath], .file t.utf8)]⟩

theorem writeText_oneFile (t t' : Text) : (oneFile t).writeText iniPath t' = .ok (oneFile t') := rfl

theorem readText_oneFile (t : Text) : (oneFile t).readText iniPath = .ok t :=
  Disk.readText_writeText (writeText_oneFile [] t)

/-- The file as the batch opens it. -/
def opened : ModFile :=
  (ModFile.ofPath iniPath).withCharacters raidenBatch.characters |>.withAssumed none |>.withVariants []

theorem openFile_raidenBatch : raidenBatch.openFile iniPath = .ok opened := by
  have hread : Pattern.read? managedByDefault = some opened.managed := by decide +kernel
  change (opened.withManaged managedByDefault) = .ok opened
  rw [ModFile.withManaged, hread]

theorem isPlain_opened : opened.IsPlain := ⟨by decide +kernel, by rintro c ⟨⟩⟩

/-- A run over a text that erasure leaves alone, once its stages are known. -/
theorem exists_process_of_clean {t : Text} (hcut : Remap.Fence.cut t = ([], t))
    (hclean : ∀ l ∈ Text.lines t, Remap.Clean l)
    (hmod : (Document.ofText raidenBatch.characters none t).isMod = true)
    (a : ModFile.Application (opened.setText t) (oneFile t)) (hne : a.text ≠ t) :
    ∃ r, raidenBatch.process (oneFile t) iniPath = (.ok r, oneFile a.text) ∧
      r.status = .fixed a.built.toFix.toList ∧ r.written = true :=
  exists_process_written isDefault_raidenBatch openFile_raidenBatch (readText_oneFile t) hmod
    (Remap.erase_of_clean _ hcut hclean) a hne (writeText_oneFile t a.text)

/-- The stages of an application to the blend override, in a file of the batch. -/
def openedApplication (d : Disk) : ModFile.Application (opened.setText ModFile.blendText) d :=
  .ofWalks 1 "TextureOverrideRaidenBlend".toList ModFile.raiden
    ModFile.blendBodies [] [] [ModFile.blendPart]

theorem text_openedApplication (d : Disk) : (openedApplication d).text =
    ModFile.appended ModFile.blendText (Remap.framed ModFile.raiden.title [ModFile.blendPart]) := rfl

/-- The file with the blend override is fixed by one run and left as it is by the next. -/
theorem process_again_blend : ∃ r d₁,
    raidenBatch.process (oneFile ModFile.blendText) iniPath = (.ok r, d₁) ∧
      r.status = .fixed ["RaidenBoss".toList] ∧ raidenBatch.Leaves d₁ iniPath := by
  have hsettled : ModFile.Settled ModFile.blendText :=
    .inr ⟨by decide +kernel, "hash = 111".toList, by decide +kernel, by decide +kernel,
      by decide +kernel⟩
  have hclean := Remap.leavesAlone_iff.1 (ModFile.leavesAlone_blendText [])
  have hvariants : (openedApplication (oneFile ModFile.blendText)).built.toFix.toList =
      ["RaidenBoss".toList] := by decide +kernel
  obtain ⟨r, hrun, hstatus, -⟩ := exists_process_of_clean hclean.1 hclean.2 (by decide +kernel)
    (openedApplication _) (by rw [text_openedApplication]; decide +kernel)
  refine ⟨r, _, hrun, hstatus.trans (by rw [hvariants]), ?_⟩
  obtain ⟨f, c, e, n, hopen, hread, he, -, -, -, hplain⟩ :=
    process_again isDefault_raidenBatch hrun hstatus
  obtain rfl : opened = f := Except.ok.inj (openFile_raidenBatch.symm.trans hopen)
  obtain rfl : ModFile.blendText = c :=
    Except.ok.inj ((readText_oneFile ModFile.blendText).symm.trans hread)
  have htext : e = ⟨ModFile.blendText, 0, [], 0, []⟩ :=
    Except.ok.inj (he.symm.trans (Remap.erase_of_clean _ hclean.1 hclean.2))
  rw [htext] at hplain
  exact (hplain isPlain_opened (Remap.Fence.fenceFree_of_not_mem (by decide))).2 hsettled

/-! ## A file with one line -/

/-- A header, and the end of its line. -/
def wideText : Text := Text.unlines .crlf ["[TextureOverrideRaidenBlend]".toList]

/-- The section of the header has no lines. -/
def bareBodies : Ini.Bodies := [("TextureOverrideRaidenBlend".toList, [.content []])]

/-- What is generated for the one variant. -/
def barePart : Text :=
  Text.unlines .lf [[], [], "; ***** RaidenBoss *****".toList,
    "[TextureOverrideRaidenRaidenBossRemapBlend]".toList, []]

/-- The stages of an application to the line. -/
def wideApplication (d : Disk) : ModFile.Application (opened.setText wideText) d :=
  .ofWalks 1 "TextureOverrideRaidenBlend".toList ModFile.raiden bareBodies [] [] [barePart]

/-- The stages of an application to the line without its end. -/
def narrowApplication (d : Disk) :
    ModFile.Application (opened.setText (Text.trimEnd wideText)) d :=
  .ofWalks 1 "TextureOverrideRaidenBlend".toList ModFile.raiden bareBodies [] [] [barePart]

/-- What the first run makes of the line: all of it has the ending of the line. -/
def wideFixed : Text := ModFile.appended wideText
  (Remap.framed ModFile.raiden.title [barePart])

/-- What the second run makes of it: nothing of it has. -/
def narrowFixed : Text := ModFile.appended (Text.trimEnd wideText)
  (Remap.framed ModFile.raiden.title [barePart])

/-- **The end of the first line** goes with the block, and with it the line ending of the file: the
second run writes the file anew. -/
theorem process_again_wide : ∃ r r',
    raidenBatch.process (oneFile wideText) iniPath = (.ok r, oneFile wideFixed) ∧
      r.status = .fixed ["RaidenBoss".toList] ∧
      raidenBatch.process (oneFile wideFixed) iniPath = (.ok r', oneFile narrowFixed) ∧
      r'.written = true ∧ narrowFixed ≠ wideFixed ∧ ¬ raidenBatch.Leaves (oneFile wideFixed) iniPath := by
  have hcut : Remap.Fence.cut wideText = ([], wideText) := Remap.Fence.cut_of_not_mem (by decide)
  have hclean : ∀ l ∈ Text.lines wideText, Remap.Clean l := by decide +kernel
  have hne : narrowFixed ≠ wideFixed := by decide +kernel
  have hvariants : (wideApplication (oneFile wideText)).built.toFix.toList =
      ["RaidenBoss".toList] := by decide +kernel
  obtain ⟨r, hrun, hstatus, -⟩ := exists_process_of_clean hcut hclean (by decide +kernel)
    (wideApplication _) (by change wideFixed ≠ wideText; decide +kernel)
  obtain ⟨⟨t, blocks, sections, comments, resources⟩, he, ht⟩ := exists_erase_of_isPlain
    (Remap.erase_of_clean opened.folder hcut hclean) (wideApplication (oneFile wideText))
    isPlain_opened (Remap.Fence.fenceFree_of_not_mem (by decide))
  obtain rfl : t = Text.trimEnd wideText := ht
  obtain ⟨r', hrun', -, hwritten⟩ := exists_process_written isDefault_raidenBatch openFile_raidenBatch
    (readText_oneFile wideFixed) (by decide +kernel) he (narrowApplication _) hne
    (writeText_oneFile wideFixed narrowFixed)
  refine ⟨r, r', hrun, hstatus.trans (by rw [hvariants]), hrun', hwritten, hne, ?_⟩
  rintro ⟨r'', hrun'', hunwritten⟩
  obtain rfl : r' = r'' := Except.ok.inj (Prod.mk.inj (hrun'.symm.trans hrun'')).1
  simp [hwritten] at hunwritten

end Batch

end Reskin
