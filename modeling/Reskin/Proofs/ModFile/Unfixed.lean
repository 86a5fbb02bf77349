import Reskin.Proofs.ModFile.RoundTrip
import Reskin.Proofs.Remap.Missing

/-!
# Whether a file is fixed after removal

A file is fixed if some line is the header of a generated blend override or begins with the heading
of a block, whatever follows the heading. Removal takes every generated header, but of the headings
that no rule closes only those with nothing behind them. So after removal a file is fixed exactly if
such a heading with more on its line is left, and then generated content is not added to it.

## Main results

* `Ini.Line.isFixedLine_iff_of_clean`: the lines that are left and show that a file is fixed
* `ModFile.apply_alreadyFixed_iff`: when generated content is not added
* `ModFile.isFixed_undo`: whether a file is fixed after removal
-/

namespace Reskin

open Ini (Document Line.isBlockHeading Line.isBoilerplate)
open Remap (Clean LeavesAlone)

namespace Ini.Line

/-- The heading of a block is no header of a section. -/
theorem isHeader_eq_false_of_isBlockHeading {l : Text} (h : isBlockHeading l = true) :
    isHeader l = false := by
  rw [isBlockHeading_eq] at h
  apply isHeader_eq_false
  split at h
  · next rest hd =>
    rw [Text.dropStart?_eq_some.1 hd]
    simp [headingStart]
  · simp at h

/-- The header of a generated blend override is a generated header. -/
theorem isGeneratedHeader_of_isRemapBlendHeader {l : Text} (hl : '\n' ∉ l)
    (h : isRemapBlendHeader l = true) : isHeader l = true ∧ isGeneratedHeader l = true := by
  unfold isRemapBlendHeader isOverrideHeader at h
  cases hb : afterBracket? l with
  | none => simp [hb] at h
  | some rest =>
    cases ho : Text.dropStart? textureOverride (Text.trimStart rest) with
    | none => simp [hb, ho] at h
    | some rest' =>
      have hclosed : closedAfter Naming.remapBlendMark rest' = true := by simpa [hb, ho] using h
      obtain ⟨a, b, hab, hm⟩ := closedAfter_iff.1 hclosed
      obtain ⟨w, -, hw⟩ := Text.exists_append_trimStart rest
      rw [Text.dropStart?_eq_some.1 ho] at hw
      have hrest : '\n' ∉ rest := fun hn => hl ((Text.trimStart_infix_self l).subset (by
        simp [Text.dropStart?_eq_some.1 hb, hn]))
      have hrest' : '\n' ∉ rest' := fun hn => hrest (by simp [hw, hn])
      rw [visible_eq_self hrest'] at hab
      have hvisible : visible rest = (w ++ textureOverride ++ a) ++ ']' :: b := by
        rw [visible_eq_self hrest, hw, hab]
        simp
      constructor
      · simp [isHeader, hb, hvisible]
      · have := closedAfter_iff.2 ⟨_, b, hvisible, List.infix_append_of_infix_right hm⟩
        simp [isGeneratedHeader, hb, this]

/-- **Of the lines that removal leaves** those show that a file is fixed that begin with a heading
and have more behind it. -/
theorem isFixedLine_iff_of_clean {t line : Text} (hl : line ∈ Text.lines t) (hc : Clean line) :
    Document.isFixedLine line = true ↔ isBlockHeading line = true ∧ isBoilerplate line = false := by
  have hblend : isRemapBlendHeader line = false := by
    rw [Bool.eq_false_iff]
    intro h
    obtain ⟨l, hn, hline⟩ := Text.exists_of_mem_lines hl
    have hb : Text.Blank ['\n'] := Text.LineEnding.blank .lf
    have hsame : Clean l ∧ isRemapBlendHeader l = true := by
      rcases hline with rfl | rfl
      · exact ⟨hc, h⟩
      · exact ⟨(Remap.clean_append_blank hb).1 hc,
          (isOverrideHeader_append_blank hb Naming.remapBlendMark l).symm.trans h⟩
    obtain ⟨hh, hg⟩ := isGeneratedHeader_of_isRemapBlendHeader hn hsame.2
    have := hsame.1
    rw [Clean, if_pos hh, hg] at this
    simp at this
  rw [Document.isFixedLine, hblend, Bool.false_or]
  refine ⟨fun h => ⟨h, ?_⟩, And.left⟩
  have := hc
  rwa [Clean, isHeader_eq_false_of_isBlockHeading h, if_neg (by simp)] at this

end Ini.Line

namespace ModFile

/-! ## When generated content is not added -/

theorem document_withDocument (f : ModFile) : f.withDocument.document = f.document := by
  rw [withDocument_eq]
  rfl

/-- **Generated content is not added** to a current file exactly if its text is fixed. -/
theorem apply_alreadyFixed_iff {f g : ModFile} {d : Disk} (hf : f.IsCurrent)
    (hload : f.load d = .ok g) :
    (f.apply d).1 = .ok .alreadyFixed ↔ g.document.isFixed = true := by
  have he : f.ensureParsed d = .ok g.withDocument := ensureParsed_eq_ok.2 ⟨g, hload, rfl⟩
  obtain ⟨doc, hdoc⟩ := Option.isSome_iff_exists.1 (parsed_withDocument_isSome g)
  obtain rfl : doc = g.document := by
    rw [hf.eq_document he hdoc, document_withDocument]
  obtain ⟨x, hx⟩ : ∃ x, f.apply d = x := ⟨_, rfl⟩
  rw [hx]
  cases (apply_eq_iff he hdoc).1 hx with
  | alreadyFixed hfixed => simp [hfixed]
  | noRoot hfixed => simp [hfixed]
  | failed hfixed => simp [hfixed]
  | applied hfixed => simp [hfixed]

/-! ## After removal -/

/-- A text that removal leaves is fixed exactly if a heading with more behind it is left. -/
theorem isFixed_ofText_iff_of_clean {t : Text} (h : ∀ l ∈ Text.lines t, Clean l)
    (characters : List Character) (assumed : Option Character) :
    (Document.ofText characters assumed t).isFixed = true ↔
      ∃ l ∈ Text.lines t, Line.isBlockHeading l = true ∧ Line.isBoilerplate l = false := by
  refine List.any_eq_true.trans (exists_congr fun l => and_congr_right fun hl => ?_)
  exact Ini.Line.isFixedLine_iff_of_clean hl (h l hl)

/-- The lines that erasure leaves are, up to their blank ends, lines of the text without fences. -/
theorem exists_line_of_erase {folder t : Text} {r : Remap.Erasure}
    (h : Remap.erase folder t = .ok r) {l : Text} (hl : l ∈ Text.lines r.text) :
    ∃ l' ∈ Text.lines (Remap.Fence.cut t).2, Text.trimEnd l' = Text.trimEnd l := by
  rw [(Remap.erase_spec h).2.2.2] at hl
  split at hl
  · next hu =>
    obtain ⟨hcut, -⟩ := Remap.leavesAlone_iff.1 ⟨r, h, hu⟩
    exact ⟨l, by rwa [hcut], rfl⟩
  · obtain ⟨l', hl', he⟩ := Text.exists_line_of_mem_trimEnd hl
    rw [Text.lines_flatten_of_sublist (Remap.kept_sublist _ _)] at hl'
    exact ⟨l', (Remap.kept_sublist _ _).subset hl', he⟩

/-- **Whether a file is fixed after removal.** Its text is fixed, whatever characters it is read for,
exactly if a heading is left that has more behind it on its line, and then, and only then, generated
content is not added to a file with this text. So it is not fixed, and generated content is added,
if no line of the text without its fences has such a heading. -/
theorem isFixed_undo {k k' u : ModFile} {d : Disk} {r : Remap.Erasure} (hk : k.load d = .ok k')
    (hu : k.undo d = (.ok r, u)) :
    (∀ characters assumed, (Document.ofText characters assumed u.text).isFixed = true ↔
      ∃ l ∈ Text.lines u.text, Line.isBlockHeading l = true ∧ Line.isBoilerplate l = false) ∧
    (∀ (f g : ModFile) (d' : Disk), f.IsCurrent → f.load d' = .ok g → g.text = u.text →
      ((f.apply d').1 = .ok .alreadyFixed ↔
        ∃ l ∈ Text.lines u.text, Line.isBlockHeading l = true ∧ Line.isBoilerplate l = false)) ∧
    ((∀ l ∈ Text.lines (Remap.Fence.cut k'.text).2, Line.isBlockHeading l = true →
        Line.isBoilerplate l = true) →
      (∀ characters assumed, (Document.ofText characters assumed u.text).isFixed = false) ∧
        ∀ (f g : ModFile) (d' : Disk), f.IsCurrent → f.load d' = .ok g → g.text = u.text →
          (f.apply d').1 ≠ .ok .alreadyFixed) := by
  obtain ⟨herase, htext⟩ := erase_of_undo hk hu
  have hclean : ∀ l ∈ Text.lines u.text, Clean l := htext ▸ Remap.clean_of_erase herase
  have hfixed := isFixed_ofText_iff_of_clean hclean
  have happly (f g : ModFile) (d' : Disk) (hf : f.IsCurrent) (hload : f.load d' = .ok g)
      (hg : g.text = u.text) : (f.apply d').1 = .ok .alreadyFixed ↔
        ∃ l ∈ Text.lines u.text, Line.isBlockHeading l = true ∧ Line.isBoilerplate l = false := by
    rw [apply_alreadyFixed_iff hf hload, document, hg]
    exact hfixed _ _
  refine ⟨hfixed, happly, fun h => ?_⟩
  have hnone : ¬ ∃ l ∈ Text.lines u.text,
      Line.isBlockHeading l = true ∧ Line.isBoilerplate l = false := by
    rintro ⟨l, hl, hheading, hmore⟩
    obtain ⟨l', hl', he⟩ := exists_line_of_erase herase (htext ▸ hl)
    have hsame : Line.isBlockHeading l' = Line.isBlockHeading l :=
      Text.eq_of_trimEnd_eq (fun _ hw t => Ini.Line.isBlockHeading_append_blank hw t) he
    have hsame' : Line.isBoilerplate l' = Line.isBoilerplate l :=
      Text.eq_of_trimEnd_eq (fun _ hw t => Ini.Line.isBoilerplate_append_blank hw t) he
    have := h l' hl' (hsame.trans hheading)
    rw [hsame', hmore] at this
    simp at this
  constructor
  · intro characters assumed
    rw [Bool.eq_false_iff, ne_eq, hfixed]
    exact hnone
  · intro f g d' hf hload hg
    rw [ne_eq, happly f g d' hf hload hg]
    exact hnone

/-- A blend override, and the heading of a block that has lost its rule. -/
def leftoverText : Text := Text.unlines .lf ["[TextureOverrideRaidenBlend]".toList,
  "hash = 111".toList, "; --------------- Raiden Remap ---------------".toList]

/-- The heading goes, and generated content can be added again. -/
theorem isFixed_undo_leftover : ∃ r u, (raidenFile leftoverText).undo .empty = (.ok r, u) ∧
    u.text = Text.unlines .lf ["[TextureOverrideRaidenBlend]".toList] ++ "hash = 111".toList ∧
    (Document.ofText [raiden] none u.text).isFixed = false ∧
    ((raidenFile u.text).apply .empty).1 ≠ .ok .alreadyFixed := by
  have hcut : Remap.Fence.cut leftoverText = ([], leftoverText) :=
    Remap.Fence.cut_eq_self_of_tails (by decide +kernel)
  have hstray : Remap.strayNames leftoverText = [] := by
    rw [Remap.strayNames, hcut]
    decide +kernel
  obtain ⟨r, hr⟩ := (Remap.exists_erase_iff (raidenFile leftoverText).folder).2 fun n => by
    rw [hcut, hstray]
    exact ⟨by simp [Remap.Misses, Remap.fencedNames], by simp [Remap.Misses]⟩
  have hload : (raidenFile leftoverText).load .empty = .ok (raidenFile leftoverText) := rfl
  obtain ⟨u, hu, ht⟩ := exists_undo_of_erase hload hr
  have hheading : ∀ l ∈ Text.lines (Remap.Fence.cut leftoverText).2,
      Line.isBlockHeading l = true → Line.isBoilerplate l = true := by
    rw [hcut]
    decide +kernel
  obtain ⟨hdoc, happly⟩ := (isFixed_undo hload hu).2.2 hheading
  refine ⟨r, u, hu, ?_, hdoc _ _,
    happly (raidenFile u.text) _ .empty (isCurrent_of_parsed rfl) rfl rfl⟩
  obtain ⟨-, -, hcomments, htext⟩ := Remap.erase_spec hr
  have hchanged : r.isUnchanged ≠ true := by
    have hone : (Remap.sweep false (Text.lines leftoverText)).comments = 1 := by decide +kernel
    have hcomments : r.comments = 1 := by
      rw [hcomments, hcut, hone]
    simp [Remap.Erasure.isUnchanged_iff, hcomments]
  rw [ht, htext, if_neg hchanged, hcut]
  decide +kernel

/-! ## A heading with more behind it -/

/-- A blend override, and a heading with a word behind it. -/
def remarkText : Text := Text.unlines .lf ["[TextureOverrideRaidenBlend]".toList,
  "hash = 111".toList, "; --------------- Raiden Remap --------------- (old)".toList]

/-- **A heading with a word behind it** is left, so the file is fixed after removal and generated
content is not added. -/
theorem isFixed_undo_remark : ∃ r u, (raidenFile remarkText).undo .empty = (.ok r, u) ∧
    u.text = remarkText ∧ (∀ characters assumed,
      (Document.ofText characters assumed u.text).isFixed = true) ∧
    (u.apply .empty).1 = .ok .alreadyFixed := by
  have hclean : ∀ l ∈ Text.lines remarkText, Clean l := by decide +kernel
  have herase := Remap.erase_of_clean (raidenFile remarkText).folder
    (Remap.Fence.cut_eq_self_of_tails (by decide +kernel)) hclean
  have hfixed (characters : List Character) (assumed : Option Character) :
      (Document.ofText characters assumed remarkText).isFixed = true := by
    have : (Text.lines remarkText).any Document.isFixedLine = true := by decide +kernel
    exact this
  refine ⟨_, _, undo_eq_of_erase (k := raidenFile remarkText) rfl herase, rfl, hfixed, ?_⟩
  have hsound : (raidenFile remarkText).withDocument.IsSound :=
    (IsSound.of_parsed (.inr rfl) rfl).withDocument rfl
  exact (apply_alreadyFixed_iff hsound.current rfl).2 (hfixed _ _)

end ModFile

end Reskin
