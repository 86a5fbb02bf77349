import Mathlib.Data.List.Find
import Reskin.Proofs.Ini.Readings
import Reskin.Proofs.Text.Endings

/-!
# Documents with other line endings

A document does not tell how the lines of its text end. What a line is, what the name of a header is,
and what a line assigns is read without the blanks at its end; only a pattern that is searched in a
header sees the ending. Where the patterns of root sections give the same answer for either ending,
the document is the same.

## Main definitions

* `Character.IgnoresEnding`: characters whose root pattern does not tell line endings apart
* `Ini.Line.SameRoot`: headers that are the roots of the same characters

## Main results

* `Ini.Document.ofLines_of_alike`: lines that are read alike make one document
* `Ini.Document.ofText_withEnding`, `Ini.Document.plain_withEnding`: the document of a text that is
  written with another line ending
-/

namespace Reskin

open Text (LineEnding withEnding)

/-- **The root pattern does not tell line endings apart**: it gives the same answer for a header with
either of them. -/
def Character.IgnoresEnding (c : Character) : Prop :=
  ∀ header, '\n' ∉ header → '\r' ∉ header → Ini.Line.isHeader header = true →
    c.isRoot (header ++ LineEnding.crlf.text) = c.isRoot (header ++ LineEnding.lf.text)

namespace Ini

/-! ## Lines -/

namespace Line

variable {t line : Text}

/-- What is read without the blanks at the end is read alike with any ending. -/
theorem eq_withEnding {α : Type} {f : Text → α} (hf : ∀ w, Text.Blank w → ∀ l, f (l ++ w) = f l)
    (e : LineEnding) (h : line ∈ Text.lines t) : f (withEnding e line) = f line :=
  Text.eq_of_trimEnd_eq hf (Text.trimEnd_withEnding_of_mem_lines e h)

theorem isHeader_withEnding (e : LineEnding) (h : line ∈ Text.lines t) :
    isHeader (withEnding e line) = isHeader line :=
  eq_withEnding (fun _ => isHeader_append_blank) e h

theorem sectionName_withEnding (e : LineEnding) (h : line ∈ Text.lines t) :
    sectionName (withEnding e line) = sectionName line :=
  eq_withEnding (fun _ => sectionName_append_blank) e h

theorem alike_withEnding (e : LineEnding) (h : line ∈ Text.lines t) :
    Alike line (withEnding e line) := by
  refine ⟨?_, isHeader_withEnding e h, sectionName_withEnding e h⟩
  obtain ⟨l, -, ⟨hline, hwith⟩ | ⟨hline, hwith⟩⟩ := Text.exists_withEnding_of_mem_lines e h
  · rw [hwith, hline]
  · rw [hwith, hline, (alike_append_ending e l).kind, (alike_append_ending .lf l).kind]

/-- **The headers** are the same, each with the other ending. -/
theorem filter_isHeader_withEnding (e : LineEnding) (t : Text) :
    (Text.lines (withEnding e t)).filter isHeader =
      ((Text.lines t).filter isHeader).map (withEnding e) := by
  have hheader : (Text.lines t).filter (isHeader ∘ withEnding e) = (Text.lines t).filter isHeader :=
    List.filter_congr fun l hl => isHeader_withEnding e hl
  rw [Text.lines_withEnding, List.filter_map, hheader]

/-- Two headers of one name that are the roots of the same characters, and blend overrides or not. -/
structure SameRoot (characters : List Character) (header header' : Text) : Prop where
  name : sectionName header' = sectionName header
  blend : isBlendHeader header' = isBlendHeader header
  root : ∀ c ∈ characters, c.isRoot header' = c.isRoot header

theorem sameRoot_withEnding {characters : List Character} (e : LineEnding)
    (hc : ∀ c ∈ characters, c.isRoot (withEnding e line) = c.isRoot line)
    (h : line ∈ Text.lines t) : SameRoot characters line (withEnding e line) where
  name := sectionName_withEnding e h
  blend := eq_withEnding (fun _ hw => isOverrideHeader_append_blank hw _) e h
  root := hc

end Line

/-! ## Sections -/

/-- **Lines that are read alike** make the same sections. -/
theorem map_toSection_of_alike {ls ls' : List Text} (h : List.Forall₂ Line.Alike ls ls')
    (start : Nat) :
    (chunks start ls').map Chunk.toSection = (chunks start ls).map Chunk.toSection := by
  induction h generalizing start with
  | nil => rfl
  | @cons l l' ls ls' hl hls ih =>
    rw [chunks, chunks, hl.header]
    split
    · have hbelow := Line.takeWhile_of_alike hls
      rw [List.map_cons, List.map_cons, ih, Chunk.toSection, Chunk.toSection, Chunk.name, Chunk.name,
        hl.name, Body.ofLines_of_alike hbelow, hbelow.length_eq]
    · exact ih (start + 1)

namespace Document

variable {characters : List Character} {hs hs' : List Text}

/-! ## Roots -/

theorem any_congr_of_mem {α : Type} {p q : α → Bool} {xs : List α} (h : ∀ x ∈ xs, p x = q x) :
    xs.any p = xs.any q := by
  rw [Bool.eq_iff_iff, List.any_eq_true, List.any_eq_true]
  exact exists_congr fun x => and_congr_right fun hx => by rw [h x hx]

section Roots

variable (h : List.Forall₂ (Line.SameRoot characters) hs hs')

include h

/-- The name of the first root of a character, and the character. -/
theorem characterRoot?_of_sameRoot :
    (characterRoot? characters hs').map (Prod.map Line.sectionName id) =
      (characterRoot? characters hs).map (Prod.map Line.sectionName id) := by
  induction h with
  | nil => rfl
  | @cons x x' hs hs' hx _ ih =>
    have hfind : characters.find? (·.isRoot x') = characters.find? (·.isRoot x) :=
      List.find?_congr hx.root
    rw [characterRoot?, characterRoot?, List.findSome?_cons, List.findSome?_cons, hfind]
    cases characters.find? (·.isRoot x) with
    | none => exact ih
    | some c => simp [hx.name]

/-- The name of the first blend override. -/
theorem blendRoot_of_sameRoot : (hs'.find? Line.isBlendHeader).map Line.sectionName =
    (hs.find? Line.isBlendHeader).map Line.sectionName := by
  induction h with
  | nil => rfl
  | cons hx _ ih =>
    rw [List.find?_cons, List.find?_cons, hx.blend]
    split
    · exact congrArg some hx.name
    · exact ih

theorem rootOf_of_sameRoot (assumed : Option Character) :
    rootOf characters assumed hs' = rootOf characters assumed hs := by
  have hcharacter := characterRoot?_of_sameRoot h
  rw [rootOf, rootOf, blendRoot_of_sameRoot h]
  rcases hx : characterRoot? characters hs with _ | ⟨x, c⟩ <;>
    rcases hx' : characterRoot? characters hs' with _ | ⟨x', c'⟩ <;>
    simp [hx, hx'] at hcharacter ⊢
  exact hcharacter

theorem any_isTelling_of_sameRoot (assumed : Option Character) :
    hs'.any (isTelling characters assumed) = hs.any (isTelling characters assumed) := by
  induction h with
  | nil => rfl
  | @cons x x' _ _ hx _ ih =>
    have hroot : characters.any (·.isRoot x') = characters.any (·.isRoot x) :=
      any_congr_of_mem hx.root
    rw [List.any_cons, List.any_cons, ih, isTelling, isTelling, hroot, hx.blend]

end Roots

/-! ## Documents -/

/-- **Lines that are read alike**, with headers that are the roots of the same characters, make one
document. -/
theorem ofLines_of_alike {ls ls' : List Text} (h : List.Forall₂ Line.Alike ls ls')
    (hroots : List.Forall₂ (Line.SameRoot characters) (ls.filter Line.isHeader)
      (ls'.filter Line.isHeader))
    (hfixed : ls'.any isFixedLine = ls.any isFixedLine) (assumed : Option Character) :
    ofLines characters assumed ls' = ofLines characters assumed ls := by
  simp only [ofLines, map_toSection_of_alike h, rootOf_of_sameRoot hroots,
    any_isTelling_of_sameRoot hroots, hfixed]

/-- The document of a text with another line ending, where no root pattern tells the two apart. -/
theorem ofText_of_sameRoots (e : LineEnding) {t : Text}
    (hc : ∀ line ∈ Text.lines t, Line.isHeader line = true → ∀ c ∈ characters,
      c.isRoot (withEnding e line) = c.isRoot line) (assumed : Option Character) :
    ofText characters assumed (withEnding e t) = ofText characters assumed t := by
  refine ofLines_of_alike ?_ ?_ ?_ assumed
  · rw [Text.lines_withEnding]
    exact List.forall₂_map_right_iff.2 (List.forall₂_same.2 fun l hl => Line.alike_withEnding e hl)
  · rw [Line.filter_isHeader_withEnding]
    refine List.forall₂_map_right_iff.2 (List.forall₂_same.2 fun l hl => ?_)
    obtain ⟨hl, hh⟩ := List.mem_filter.1 hl
    exact Line.sameRoot_withEnding e (hc l hl hh) hl
  · rw [Text.lines_withEnding, List.any_map]
    exact any_congr_of_mem fun l hl => Line.eq_withEnding (fun _ => isFixedLine_append_blank) e hl

/-- **The document does not tell the line ending** of a text without carriage returns, if no root
pattern tells it. -/
theorem ofText_withEnding (hc : ∀ c ∈ characters, c.IgnoresEnding) {t : Text} (hr : '\r' ∉ t)
    (assumed : Option Character) :
    ofText characters assumed (withEnding .crlf t) = ofText characters assumed t := by
  refine ofText_of_sameRoots .crlf (fun line hline hh c hmem => ?_) assumed
  obtain ⟨l, hl, ⟨rfl, hwith⟩ | ⟨rfl, hwith⟩⟩ := Text.exists_withEnding_of_mem_lines .crlf hline
  · rw [hwith]
  · have hreturn : '\r' ∉ l := fun h =>
      hr ((Text.infix_of_mem_lines hline).subset (List.mem_append_left _ h))
    rw [Line.isHeader_append_blank (LineEnding.blank _)] at hh
    rw [hwith]
    exact hc c hmem l hl hreturn hh

/-- **Without characters** there is no pattern that could tell it. -/
theorem plain_withEnding (e : LineEnding) (t : Text) : plain (withEnding e t) = plain t :=
  ofText_of_sameRoots e (by simp) none

end Document

end Ini

end Reskin
