import Reskin.Proofs.Remap.Fence
import Reskin.Remap.Block

/-!
# The frame of a block

Whatever a block holds, it begins with a heading of the present style on a line of its own and ends
with a rule that is long enough to close it. So there is a fence where a block stands, and its first
line shows that the text is fixed.

## Main definitions

* `Remap.blockStyle`: the style of the fences that blocks are
* `Remap.blockRule`: the last line of a block

## Main results

* `Remap.exists_block_eq`: the frame of a block
* `Remap.isBlockHeading_heading`: headings are recognised at the beginning of a line
* `Remap.exists_after?_frame`: a fence begins where a block begins
-/

namespace Reskin.Remap

open Fence (Style)
open Ini (Line.isBlockHeading)
open Ini.Line (blockDashes headingStart headingEnd)

/-- The style of the fences that generated blocks are. -/
def blockStyle : Style := ⟨"Remap".toList, 37⟩

theorem blockStyle_mem : blockStyle ∈ Fence.styles := by decide

/-- The rule that closes the block of a title. -/
def blockRule (title : Text) : Text := ';' :: ' ' :: Text.rule (title.length + 38) '-'

theorem commentLine_opening (title : Text) :
    commentLine (blockBanner (some title)).opening = blockStyle.heading (title ++ [' ']) := by
  simp [commentLine, Banner.opening, Banner.side, blockBanner, Style.heading, headingStart,
    headingEnd, blockStyle, blockDashes]

theorem commentLine_closing (title : Text) :
    commentLine (blockBanner (some title)).closing = blockRule title := by
  have hlen : (blockBanner (some title)).opening.length = title.length + 38 := by
    simp [Banner.opening, Banner.side, blockBanner, Text.rule]
  rw [commentLine, Banner.closing, hlen]
  rfl

/-- The credit without the line feed before it. -/
def credit (title : Text) : Text := (creditLine (some title)).tail

/-- A block around the parts for its variants: a heading and the credit, and a rule at the end. -/
def framed (title : Text) (parts : List Text) : Text :=
  blockStyle.heading (title ++ [' ']) ++ '\n' :: (credit title ++ parts.flatten ++ ['\n', '\n'] ++
    blockRule title)

theorem block_eq_framed {s : Sources} {variants : List Text} {parts : List Text}
    (h : s.variantParts variants = .ok parts) (title : Text) :
    s.block variants (some title) = .ok (framed title parts) := by
  simp only [Sources.block, h, bind, Except.bind, pure, Except.pure, commentLine_opening,
    commentLine_closing]
  simp [framed, credit, creditLine]

/-- **The frame of a block**: a heading, whatever is generated for the variants, and a rule. -/
theorem exists_block_eq {s : Sources} {variants : List Text} {title block : Text}
    (h : s.block variants (some title) = .ok block) :
    ∃ parts, s.variantParts variants = .ok parts ∧ block = framed title parts := by
  cases hp : s.variantParts variants with
  | error fault => simp [Sources.block, hp, bind, Except.bind] at h
  | ok parts =>
    rw [block_eq_framed hp] at h
    exact ⟨parts, rfl, (Except.ok.inj h).symm⟩

theorem blockStyle_closing_prefix (title : Text) : blockStyle.closing <+: blockRule title :=
  ⟨Text.rule (title.length + 1) '-', by
    simp only [Style.closing, blockRule, blockStyle, Text.rule, List.cons_append,
      List.replicate_append_replicate]
    congr 3
    omega⟩

theorem newline_not_mem_blockRule (title : Text) : '\n' ∉ blockRule title := by
  simp [blockRule, Text.rule, List.mem_replicate]

/-- A heading is recognised where a line begins with it. -/
theorem isBlockHeading_heading {s : Style} (hs : s ∈ Fence.styles) {title : Text}
    (ht : '\n' ∉ title) : Line.isBlockHeading (s.heading title) = true := by
  have hw : s.words ∈ Ini.Line.titleWords := by
    revert s
    decide
  have hn : '\n' ∉ title ++ headingEnd s.words := by
    rw [List.mem_append, not_or]
    exact ⟨ht, Fence.newline_not_mem_headingEnd hs⟩
  have htrim : Text.trimStart (s.heading title) =
      headingStart ++ (title ++ headingEnd s.words) := by
    rw [Style.heading, List.append_assoc]
    rfl
  rw [Ini.Line.isBlockHeading_eq, htrim, Text.dropStart?_append]
  simp only [Ini.Line.visible_eq_self hn, List.any_eq_true]
  exact ⟨s.words, hw, Text.holds_iff_infix.2 (List.suffix_append _ _).isInfix⟩

/-- **A fence begins** where a heading is followed by the rule of a block. -/
theorem exists_after?_frame {title : Text} (ht : '\n' ∉ title) (title' body rest : Text) :
    ∃ r, Fence.after? (blockStyle.heading title ++ (body ++ (blockRule title' ++ rest))) =
      some r := by
  cases h : Fence.after? (blockStyle.heading title ++ (body ++ (blockRule title' ++ rest))) with
  | some r => exact ⟨r, rfl⟩
  | none =>
    refine absurd ?_ (Fence.after?_eq_none_iff.1 h blockStyle blockStyle_mem title _ ht rfl)
    obtain ⟨k, hk⟩ := blockStyle_closing_prefix title'
    exact ⟨body, k ++ rest, by simp [← hk]⟩

end Reskin.Remap
