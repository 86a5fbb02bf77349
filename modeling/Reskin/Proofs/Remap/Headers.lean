import Reskin.Proofs.Remap.Reread

/-!
# The headers of a block

Around the generated sections a block has a heading, the credit, empty lines, banners and a rule; of
all these lines none is a header. A generated section has its own header first and no other one, for
a control line is none, and an assignment is one only if the line it has been read from is. So the
headers of a block are those that the generated sections are given.

## Main definitions

* `Remap.blockHead`: the lines ahead of the generated sections
* `Remap.Heads`: texts of whole lines with some headers

## Main results

* `Remap.framed_eq_unlines`: a block as lines
* `Remap.Sources.filter_isHeader_block`: the headers of a block
-/

namespace Reskin

theorem Remap.newline_not_mem_credit {title : Text} (h : '\n' ∉ title) : '\n' ∉ credit title := by
  by_cases ht : title = []
  · subst ht
    decide
  · simp [credit, creditLine, ht, h]

namespace Remap

open Ini (Document Line.isHeader Line.isIdle)

/-! ## Around the sections -/

/-- The lines ahead of the generated sections of a block: its heading, the credit and an empty
line. -/
def blockHead (title : Text) : List Text :=
  [blockStyle.heading (title ++ [' ']), credit title, []]

/-- None of these lines says anything. -/
theorem idle_of_mem_blockHead {title : Text} (h : '\n' ∉ title) {l : Text}
    (hl : l ∈ blockHead title) : '\n' ∉ l ∧ Line.isIdle l = true := by
  simp only [blockHead, List.mem_cons, List.not_mem_nil, or_false] at hl
  rcases hl with rfl | rfl | rfl
  · have htitle : '\n' ∉ title ++ [' '] := by simp [h]
    exact ⟨Fence.newline_not_mem_heading blockStyle_mem htitle, Ini.Line.isIdle_comment _⟩
  · exact ⟨newline_not_mem_credit h, Ini.Line.isIdle_comment _⟩
  · exact ⟨by simp, by decide⟩

theorem isIdle_blockRule (title : Text) : Line.isIdle (blockRule title) = true :=
  Ini.Line.isIdle_comment _

/-- **A block as lines**, once what stands between credit and rule is given as a text of lines. -/
theorem framed_eq_unlines {parts : List Text} {u : Text} (title : Text)
    (h : parts.flatten ++ ['\n', '\n'] = ['\n', '\n'] ++ u) :
    framed title parts = Text.unlines .lf (blockHead title) ++ (u ++ blockRule title) := by
  rw [framed, List.append_assoc (credit _), h]
  simp [blockHead, Text.LineEnding.text]

/-! ## Headers -/

/-- Whole lines, and the headers among them. -/
def Heads (headers : List Text) (t : Text) : Prop :=
  ∃ ls, t = Text.unlines .lf ls ∧ (∀ l ∈ ls, '\n' ∉ l) ∧ ls.filter Line.isHeader = headers

namespace Heads

theorem of_idle {l : Text} (hn : '\n' ∉ l) (hl : Line.isIdle l = true) : Heads [] (l ++ ['\n']) := by
  refine ⟨[l], by simp [Text.LineEnding.text], by simpa using hn, ?_⟩
  simp [Ini.Line.isHeader_of_isIdle hl]

theorem additive : Additive Heads where
  nil := ⟨[], rfl, by simp, rfl⟩
  append := by
    rintro as bs a b ⟨ls, rfl, hls, rfl⟩ ⟨ms, rfl, hms, rfl⟩
    refine ⟨ls ++ ms, by simp, fun l hl => ?_, List.filter_append _ _⟩
    exact (List.mem_append.1 hl).elim (hls l) (hms l)
  empty := of_idle (l := []) (by simp) (by decide)

end Heads

namespace Sources

variable {s : Sources} {variants : List Text}

section Built

variable {t : Text} (hbuilt : ∀ part, (s.graph part).Built (Document.plain t).bodies)
  (hkeep : s.KeepsLines variants)

include hbuilt hkeep

/-- **A generated section** has one header. -/
theorem heads_sectionText {part : Part} {variant : Text} (hv : variant ∈ variants)
    {e : Text × Ini.Body} (he : e ∈ (s.graph part).reached) {u : Text}
    (h : s.sectionText part variant e = .ok u) : Heads [s.headerLine part e.1 variant] u := by
  obtain ⟨ls, b', rfl, hnl, hls, -, -⟩ := exists_lines_of_sectionText hbuilt hkeep hv he h
  refine ⟨s.headerLine part e.1 variant :: ls, rfl, ?_, ?_⟩
  · rintro l (_ | ⟨_, hl⟩)
    · exact hnl
    · exact (hls l hl).1
  · rw [List.filter_cons_of_pos (isHeader_headerLine hnl),
      List.filter_eq_nil_iff.2 fun l hl => by simp [(hls l hl).2]]

/-- **The headers of a block** are those of the generated sections, in order. -/
theorem filter_isHeader_block (hlines : ∀ v ∈ variants, '\n' ∉ v) (hne : s.blend.isEmpty = false)
    {title block : Text} (htitle : '\n' ∉ title)
    (h : s.block variants (some title) = .ok block) :
    (Text.lines block).filter Line.isHeader = (variants.flatMap s.allHeaders).map (· ++ ['\n']) := by
  obtain ⟨parts, hparts, rfl⟩ := exists_block_eq h
  obtain ⟨u, hu, ls, rfl, hls, hheaders⟩ := exists_of_variantParts Heads.additive
    (fun part v hv e he t ht => heads_sectionText hbuilt hkeep hv he ht)
    (fun v hv => Heads.of_idle (by
      simp [commentLine, Banner.opening, Banner.side, variantBanner, Text.rule, hlines v hv])
      (Ini.Line.isIdle_comment _)) hne hparts
  have hhead : ∀ l ∈ (blockHead title).map (· ++ Text.LineEnding.lf.text),
      ¬ Line.isHeader l = true := by
    intro l hl
    obtain ⟨m, hm, rfl⟩ := List.mem_map.1 hl
    rw [Ini.Line.isHeader_append_blank Text.LineEnding.lf.blank,
      Ini.Line.isHeader_of_isIdle (idle_of_mem_blockHead htitle hm).2]
    simp
  have hrule : Text.lines (blockRule title) = [blockRule title] :=
    Text.lines_of_not_mem (newline_not_mem_blockRule _) (by simp [blockRule])
  have hbody : (fun l => Line.isHeader (l ++ Text.LineEnding.lf.text)) = Line.isHeader := by
    funext l
    exact Ini.Line.isHeader_append_blank Text.LineEnding.lf.blank l
  rw [framed_eq_unlines title hu,
    Text.lines_unlines_append fun l hl => (idle_of_mem_blockHead htitle hl).1,
    Text.lines_unlines_append hls, hrule, List.filter_append, List.filter_append,
    List.filter_eq_nil_iff.2 hhead, List.nil_append, List.filter_map]
  have hlast : [blockRule title].filter Line.isHeader = [] := by
    simp [Ini.Line.isHeader_of_isIdle (isIdle_blockRule title)]
  rw [hlast, List.append_nil, Function.comp_def, hbody, hheaders]
  rfl

end Built

end Sources

end Remap

end Reskin
