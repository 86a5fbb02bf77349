import Reskin.Proofs.Text.Lines

/-!
# Texts that end early

A text that is cut off at a line boundary has the first lines of the whole text; only the last of
them may have lost its ending. What a line is does not depend on its ending, so it is enough to know
the lines up to their blank ends.

## Main definitions

* `Text.CutAtLine`: the beginnings of a text that end at a line boundary
* `Text.SameLines`: rows of lines that are the same up to the blank ends of each line

## Main results

* `Text.exists_sameLines_of_cutAtLine`: the lines of such a beginning
* `Text.CutAtLine.of_append_last`: cuts ahead of a last line
-/

namespace Reskin.Text

/-- **A beginning of the text that ends at a line boundary**: behind a line break, ahead of one, or
at the end. -/
def CutAtLine (t p : Text) : Prop :=
  ∃ q, t = p ++ q ∧ (Whole p ∨ q = [] ∨ ∃ e : LineEnding, e.text <+: q)

/-- The same lines, up to the blank end of each. -/
def SameLines (ls ls' : List Text) : Prop := ls.map trimEnd = ls'.map trimEnd

/-- A line has its like among the same lines. -/
theorem SameLines.exists_of_mem {ls ls' : List Text} (h : SameLines ls ls') {l : Text}
    (hl : l ∈ ls) : ∃ l' ∈ ls', trimEnd l' = trimEnd l :=
  List.mem_map.1 (h ▸ List.mem_map_of_mem hl)

namespace CutAtLine

variable {t p : Text}

/-- The whole text is one. -/
theorem refl {t : Text} : CutAtLine t t := ⟨[], by simp, .inr (.inl rfl)⟩

theorem of_whole (hw : Whole p) (hp : p <+: t) : CutAtLine t p := by
  obtain ⟨q, rfl⟩ := hp
  exact ⟨q, rfl, .inl hw⟩

theorem isPrefix (h : CutAtLine t p) : p <+: t := by
  obtain ⟨q, rfl, -⟩ := h
  exact List.prefix_append p q

/-- A cut behind whole lines is one of what follows them. -/
theorem of_append {a b x : Text} (h : CutAtLine (a ++ b) (a ++ x)) : CutAtLine b x := by
  obtain ⟨q, he, hq⟩ := h
  rw [List.append_assoc, List.append_cancel_left_eq] at he
  exact ⟨q, he, hq.imp_left Whole.of_append⟩

/-- **Ahead of a last line** without a line feed a text that is cut has lost all of that line. -/
theorem of_append_last {m l : Text} (hl : '\n' ∉ l) (h : CutAtLine (m ++ l) p) :
    p = m ++ l ∨ CutAtLine m p := by
  obtain ⟨q, he, hq⟩ := h
  have hending (e : LineEnding) {x : Text} (hx : e.text <+: x) : '\n' ∈ x :=
    hx.subset (by cases e <;> decide)
  rcases List.append_eq_append_iff.1 he with ⟨a, rfl, rfl⟩ | ⟨b, rfl, rfl⟩
  · rcases hq with hw | rfl | ⟨e, hq⟩
    · obtain rfl := hw.of_append.eq_nil fun hn => hl (List.mem_append_left q hn)
      exact .inr ⟨[], by simp, .inr (.inl rfl)⟩
    · exact .inl (by simp)
    · exact absurd (List.mem_append_right a (hending e hq)) hl
  · refine .inr ⟨b, rfl, ?_⟩
    rcases hq with hw | hq | ⟨e, r, hq⟩
    · exact .inl hw
    · exact .inr (.inl (List.append_eq_nil_iff.1 hq).1)
    · rcases List.append_eq_append_iff.1 hq with ⟨x, rfl, -⟩ | ⟨x, hx, rfl⟩
      · exact .inr (.inr ⟨e, List.prefix_append _ _⟩)
      · obtain rfl := (hx ▸ e.whole).of_append.eq_nil fun hn => hl (List.mem_append_left r hn)
        exact .inr (.inr ⟨e, by simp [hx]⟩)

end CutAtLine

/-- **The lines of a text that is cut** are first lines of the whole text. -/
theorem exists_sameLines_of_cutAtLine {t p : Text} (h : CutAtLine t p) :
    ∃ ls, ls <+: lines t ∧ SameLines (lines p) ls := by
  obtain ⟨q, rfl, hq⟩ := h
  by_cases hw : Whole p
  · exact ⟨lines p, by rw [lines_append hw]; exact List.prefix_append _ _, rfl⟩
  rcases hq.resolve_left hw with rfl | ⟨e, r, rfl⟩
  · exact ⟨lines p, by simp, rfl⟩
  obtain ⟨a, l, rfl, ha, hl⟩ := exists_whole_append p
  have hne : l ≠ [] := by
    rintro rfl
    exact hw (by rwa [List.append_nil])
  have hlast : lines (l ++ (e.text ++ r)) = (l ++ e.text) :: lines r := by
    rw [← List.append_assoc, lines_line_append hl]
  refine ⟨lines a ++ [l ++ e.text], ?_, ?_⟩
  · rw [List.append_assoc, lines_append ha, hlast]
    exact ⟨lines r, by simp⟩
  · rw [lines_append ha, lines_of_not_mem hl hne]
    simp [SameLines, trimEnd_append_of_blank e.blank]

end Reskin.Text
