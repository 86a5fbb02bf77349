import Reskin.Proofs.Text.Lines
import Reskin.Proofs.Text.Split

/-!
# Other line endings

A text written with another line ending has the same lines, each with that ending, and the blank end
of it goes as it went. A mark that holds no character of a line ending is found in it where it was
found, for no place of such a mark begins in an ending or reaches into one.

## Main definitions

* `Text.Unbroken`: marks without a line feed and a carriage return

## Main results

* `Text.lines_withEnding`, `Text.trimEnd_withEnding`: lines and blank ends
* `Text.lineEnding_withEnding`: the line ending of the text that is written
* `Text.dropStart?_withEnding`, `Text.after?_withEnding`: what follows a mark
-/

namespace Reskin.Text

variable (e : LineEnding)

/-! ## Characters -/

@[simp] theorem withEnding_nil : withEnding e [] = [] := by
  cases e <;> rfl

theorem withEnding_cons_newline (t : Text) : withEnding e ('\n' :: t) = e.text ++ withEnding e t := by
  rw [← List.singleton_append, withEnding_append]
  cases e <;> rfl

theorem withEnding_cons_of_ne {c : Char} (hc : c ≠ '\n') (t : Text) :
    withEnding e (c :: t) = c :: withEnding e t := by
  rw [← List.singleton_append, withEnding_append, withEnding_of_not_mem (by simpa using hc.symm)]
  rfl

theorem withEnding_eq_nil_iff {t : Text} : withEnding e t = [] ↔ t = [] := by
  cases t with
  | nil => simp
  | cons c t =>
    by_cases hc : c = '\n'
    · subst hc
      rw [withEnding_cons_newline]
      cases e <;> simp [LineEnding.text]
    · simp [withEnding_cons_of_ne e hc]

theorem flatten_map_withEnding (ls : List Text) :
    (ls.map (withEnding e)).flatten = withEnding e ls.flatten := by
  induction ls with
  | nil => simp
  | cons l ls ih => rw [List.map_cons, List.flatten_cons, List.flatten_cons, withEnding_append, ih]

/-! ## Lines -/

/-- **The lines** are the same, each with the other ending. -/
theorem lines_withEnding (t : Text) : lines (withEnding e t) = (lines t).map (withEnding e) := by
  have hone : withEnding e ['\n'] = e.text := by cases e <;> rfl
  induction t with
  | nil => simp [lines]
  | cons c t ih =>
    by_cases hc : c = '\n'
    · subst hc
      have hend : lines (e.text ++ withEnding e t) = e.text :: lines (withEnding e t) := by
        simpa using lines_line_append (l := []) (by simp) e (withEnding e t)
      rw [withEnding_cons_newline, hend, ih, lines, if_pos rfl, List.map_cons, hone]
    · rw [withEnding_cons_of_ne e hc, lines, if_neg hc, lines, if_neg hc, ih]
      cases lines t with
      | nil => simp [withEnding_of_not_mem (l := [c]) (by simpa using Ne.symm hc)]
      | cons l ls => simp [withEnding_cons_of_ne e hc]

/-- A line with the other ending: only the last line of a text may have none to write. -/
theorem exists_withEnding_of_mem_lines {t line : Text} (h : line ∈ lines t) : ∃ l, '\n' ∉ l ∧
    (line = l ∧ withEnding e line = l ∨
      line = l ++ LineEnding.lf.text ∧ withEnding e line = l ++ e.text) := by
  obtain ⟨l, hl, rfl | rfl⟩ := exists_of_mem_lines h
  · exact ⟨line, hl, .inl ⟨rfl, withEnding_of_not_mem hl e⟩⟩
  · refine ⟨l, hl, .inr ⟨rfl, ?_⟩⟩
    rw [withEnding_append, withEnding_of_not_mem hl]
    cases e <;> rfl

/-- The endings of a line are blank, so what does not look at its blank end does not see them. -/
theorem trimEnd_withEnding_of_mem_lines {t line : Text} (h : line ∈ lines t) :
    trimEnd (withEnding e line) = trimEnd line := by
  obtain ⟨l, -, ⟨hline, hwith⟩ | ⟨hline, hwith⟩⟩ := exists_withEnding_of_mem_lines e h
  · rw [hwith, hline]
  · rw [hwith, hline, trimEnd_append_of_blank e.blank, trimEnd_append_of_blank (LineEnding.blank _)]

/-- **The line ending of a text** without carriage returns that is written with another one. -/
theorem lineEnding_withEnding {t : Text} (hr : '\r' ∉ t) (hn : '\n' ∈ t) :
    lineEnding (withEnding e t) = e := by
  obtain ⟨l, r, rfl, hl⟩ := List.eq_append_cons_of_mem hn
  have hlead : '\n' ∉ l ++ e.lead := by simp [hl, e.newline_not_mem_lead]
  have hsplit : withEnding e (l ++ '\n' :: r) = (l ++ e.lead) ++ '\n' :: withEnding e r := by
    rw [withEnding_append, withEnding_cons_newline, withEnding_of_not_mem hl, e.text_eq]
    simp
  rw [lineEnding, hsplit, splitFirst_append hlead]
  have hlast : l.getLast? ≠ some '\r' := fun h => hr (by simp [List.mem_of_getLast? h])
  cases e <;> simp [LineEnding.lead, hlast]

/-! ## Blank ends -/

theorem mem_withEnding {c : Char} {t : Text} (h : c ∈ withEnding e t) : c ∈ t ∨ c ∈ e.text := by
  induction t with
  | nil => simp at h
  | cons d t ih =>
    by_cases hd : d = '\n'
    · subst hd
      rw [withEnding_cons_newline, List.mem_append] at h
      rcases h with h | h
      · exact .inr h
      · exact (ih h).imp_left (List.mem_cons_of_mem _)
    · rw [withEnding_cons_of_ne e hd, List.mem_cons] at h
      rcases h with rfl | h
      · exact .inl List.mem_cons_self
      · exact (ih h).imp_left (List.mem_cons_of_mem _)

theorem blank_withEnding {w : Text} (h : Blank w) : Blank (withEnding e w) :=
  fun c hc => (mem_withEnding e hc).elim (h c) (e.blank c)

/-- **The blank end** goes as it went. -/
theorem trimEnd_withEnding (t : Text) : trimEnd (withEnding e t) = withEnding e (trimEnd t) := by
  obtain ⟨w, hw, ht⟩ := exists_trimEnd_append t
  conv => lhs; rw [ht, withEnding_append, trimEnd_append_of_blank (blank_withEnding e hw)]
  rcases List.eq_nil_or_concat (trimEnd t) with hnil | ⟨s, c, hs⟩
  · rw [hnil, withEnding_nil, trimEnd_nil]
  · rw [List.concat_eq_append] at hs
    have hc : isBlank c = false := getLast?_trimEnd (t := t) (by simp [hs])
    have hn : '\n' ∉ [c] := by
      rintro h
      obtain rfl := List.mem_singleton.1 h
      cases hc
    rw [hs, withEnding_append, withEnding_of_not_mem hn, trimEnd_append_singleton hc]

/-! ## Marks -/

/-- No character of the mark belongs to a line ending. -/
structure Unbroken (mark : Text) : Prop where
  noFeed : '\n' ∉ mark
  noReturn : '\r' ∉ mark

theorem dropStart?_eq_none_of_not_mem {mark : Text} (hne : mark ≠ []) {c : Char} (hc : c ∉ mark)
    (t : Text) : dropStart? mark (c :: t) = none := by
  cases mark with
  | nil => exact absurd rfl hne
  | cons m mark => rw [dropStart?, if_neg fun h => hc (by simp [h])]

/-- No mark begins in a line ending. -/
theorem dropStart?_text_append {mark : Text} (hm : Unbroken mark) (hne : mark ≠ []) (t : Text) :
    dropStart? mark (e.text ++ t) = none := by
  cases e with
  | lf => exact dropStart?_eq_none_of_not_mem hne hm.noFeed t
  | crlf => exact dropStart?_eq_none_of_not_mem hne hm.noReturn _

/-- **What follows a mark** that the text begins with, or the lack of it, is the same. -/
theorem dropStart?_withEnding {mark : Text} (hm : Unbroken mark) (t : Text) :
    dropStart? mark (withEnding e t) = (dropStart? mark t).map (withEnding e) := by
  induction mark generalizing t with
  | nil => rfl
  | cons m mark ih =>
    have hrest : Unbroken mark :=
      ⟨fun h => hm.noFeed (by simp [h]), fun h => hm.noReturn (by simp [h])⟩
    cases t with
    | nil => rw [withEnding_nil]; rfl
    | cons c t =>
      by_cases hc : c = '\n'
      · subst hc
        rw [withEnding_cons_newline, dropStart?_text_append e hm (by simp),
          dropStart?_eq_none_of_not_mem (by simp) hm.noFeed]
        rfl
      · rw [withEnding_cons_of_ne e hc, dropStart?, dropStart?]
        split
        · exact ih hrest t
        · rfl

theorem after?_cons_of_not_mem {mark : Text} (hne : mark ≠ []) {c : Char} (hc : c ∉ mark)
    (t : Text) : after? mark (c :: t) = after? mark t := by
  rw [after?, dropStart?_eq_none_of_not_mem hne hc]

/-- **What follows the first place of a mark** is the same. -/
theorem after?_withEnding {mark : Text} (hm : Unbroken mark) (hne : mark ≠ []) (t : Text) :
    after? mark (withEnding e t) = (after? mark t).map (withEnding e) := by
  induction t with
  | nil =>
    have hdrop := dropStart?_withEnding e hm []
    rwa [withEnding_nil] at hdrop ⊢
  | cons c t ih =>
    by_cases hc : c = '\n'
    · subst hc
      have hpass : after? mark (e.text ++ withEnding e t) = after? mark (withEnding e t) := by
        cases e with
        | lf => exact after?_cons_of_not_mem hne hm.noFeed _
        | crlf =>
          exact (after?_cons_of_not_mem hne hm.noReturn _).trans
            (after?_cons_of_not_mem hne hm.noFeed _)
      rw [withEnding_cons_newline, hpass, ih, after?_cons_of_not_mem hne hm.noFeed]
    · have hdrop := dropStart?_withEnding e hm (c :: t)
      rw [withEnding_cons_of_ne e hc] at hdrop ⊢
      rw [after?, hdrop, after?]
      cases dropStart? mark (c :: t) with
      | some rest => rfl
      | none => exact ih

/-- A run of a character that is none of an ending is as long as it was. -/
theorem dropWhile_withEnding {c : Char} (hn : c ≠ '\n') (hr : c ≠ '\r') (t : Text) :
    (withEnding e t).dropWhile (· == c) = withEnding e (t.dropWhile (· == c)) := by
  induction t with
  | nil => simp
  | cons d t ih =>
    by_cases hd : d = '\n'
    · subst hd
      rw [withEnding_cons_newline, List.dropWhile_cons_of_neg (by simpa using hn.symm),
        withEnding_cons_newline]
      cases e <;> simp [LineEnding.text, hn.symm, hr.symm]
    · rw [withEnding_cons_of_ne e hd, List.dropWhile_cons, List.dropWhile_cons]
      split
      · exact ih
      · rw [withEnding_cons_of_ne e hd]

end Reskin.Text
