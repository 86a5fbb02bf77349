import Reskin.Proofs.Ini.Endings
import Reskin.Proofs.ModFile.RoundTrip
import Reskin.Proofs.Remap.Missing

/-!
# Erasure with other line endings

Fences are sought by marks that hold no character of a line ending, and lines are swept by what they
are without the blanks at their end. So of a text that is written with another line ending the same
fences go and the same lines, and what is left is what was left, with that ending.

## Main results

* `Remap.Fence.cut_withEnding`: the fences, and the text without them
* `Remap.sweep_map`: lines that differ in their blank ends
* `Remap.erase_withEnding`: erasure
-/

namespace Reskin.Remap

open Ini (Document Line.isHeader Line.isGeneratedHeader Line.isBoilerplate Line.sectionName)
open Text (LineEnding Unbroken withEnding)

/-! ## Fences -/

namespace Fence

open Ini.Line (headingStart headingEnd)

variable (e : LineEnding)

theorem unbroken_headingStart : Unbroken headingStart := ⟨by decide, by decide⟩

theorem unbroken_headingEnd {s : Style} (hs : s ∈ styles) : Unbroken (headingEnd s.words) := by
  simp only [styles, List.mem_cons, List.not_mem_nil, or_false] at hs
  rcases hs with rfl | rfl <;> exact ⟨by decide, by decide⟩

theorem unbroken_closing (s : Style) : Unbroken s.closing :=
  ⟨newline_not_mem_closing s, by simp [Style.closing, Text.rule]⟩

theorem afterEach_withEnding {mark : Text} (hm : Unbroken mark) (hne : mark ≠ []) (t : Text) :
    afterEach mark (withEnding e t) = (afterEach mark t).map (withEnding e) := by
  induction t with
  | nil => simp [afterEach]
  | cons c t ih =>
    by_cases hc : c = '\n'
    · subst hc
      have hfeed (u : Text) : afterEach mark ('\n' :: u) = [] := by
        rw [afterEach, if_pos rfl, Text.dropStart?_eq_none_of_not_mem hne hm.noFeed]
        rfl
      rw [Text.withEnding_cons_newline, hfeed]
      cases e with
      | lf => exact hfeed _
      | crlf =>
        change afterEach mark ('\r' :: '\n' :: withEnding .crlf t) = []
        rw [afterEach, if_neg (by decide), hfeed,
          Text.dropStart?_eq_none_of_not_mem hne hm.noReturn]
        rfl
    · have hdrop := Text.dropStart?_withEnding e hm (c :: t)
      rw [Text.withEnding_cons_of_ne e hc] at hdrop ⊢
      rw [afterEach, if_neg hc, ih, hdrop, afterEach, if_neg hc, List.map_append]
      cases Text.dropStart? mark (c :: t) <;> rfl

theorem afterHeading_withEnding {s : Style} (hs : s ∈ styles) (t : Text) :
    afterHeading s (withEnding e t) = (afterHeading s t).map (withEnding e) := by
  have hdrop := Text.dropStart?_withEnding e unbroken_headingStart t
  have hend : headingEnd s.words ≠ [] := by simp [headingEnd]
  rw [headingStart] at hdrop
  rw [afterHeading, afterHeading, hdrop, ← headingStart]
  cases Text.dropStart? headingStart t with
  | none => rfl
  | some rest => exact afterEach_withEnding e (unbroken_headingEnd hs) hend rest

theorem afterRule?_withEnding (s : Style) (t : Text) :
    afterRule? s (withEnding e t) = (afterRule? s t).map (withEnding e) := by
  have hafter := Text.after?_withEnding e (unbroken_closing s) (by simp [Style.closing]) t
  change (Text.after? s.closing (withEnding e t)).map _ = ((Text.after? s.closing t).map _).map _
  rw [hafter, Option.map_map, Option.map_map]
  congr 1
  funext rest
  exact Text.dropWhile_withEnding e (by decide) (by decide) rest

/-- What is found first, where every answer is converted. -/
theorem findSome?_of_map {α : Type} {xs : List α} {f g : α → Option Text} {k : Text → Text}
    (h : ∀ x ∈ xs, f x = (g x).map k) : xs.findSome? f = (xs.findSome? g).map k := by
  induction xs with
  | nil => rfl
  | cons x xs ih =>
    rw [List.findSome?_cons, List.findSome?_cons, h x List.mem_cons_self]
    cases g x with
    | none => exact ih fun y hy => h y (List.mem_cons_of_mem _ hy)
    | some r => rfl

/-- **A fence begins where it began**, and ends where it ended. -/
theorem after?_withEnding (t : Text) :
    after? (withEnding e t) = (after? t).map (withEnding e) := by
  refine findSome?_of_map fun s hs => ?_
  rw [afterHeading_withEnding e hs, List.findSome?_map]
  exact findSome?_of_map fun rest _ => afterRule?_withEnding e s rest

/-- **The same fences are cut out**, and the same text is left. -/
theorem cut_withEnding (t : Text) :
    cut (withEnding e t) = ((cut t).1.map (withEnding e), withEnding e (cut t).2) := by
  induction t using fence_induction with
  | nil => simp [cut_nil]
  | fence f rest hne hr ih =>
    have hne' : withEnding e f ≠ [] := fun h => hne ((Text.withEnding_eq_nil_iff e).1 h)
    have hr' : after? (withEnding e f ++ withEnding e rest) = some (withEnding e rest) := by
      rw [← Text.withEnding_append, after?_withEnding, hr]
      rfl
    rw [Text.withEnding_append, cut_of_after? hne' hr', ih, cut_of_after? hne hr]
    rfl
  | kept c t hno ih =>
    rw [cut_cons_of_none hno]
    by_cases hc : c = '\n'
    · subst hc
      rw [Text.withEnding_cons_newline, cut_append_of_not_mem (by cases e <;> decide), ih,
        Text.withEnding_cons_newline]
    · have hno' := after?_withEnding e (c :: t)
      rw [hno, Text.withEnding_cons_of_ne e hc] at hno'
      rw [Text.withEnding_cons_of_ne e hc, cut_cons_of_none hno', ih, Text.withEnding_cons_of_ne e hc]

end Fence

/-! ## Lines -/

/-- **Lines that differ in their blank ends** are swept alike. -/
theorem sweep_map {g : Text → Text} {ls : List Text}
    (h : ∀ l ∈ ls, Text.trimEnd (g l) = Text.trimEnd l) (removing : Bool) :
    sweep removing (ls.map g) =
      { sweep removing ls with kept := (sweep removing ls).kept.map g } := by
  induction ls generalizing removing with
  | nil => rfl
  | cons l ls ih =>
    have ih := ih fun x hx => h x (List.mem_cons_of_mem _ hx)
    have hl := h l List.mem_cons_self
    have hheader : Line.isHeader (g l) = Line.isHeader l :=
      Text.eq_of_trimEnd_eq (fun _ => Ini.Line.isHeader_append_blank) hl
    have hgenerated : Line.isGeneratedHeader (g l) = Line.isGeneratedHeader l :=
      Text.eq_of_trimEnd_eq (fun _ => Ini.Line.isGeneratedHeader_append_blank) hl
    have hboilerplate : Line.isBoilerplate (g l) = Line.isBoilerplate l :=
      Text.eq_of_trimEnd_eq (fun _ => Ini.Line.isBoilerplate_append_blank) hl
    have hname : Line.sectionName (g l) = Line.sectionName l :=
      Text.eq_of_trimEnd_eq (fun _ => Ini.Line.sectionName_append_blank) hl
    rw [List.map_cons, sweep, sweep, hheader, hgenerated, hboilerplate, hname]
    split
    · split
      · rw [ih]
      · rw [ih]
        rfl
    · split
      · exact ih true
      · rw [ih]
        split <;> rfl

/-! ## Names inside fences -/

theorem headerNames_withEnding (e : LineEnding) (t : Text) :
    Ini.headerNames (Text.lines (withEnding e t)) = Ini.headerNames (Text.lines t) := by
  rw [Ini.headerNames, Ini.headerNames, Ini.Line.filter_isHeader_withEnding, List.map_map]
  exact List.map_congr_left fun l hl => Ini.Line.sectionName_withEnding e (List.mem_of_mem_filter hl)

/-- The ends that set lines apart do not matter for the names of headers. -/
theorem headerNames_bareLines (t : Text) :
    Ini.headerNames (Text.bareLines t) = Ini.headerNames (Text.lines t) := by
  have hheader : Line.isHeader ∘ Text.bare = Line.isHeader := funext Ini.Line.isHeader_bare
  have hname : Line.sectionName ∘ Text.bare = Line.sectionName := funext Ini.Line.sectionName_bare
  rw [Text.bareLines, Ini.headerNames, List.filter_map, List.map_map, hheader, hname]
  rfl

theorem fencedNames_eq (fences : List Text) :
    fencedNames fences = (fences.flatMap fun f => Ini.headerNames (Text.lines f)).eraseDups := by
  simp only [← headerNames_bareLines]
  rfl

theorem fencedNames_map (e : LineEnding) (fences : List Text) :
    fencedNames (fences.map (withEnding e)) = fencedNames fences := by
  simp only [fencedNames_eq, List.flatMap_map, headerNames_withEnding]

/-! ## Erasure -/

variable (e : LineEnding) (folder t : Text)

/-- What is left of the lines that are swept. -/
theorem sweep_withEnding : sweep false (Text.lines (withEnding e t)) =
    { sweep false (Text.lines t) with
      kept := (sweep false (Text.lines t)).kept.map (withEnding e) } := by
  rw [Text.lines_withEnding]
  exact sweep_map (fun l hl => Text.trimEnd_withEnding_of_mem_lines e hl) false

theorem passResources_withEnding (active : Bool) (names : List Text) :
    passResources folder (withEnding e t) active names = passResources folder t active names := by
  rw [passResources, passResources, Document.plain_withEnding]

theorem firstResources_withEnding :
    firstResources folder (withEnding e t) = firstResources folder t := by
  simp only [firstResources, Fence.cut_withEnding, List.isEmpty_map, fencedNames_map,
    passResources_withEnding]

theorem secondResources_withEnding :
    secondResources folder (withEnding e t) = secondResources folder t := by
  simp only [secondResources, strayNames, Fence.cut_withEnding, sweep_withEnding,
    passResources_withEnding]

theorem passes_withEnding (resources : Table Buffers) : passes (withEnding e t) resources =
    { passes t resources with text := withEnding e (passes t resources).text } := by
  simp only [passes, Fence.cut_withEnding, sweep_withEnding, List.length_map,
    Text.flatten_map_withEnding, Text.trimEnd_withEnding]

/-- **Erasure keeps the line ending**: it takes what it took, or fails as it failed. -/
theorem erase_withEnding : erase folder (withEnding e t) =
    (erase folder t).map fun r => { r with text := withEnding e r.text } := by
  rw [erase_eq, erase_eq, firstResources_withEnding, secondResources_withEnding]
  cases firstResources folder t with
  | error fault => rfl
  | ok first =>
    cases secondResources folder t with
    | error fault => rfl
    | ok second =>
      simp only [bind, Except.bind, Except.map, passes_withEnding]
      generalize passes t (second.foldl (fun t r => t.put r.1 r.2) first) = p
      have hsame : ({ p with text := withEnding e p.text } : Erasure).isUnchanged = p.isUnchanged :=
        rfl
      rw [hsame]
      cases p.isUnchanged <;> rfl

end Reskin.Remap
