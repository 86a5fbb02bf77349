import Reskin.Ini.Line

/-!
# Fences

A fence is a generated block as a text holds it: a heading of dashes around a title, and everything
up to the first closing rule after it. Headings and rules are sought at any place of the text, not
only at the beginning of a line. There are two kinds of fences, told apart by the last words of
their titles; the rule of the older kind is longer.

## Main definitions

* `Remap.Fence.after?`: what follows the fence that a text begins with
* `Remap.Fence.cut`: the fences of a text, and the text without them

## Main results

* `Remap.Fence.length_after?`: a fence is never empty
-/

namespace Reskin.Remap.Fence

open Ini (Line.blockDashes)

/-- A kind of fences: the last words of the title, and the least length of the closing rule. -/
structure Style where
  words : Text
  rule : Nat
  deriving DecidableEq, Repr

/-- The older kind first. -/
def styles : List Style := [⟨"Boss Fix".toList, 40⟩, ⟨"Remap".toList, 37⟩]

/-- What follows every place of the mark on the first line, the last place first. -/
def afterEach (mark : Text) : Text → List Text
  | [] => []
  | c :: t =>
    (if c = '\n' then [] else afterEach mark t) ++ (Text.dropStart? mark (c :: t)).toList

/-- What follows the heading that a text begins with: one rest for every place where it can end,
the longest heading first. -/
def afterHeading (s : Style) (t : Text) : List Text :=
  match Text.dropStart? (';' :: ' ' :: Ini.Line.blockDashes ++ [' ']) t with
  | some rest => afterEach (s.words ++ ' ' :: Ini.Line.blockDashes) rest
  | none => []

/-- What follows the first closing rule of a text, however long the rule is. -/
def afterRule? (s : Style) (t : Text) : Option Text :=
  (Text.after? (';' :: ' ' :: Text.rule s.rule '-') t).map fun rest =>
    rest.dropWhile (· == '-')

/-- What follows the fence that a text begins with. -/
def after? (t : Text) : Option Text :=
  styles.findSome? fun s => (afterHeading s t).findSome? (afterRule? s)

theorem length_dropStart? {start t rest : Text} (h : Text.dropStart? start t = some rest) :
    rest.length + start.length = t.length := by
  have := congrArg List.length (Text.dropStart?_eq_some.1 h)
  simp only [List.length_append] at this
  omega

theorem length_textAfter? {mark t rest : Text} (h : Text.after? mark t = some rest) :
    rest.length ≤ t.length := by
  induction t with
  | nil =>
    rw [Text.after?] at h
    have := length_dropStart? h
    omega
  | cons c t ih =>
    rw [Text.after?] at h
    split at h
    · next hd =>
      cases h
      have := length_dropStart? hd
      omega
    · have := ih h
      simp only [List.length_cons]
      omega

theorem length_afterEach {mark t rest : Text} (h : rest ∈ afterEach mark t) :
    rest.length ≤ t.length := by
  induction t with
  | nil => simp [afterEach] at h
  | cons c t ih =>
    rw [afterEach, List.mem_append] at h
    rcases h with h | h
    · split at h
      · simp at h
      · have := ih h
        simp only [List.length_cons]
        omega
    · have := length_dropStart? (Option.mem_toList.1 h)
      omega

theorem length_after? {t rest : Text} (h : after? t = some rest) : rest.length < t.length := by
  obtain ⟨s, _, hs⟩ := List.exists_of_findSome?_eq_some h
  obtain ⟨u, hu, hr⟩ := List.exists_of_findSome?_eq_some hs
  obtain ⟨v, hv, rfl⟩ := Option.map_eq_some_iff.1 hr
  have h1 := length_textAfter? hv
  have h2 := (List.dropWhile_suffix (· == '-') (l := v)).length_le
  unfold afterHeading at hu
  split at hu
  · next hd =>
    have h3 := length_dropStart? hd
    have h4 := length_afterEach hu
    simp only [List.length_append, List.length_cons] at h3
    omega
  · simp at hu

/-- The fences of a text, and the text without them. -/
def cut : Text → List Text × Text
  | [] => ([], [])
  | c :: t =>
    match _ : after? (c :: t) with
    | some rest =>
      let (fences, kept) := cut rest
      ((c :: t).take ((c :: t).length - rest.length) :: fences, kept)
    | none =>
      let (fences, kept) := cut t
      (fences, c :: kept)
termination_by t => t.length
decreasing_by
  · exact length_after? ‹_›
  · exact Nat.lt_succ_self _

end Reskin.Remap.Fence
