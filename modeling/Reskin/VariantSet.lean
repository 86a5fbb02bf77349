import Reskin.Text.Basic

/-!
# Sets of variants

A set of names is a list of them in strictly ascending order, so a set has one list only.

## Main definitions

* `VariantSet`: the sets
* `VariantSet.insert`, `VariantSet.ofList`, `VariantSet.inter`: building sets

## Main results

* `VariantSet.mem_insert`, `VariantSet.mem_ofList`, `VariantSet.mem_inter`: what sets hold
-/

namespace Reskin

theorem Text.lt_trans {a b c : Text} (h : a < b) (h' : b < c) : a < c := List.lt_trans h h'

theorem Text.lt_of_not_lt {a b : Text} (h : ¬ a < b) (hne : a ≠ b) : b < a := by
  rcases List.le_iff_lt_or_eq.1 (List.not_lt.1 h) with h' | h'
  · exact h'
  · exact absurd h'.symm hne

/-- Names in strictly ascending order. -/
structure VariantSet where
  toList : List Text
  sorted : toList.Pairwise (· < ·)
  deriving DecidableEq, Repr

namespace VariantSet

/-- The set without members. -/
def empty : VariantSet := ⟨[], .nil⟩

instance : Membership Text VariantSet := ⟨fun s v => v ∈ s.toList⟩

instance (v : Text) (s : VariantSet) : Decidable (v ∈ s) :=
  inferInstanceAs (Decidable (v ∈ s.toList))

/-- The list with one more name at its place. -/
def place (v : Text) : List Text → List Text
  | [] => [v]
  | w :: ws => if v < w then v :: w :: ws else if v = w then w :: ws else w :: place v ws

theorem mem_place {v w : Text} {ws : List Text} : w ∈ place v ws ↔ w = v ∨ w ∈ ws := by
  induction ws with
  | nil => simp [place]
  | cons u us ih =>
    rw [place]
    split
    · simp
    · split
      · next h => subst h; simp
      · simp only [List.mem_cons, ih]
        constructor <;> rintro (h | h | h) <;> simp [h]

theorem sorted_place {v : Text} {ws : List Text} (h : ws.Pairwise (· < ·)) :
    (place v ws).Pairwise (· < ·) := by
  induction ws with
  | nil => simp [place]
  | cons w ws ih =>
    rw [place]
    split
    · next hlt =>
      refine List.pairwise_cons.2 ⟨fun u hu => ?_, h⟩
      rcases List.mem_cons.1 hu with rfl | hu
      · exact hlt
      · exact Text.lt_trans hlt (List.rel_of_pairwise_cons h hu)
    · next hlt =>
      split
      · exact h
      · next hne =>
        refine List.pairwise_cons.2 ⟨fun u hu => ?_, ih (List.pairwise_cons.1 h).2⟩
        rcases mem_place.1 hu with rfl | hu
        · exact Text.lt_of_not_lt hlt hne
        · exact List.rel_of_pairwise_cons h hu

/-- The set with one more name. -/
def insert (v : Text) (s : VariantSet) : VariantSet := ⟨place v s.toList, sorted_place s.sorted⟩

@[simp] theorem mem_insert {v w : Text} {s : VariantSet} : w ∈ insert v s ↔ w = v ∨ w ∈ s :=
  mem_place

/-- The set of the names of a list. -/
def ofList : List Text → VariantSet
  | [] => empty
  | v :: vs => insert v (ofList vs)

@[simp] theorem mem_ofList {v : Text} {vs : List Text} : v ∈ ofList vs ↔ v ∈ vs := by
  induction vs with
  | nil => exact Iff.rfl
  | cons w vs ih => rw [ofList, mem_insert, List.mem_cons, ih]

/-- The names in both sets. -/
def inter (s t : VariantSet) : VariantSet := ⟨s.toList.filter (· ∈ t), s.sorted.filter _⟩

@[simp] theorem mem_inter {v : Text} {s t : VariantSet} : v ∈ inter s t ↔ v ∈ s ∧ v ∈ t := by
  show v ∈ s.toList.filter (· ∈ t) ↔ _
  simp only [List.mem_filter, decide_eq_true_eq]
  exact Iff.rfl

/-- Whether the set has no member. -/
def isEmpty (s : VariantSet) : Bool := s.toList.isEmpty

/-- The names in every set of the list; `none` for no set. -/
def interAll : List VariantSet → Option VariantSet
  | [] => none
  | s :: ss => some (ss.foldl inter s)

end VariantSet

end Reskin
