import Mathlib.Data.List.Nodup
import Reskin.Naming

/-!
# The order of resources

Resources are compared by their merge indices where both have one, by their code points where
neither has, and one without an index comes ahead of one with an index. This is an order in which
different names may be level; these stay in the order in which they are given.

## Main definitions

* `Naming.InOrder`: names in the order of resources, each once

## Main results

* `Naming.isLE_compareResources_trans`, `Naming.compareResources_swap`: the comparison is a total
  preorder
* `Naming.inOrder_sortResources`: what sorting different names gives
* `Naming.InOrder.unique`: names have one order
-/

namespace Reskin

/-- No name comes twice among the first places of names. -/
theorem nodup_eraseDups (ns : List Text) : ns.eraseDups.Nodup := by
  induction hn : ns.length using Nat.strongRecOn generalizing ns with
  | _ k ih =>
    cases ns with
    | nil => exact List.nodup_nil
    | cons n ns =>
      have hlen := List.length_filter_le (fun m => !m == n) ns
      rw [List.eraseDups_cons, List.nodup_cons, List.mem_eraseDups]
      refine ⟨by simp, ih _ ?_ _ rfl⟩
      rw [List.length_cons] at hn
      omega

/-- Of two different names on a list one comes first. -/
theorem pair_sublist_or {a b : Text} {l : List Text} (ha : a ∈ l) (hb : b ∈ l) (hne : a ≠ b) :
    [a, b].Sublist l ∨ [b, a].Sublist l := by
  obtain ⟨before, after, rfl⟩ := List.append_of_mem ha
  rcases List.mem_append.1 hb with hb | hb
  · exact .inr ((List.singleton_sublist.2 hb).append (List.singleton_sublist.2 List.mem_cons_self))
  · have hb : b ∈ after := (List.mem_cons.1 hb).resolve_left hne.symm
    exact .inl (((List.singleton_sublist.2 hb).cons_cons a).trans (List.sublist_append_right _ _))

/-- On a list without repetition not both come first. -/
theorem not_pair_sublist_of_nodup {a b : Text} {l : List Text} (hl : l.Nodup)
    (hab : [a, b].Sublist l) : ¬ [b, a].Sublist l := by
  induction l with
  | nil => simp at hab
  | cons c l ih =>
    rw [List.nodup_cons] at hl
    intro hba
    rcases List.sublist_cons_iff.1 hab with htail | ⟨r, hr, hb⟩ <;>
      rcases List.sublist_cons_iff.1 hba with htail' | ⟨r', hr', ha⟩
    · exact ih hl.2 htail htail'
    · obtain ⟨rfl, rfl⟩ := List.cons.inj hr'
      exact hl.1 (htail.subset (by simp : b ∈ [a, b]))
    · obtain ⟨rfl, rfl⟩ := List.cons.inj hr
      exact hl.1 (htail'.subset (by simp : a ∈ [b, a]))
    · obtain ⟨rfl, rfl⟩ := List.cons.inj hr
      obtain ⟨rfl, rfl⟩ := List.cons.inj hr'
      exact hl.1 (ha.subset List.mem_cons_self)

namespace Naming

/-! ## The comparison -/

theorem isLE_compareResources_trans (a b c : Text) (hab : (compareResources a b).isLE = true)
    (hbc : (compareResources b c).isLE = true) : (compareResources a c).isLE = true := by
  unfold compareResources at *
  -- an index on the left alone makes a comparison fail, one on the right alone makes it succeed
  cases ha : mergeIndex? a <;> cases hb : mergeIndex? b <;> cases hc : mergeIndex? c <;>
    simp only [ha, hb, hc] at hab hbc ⊢
  · exact Std.TransCmp.isLE_trans hab hbc
  · exact hbc
  · exact absurd hbc (by decide)
  · exact hab
  · exact absurd hab (by decide)
  · exact absurd hab (by decide)
  · exact absurd hbc (by decide)
  · exact Std.TransCmp.isLE_trans hab hbc

/-- Names compare the other way round if they are swapped. -/
theorem compareResources_swap (a b : Text) :
    compareResources b a = (compareResources a b).swap := by
  have swap {α : Type} [Ord α] [Std.OrientedOrd α] (x y : α) :
      compare y x = (compare x y).swap := Std.OrientedCmp.eq_swap
  unfold compareResources
  cases mergeIndex? a with
  | none =>
    cases mergeIndex? b with
    | none => exact swap a b
    | some j => rfl
  | some i =>
    cases mergeIndex? b with
    | none => rfl
    | some j => exact swap i j

theorem isLE_compareResources_total (a b : Text) :
    ((compareResources a b).isLE || (compareResources b a).isLE) = true := by
  rw [compareResources_swap a b]
  cases compareResources a b <;> rfl

/-! ## Sorting -/

/-- **Names in the order of resources**: the given ones, each once, ascending, and level ones in the
order in which they are given first. -/
structure InOrder (given names : List Text) : Prop where
  nodup : names.Nodup
  mem_iff : ∀ n, n ∈ names ↔ n ∈ given
  ascending : names.Pairwise fun a b => (compareResources a b).isLE = true
  stable : ∀ a b, (compareResources a b).isLE = true → [a, b].Sublist given.eraseDups →
    [a, b].Sublist names

/-- **Sorting different names** puts them in the order of resources. -/
theorem inOrder_sortResources (given : List Text) :
    InOrder given (sortResources given.eraseDups) := by
  have hperm := List.mergeSort_perm given.eraseDups fun a b => (compareResources a b).isLE
  constructor
  · exact hperm.nodup_iff.2 (nodup_eraseDups given)
  · intro n
    rw [sortResources, hperm.mem_iff, List.mem_eraseDups]
  · exact List.pairwise_mergeSort isLE_compareResources_trans isLE_compareResources_total _
  · intro a b hab hsub
    exact List.pair_sublist_mergeSort isLE_compareResources_trans isLE_compareResources_total hab
      hsub

/-- **Names have one order.** -/
theorem InOrder.unique {given names names' : List Text} (h : InOrder given names)
    (h' : InOrder given names') : names = names' := by
  have ahead {l : List Text} (hl : InOrder given l) : l.Pairwise fun a b =>
      (compareResources a b).isLE = true ∧
        ((compareResources b a).isLE = true → [a, b].Sublist given.eraseDups) := by
    rw [List.pairwise_iff_forall_sublist]
    intro a b hab
    have hle := List.pairwise_iff_forall_sublist.1 hl.ascending hab
    have hne : a ≠ b := List.pairwise_iff_forall_sublist.1 hl.nodup hab
    have hmem {n : Text} (hn : n ∈ l) : n ∈ given.eraseDups :=
      List.mem_eraseDups.2 ((hl.mem_iff n).1 hn)
    refine ⟨hle, fun hge => ?_⟩
    have ha : a ∈ given.eraseDups := hmem (hab.subset (by simp))
    have hb : b ∈ given.eraseDups := hmem (hab.subset (by simp))
    rcases pair_sublist_or ha hb hne with hfirst | hfirst
    · exact hfirst
    · exact absurd (hl.stable b a hge hfirst) (not_pair_sublist_of_nodup hl.nodup hab)
  have hperm : names.Perm names' := (List.perm_ext_iff_of_nodup h.nodup h'.nodup).2 fun n =>
    (h.mem_iff n).trans (h'.mem_iff n).symm
  refine hperm.eq_of_pairwise (fun a b _ _ hab hba => ?_) (ahead h) (ahead h')
  exact absurd (hba.2 hab.1) (not_pair_sublist_of_nodup (nodup_eraseDups given) (hab.2 hba.1))

end Naming

end Reskin
