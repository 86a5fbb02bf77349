import Mathlib.Data.List.Forall2
import Reskin.Proofs.Naming.Resources
import Reskin.Proofs.Text.Utf8

/-!
# Sorting resources

The comparison of resources is a total preorder on all names. The names that it leaves level are
equal, or copies with one merge index. So sorting puts the names without an index first, in the
order of their bytes, and behind them the copies by their indices. Copies with one index stay in the
order given, which is all that the result depends on besides the names.

## Main definitions

* `Naming.Arranged`: names put in order, those without an index and the copies
* `Naming.Level`: names that the comparison does not tell apart

## Main results

* `Naming.arranged_sortResources`: sorting arranges names
* `Naming.Arranged.unique`: names can be arranged in one way only
* `Naming.Arranged.level`: the same names in another order
* `Naming.resources_sorted`: all of this
-/

namespace Reskin

/-! ## Lists -/

/-- Members with a property that no member has behind one without it stand first. -/
theorem filter_append_filter_not {α : Type} {p : α → Bool} {l : List α}
    (h : l.Pairwise fun a b => p b = true → p a = true) :
    l.filter p ++ l.filter (!p ·) = l := by
  induction l with
  | nil => rfl
  | cons a l ih =>
    rw [List.pairwise_cons] at h
    by_cases ha : p a = true
    · rw [List.filter_cons_of_pos ha, List.filter_cons_of_neg (by simp [ha]), List.cons_append,
        ih h.2]
    · have hnone : ∀ b ∈ a :: l, ¬ p b = true :=
        List.forall_mem_cons.2 ⟨ha, fun b hb hpb => ha (h.1 b hb hpb)⟩
      rw [List.filter_eq_nil_iff.2 hnone, List.nil_append,
        List.filter_eq_self.2 fun b hb => by simpa using hnone b hb]

/-- Where every member has a value, the list of the values leaves none out. -/
theorem map_eq_map_filterMap {α β : Type} {f : α → Option β} {l : List α}
    (h : ∀ a ∈ l, (f a).isSome = true) : l.map f = (l.filterMap f).map some := by
  induction l with
  | nil => rfl
  | cons a l ih =>
    rw [List.forall_mem_cons] at h
    obtain ⟨b, hb⟩ := Option.isSome_iff_exists.1 h.1
    rw [List.filterMap_cons_some hb, List.map_cons, List.map_cons, hb, ih h.2]

/-- Lists with the same values in the same places, and the same members for each value, in order. -/
theorem eq_of_map_eq_of_filter_eq {α β : Type} [DecidableEq β] {f : α → β} {l l' : List α}
    (hmap : l.map f = l'.map f)
    (hfilter : ∀ b, l.filter (fun a => f a = b) = l'.filter fun a => f a = b) : l = l' := by
  induction l generalizing l' with
  | nil => exact (List.map_eq_nil_iff.1 hmap.symm).symm
  | cons a l ih =>
    cases l' with
    | nil => cases hmap
    | cons a' l' =>
      obtain ⟨hvalue, hrest⟩ := List.cons.inj hmap
      have hhere := hfilter (f a)
      rw [List.filter_cons_of_pos (by simp), List.filter_cons_of_pos (by simp [hvalue])] at hhere
      obtain rfl := (List.cons.inj hhere).1
      congr 1
      refine ih hrest fun b => ?_
      have hb := hfilter b
      by_cases hab : f a = b
      · rw [List.filter_cons_of_pos (by simp [hab]), List.filter_cons_of_pos (by simp [hab])] at hb
        exact (List.cons.inj hb).2
      · rwa [List.filter_cons_of_neg (by simp [hab]), List.filter_cons_of_neg (by simp [hab])] at hb

namespace Naming

/-! ## The comparison of two names -/

theorem compareResources_self (a : Text) : compareResources a a = .eq :=
  Ordering.eq_swap_iff_eq_eq.1 (compareResources_swap a a)

variable {a b : Text}

/-- Names without an index compare by their bytes. -/
theorem compareResources_of_none (ha : mergeIndex? a = none) (hb : mergeIndex? b = none) :
    compareResources a b = compare a.bytes b.bytes := by
  rw [compareResources, ha, hb, Text.compare_bytes]

/-- Copies compare by their indices. -/
theorem compareResources_of_some {i j : Int} (ha : mergeIndex? a = some i)
    (hb : mergeIndex? b = some j) : compareResources a b = compare i j := by
  rw [compareResources, ha, hb]

/-- No copy comes ahead of a name without an index. -/
theorem isNone_of_isLE (h : (compareResources a b).isLE = true)
    (hb : (mergeIndex? b).isNone = true) : (mergeIndex? a).isNone = true := by
  cases ha : mergeIndex? a with
  | none => rfl
  | some i =>
    rw [Option.isNone_iff_eq_none] at hb
    rw [compareResources, ha, hb] at h
    cases h

/-! ## Sorted names -/

/-- **Names put in order**: first those without a merge index, in the order of their bytes, then the
copies by their indices. Copies with one index stay in the order given. -/
structure Arranged (given plain copies : List Text) : Prop where
  perm : (plain ++ copies).Perm given
  plain_none : ∀ n ∈ plain, mergeIndex? n = none
  plain_ascending : plain.Pairwise fun a b => (compare a.bytes b.bytes).isLE = true
  copies_some : ∀ n ∈ copies, (mergeIndex? n).isSome = true
  copies_ascending : (copies.filterMap mergeIndex?).Pairwise (· ≤ ·)
  stable : ∀ i, copies.filter (fun n => mergeIndex? n = some i) =
    given.filter fun n => mergeIndex? n = some i

theorem pairwise_sortResources (given : List Text) :
    (sortResources given).Pairwise fun a b => (compareResources a b).isLE = true :=
  List.pairwise_mergeSort isLE_compareResources_trans isLE_compareResources_total given

theorem sortResources_perm (given : List Text) : (sortResources given).Perm given :=
  List.mergeSort_perm given _

/-- Sorting keeps the order of copies with one index. -/
theorem filter_sortResources (given : List Text) (i : Int) :
    (sortResources given).filter (fun n => mergeIndex? n = some i) =
      given.filter fun n => mergeIndex? n = some i := by
  have hlevel : (given.filter fun n => mergeIndex? n = some i).Pairwise fun a b =>
      (compareResources a b).isLE = true := by
    refine List.pairwise_of_forall_mem_list fun a ha b hb => ?_
    have ha : mergeIndex? a = some i := by simpa using (List.mem_filter.1 ha).2
    have hb : mergeIndex? b = some i := by simpa using (List.mem_filter.1 hb).2
    rw [compareResources_of_some ha hb]
    exact Std.isLE_compare.2 (Int.le_refl i)
  have hsub := (List.sublist_mergeSort isLE_compareResources_trans isLE_compareResources_total
    hlevel List.filter_sublist).filter fun n => mergeIndex? n = some i
  rw [List.filter_filter] at hsub
  simp only [Bool.and_self] at hsub
  exact (hsub.eq_of_length ((sortResources_perm given).filter _).length_eq.symm).symm

/-- **Sorting arranges names.** -/
theorem arranged_sortResources (given : List Text) :
    ∃ plain copies, sortResources given = plain ++ copies ∧ Arranged given plain copies := by
  have hsorted := pairwise_sortResources given
  have hsplit := filter_append_filter_not (hsorted.imp fun h => isNone_of_isLE h)
  refine ⟨_, _, hsplit.symm, hsplit.symm ▸ sortResources_perm given, ?_, ?_, ?_, ?_, ?_⟩
  · intro n hn
    simpa using (List.mem_filter.1 hn).2
  · refine (hsorted.filter _).imp_of_mem fun {a b} ha hb h => ?_
    have ha : mergeIndex? a = none := by simpa using (List.mem_filter.1 ha).2
    have hb : mergeIndex? b = none := by simpa using (List.mem_filter.1 hb).2
    rwa [compareResources_of_none ha hb] at h
  · intro n hn
    simpa using (List.mem_filter.1 hn).2
  · refine List.pairwise_filterMap.2 ((hsorted.filter _).imp fun {a b} h i hi j hj => ?_)
    rw [compareResources_of_some hi hj] at h
    exact Std.isLE_compare.1 h
  · intro i
    rw [List.filter_filter, ← filter_sortResources]
    refine List.filter_congr fun n _ => ?_
    cases mergeIndex? n <;> simp

/-! ## Names given in two orders -/

/-- Names that are equal, or copies with one merge index. -/
def Level (n m : Text) : Prop := n = m ∨ ∃ i, mergeIndex? n = some i ∧ mergeIndex? m = some i

namespace Arranged

variable {given given' plain plain' copies copies' : List Text}

theorem filter_isNone (h : Arranged given plain copies) :
    (plain ++ copies).filter (fun n => (mergeIndex? n).isNone) = plain := by
  rw [List.filter_append, List.filter_eq_self.2 fun n hn => by simp [h.plain_none n hn],
    List.filter_eq_nil_iff.2 fun n hn => by simpa [Option.isSome_iff_ne_none] using h.copies_some n hn,
    List.append_nil]

theorem filterMap_mergeIndex? (h : Arranged given plain copies) :
    (plain ++ copies).filterMap mergeIndex? = copies.filterMap mergeIndex? := by
  rw [List.filterMap_append, List.filterMap_eq_nil_iff.2 h.plain_none, List.nil_append]

/-- **The same names in another order** give the same names without an index, and copies with the
same indices. -/
theorem agree (h : Arranged given plain copies) (h' : Arranged given' plain' copies')
    (hgiven : given.Perm given') :
    plain = plain' ∧ copies.map mergeIndex? = copies'.map mergeIndex? := by
  have hall : (plain ++ copies).Perm (plain' ++ copies') :=
    h.perm.trans (hgiven.trans h'.perm.symm)
  constructor
  · have hperm : plain.Perm plain' := by
      have hfilter := hall.filter fun n => (mergeIndex? n).isNone
      rwa [h.filter_isNone, h'.filter_isNone] at hfilter
    refine hperm.eq_of_pairwise (fun a b _ _ hab hba => ?_) h.plain_ascending h'.plain_ascending
    rw [Text.compare_bytes] at hab hba
    exact Std.LawfulEqOrd.eq_of_compare (Std.OrientedCmp.isLE_antisymm hab hba)
  · have hperm : (copies.filterMap mergeIndex?).Perm (copies'.filterMap mergeIndex?) := by
      have hindices := hall.filterMap mergeIndex?
      rwa [h.filterMap_mergeIndex?, h'.filterMap_mergeIndex?] at hindices
    rw [map_eq_map_filterMap h.copies_some, map_eq_map_filterMap h'.copies_some,
      hperm.eq_of_pairwise (fun i j _ _ hij hji => Int.le_antisymm hij hji) h.copies_ascending
        h'.copies_ascending]

/-- **Names are arranged in one way only.** -/
theorem unique (h : Arranged given plain copies) (h' : Arranged given plain' copies') :
    plain = plain' ∧ copies = copies' := by
  obtain ⟨hplain, hindices⟩ := h.agree h' (.refl _)
  -- the indices agree place by place, and for each index the copies are those given, in order
  refine ⟨hplain, eq_of_map_eq_of_filter_eq hindices fun index => ?_⟩
  cases index with
  | some i => exact (h.stable i).trans (h'.stable i).symm
  | none =>
    have hnone {given copies} (h : Arranged given plain copies) :
        copies.filter (fun n => mergeIndex? n = none) = [] :=
      List.filter_eq_nil_iff.2 fun n hn => by
        simpa [Option.isSome_iff_ne_none] using h.copies_some n hn
    rw [hnone h, hnone (hplain ▸ h')]

/-- **Names given in two orders** are sorted to names that are level, place by place. -/
theorem level (h : Arranged given plain copies) (h' : Arranged given' plain' copies')
    (hgiven : given.Perm given') : List.Forall₂ Level (plain ++ copies) (plain' ++ copies') := by
  obtain ⟨rfl, hindices⟩ := h.agree h' hgiven
  have hcopies : List.Forall₂ (fun n m => mergeIndex? n = mergeIndex? m) copies copies' := by
    rwa [← List.forall₂_eq_eq_eq, List.forall₂_map_left_iff, List.forall₂_map_right_iff] at hindices
  refine List.rel_append (List.forall₂_same.2 fun n _ => .inl rfl) ?_
  refine ((List.forall₂_and_left _ _).2 ⟨h.copies_some, hcopies⟩).imp fun n m ⟨hsome, hsame⟩ => ?_
  obtain ⟨i, hi⟩ := Option.isSome_iff_exists.1 hsome
  exact .inr ⟨i, hi, hsame ▸ hi⟩

end Arranged

/-- **Sorting resources.** Every name compares equal to itself, swapped names compare the other way
round, and the comparison is transitive. Sorted names are those given, arranged, and there is one
way only to arrange them. The names given in another order are sorted to the same ones, up to the
order of copies with one index. -/
theorem resources_sorted (a b c : Text) (given given' : List Text) :
    compareResources a a = .eq ∧
      compareResources b a = (compareResources a b).swap ∧
      ((compareResources a b).isLE = true → (compareResources b c).isLE = true →
        (compareResources a c).isLE = true) ∧
      (∃ plain copies, sortResources given = plain ++ copies ∧ Arranged given plain copies ∧
        ∀ plain' copies', Arranged given plain' copies' → plain' = plain ∧ copies' = copies) ∧
      (given.Perm given' → List.Forall₂ Level (sortResources given) (sortResources given')) := by
  refine ⟨compareResources_self a, compareResources_swap a b, isLE_compareResources_trans a b c,
    ?_, fun hgiven => ?_⟩
  · obtain ⟨plain, copies, hsort, harranged⟩ := arranged_sortResources given
    exact ⟨plain, copies, hsort, harranged, fun _ _ h => h.unique harranged⟩
  · obtain ⟨plain, copies, hsort, harranged⟩ := arranged_sortResources given
    obtain ⟨plain', copies', hsort', harranged'⟩ := arranged_sortResources given'
    rw [hsort, hsort']
    exact harranged.level harranged' hgiven

/-- Two copies with one index, however it is written, a copy with a negative one, and a name whose
number is out of range. -/
theorem resources_sorted_copies :
    (compareResources "Dress.-100".toList "Hat. +2 ".toList).isLE = true ∧
      sortResources ["Dress.2".toList, "Hat. +2 ".toList, "Dress.-100".toList,
          "Coat.9223372036854775808".toList] =
        ["Coat.9223372036854775808".toList, "Dress.-100".toList, "Dress.2".toList,
          "Hat. +2 ".toList] ∧
      List.Forall₂ Level
        (sortResources ["Dress.2".toList, "Hat. +2 ".toList, "Dress.-100".toList,
          "Coat.9223372036854775808".toList])
        (sortResources ["Hat. +2 ".toList, "Dress.-100".toList, "Dress.2".toList,
          "Coat.9223372036854775808".toList]) := by
  obtain ⟨-, -, htrans, ⟨plain, copies, hsort, -, hunique⟩, hlevel⟩ :=
    resources_sorted "Dress.-100".toList "Dress.2".toList "Hat. +2 ".toList
      ["Dress.2".toList, "Hat. +2 ".toList, "Dress.-100".toList,
        "Coat.9223372036854775808".toList]
      ["Hat. +2 ".toList, "Dress.-100".toList, "Dress.2".toList,
        "Coat.9223372036854775808".toList]
  refine ⟨htrans (by decide) (by decide), ?_, hlevel (by decide)⟩
  have hperm : ["Coat.9223372036854775808".toList, "Dress.-100".toList, "Dress.2".toList,
      "Hat. +2 ".toList].Perm ["Dress.2".toList, "Hat. +2 ".toList, "Dress.-100".toList,
        "Coat.9223372036854775808".toList] := by decide
  have hdress : mergeIndex? "Dress.2".toList = some 2 := by decide
  have hhat : mergeIndex? "Hat. +2 ".toList = some 2 := by decide
  have hlast : mergeIndex? "Dress.-100".toList = some (-100) := by decide
  have hcoat : mergeIndex? "Coat.9223372036854775808".toList = none := by decide
  generalize "Dress.2".toList = dress at *
  generalize "Hat. +2 ".toList = hat at *
  generalize "Dress.-100".toList = last at *
  generalize "Coat.9223372036854775808".toList = coat at *
  obtain ⟨rfl, rfl⟩ := hunique [coat] [last, dress, hat]
    { perm := hperm
      plain_none := by simp [hcoat]
      plain_ascending := List.pairwise_singleton _ _
      copies_some := by simp [hdress, hhat, hlast]
      copies_ascending := by simp [hdress, hhat, hlast]
      stable := fun i => by
        by_cases hi : 2 = i
        · simp [hdress, hhat, hlast, hcoat, ← hi]
        · simp [List.filter_cons, hdress, hhat, hlast, hcoat, hi] }
  exact hsort

end Naming

end Reskin
