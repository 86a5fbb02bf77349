import Reskin.Proofs.CallGraph.Search

/-!
# The order of a walk

A walk keeps one list of names that wait. What it reaches comes in the order of a depth first search
all the same: a section comes ahead of all that is first reached through what it runs, and this comes
ahead of the names that waited behind it. The search is given by its rules here, for declared names
only; they allow one result, which is that of the search by recursion.

## Main definitions

* `CallGraph.Visits`: the rules of a depth first search
* `CallGraph.Preorder`: the names reached from roots, in the order of a search

## Main results

* `CallGraph.Visits.eq_search`, `CallGraph.visits_search`: the rules and the recursion agree
* `CallGraph.preorder_of_build`: the order of a graph
-/

namespace Reskin.CallGraph

open Ini (Bodies Body)

/-- **A depth first search** through names, after some that have been seen, and what it finds. -/
inductive Visits (bodies : Bodies) : (seen names found : List Text) → Prop
  | nil {seen : List Text} : Visits bodies seen [] []
  /-- A name that has been seen is passed over. -/
  | skip {seen names found : List Text} {n : Text} : n ∈ seen → Visits bodies seen names found →
    Visits bodies seen (n :: names) found
  /-- A new name is found first, then all that a search through what it runs finds, then the rest. -/
  | visit {seen names below found : List Text} {n : Text} {b : Body} : n ∉ seen →
    bodies.get? n = some b → Visits bodies (seen ++ [n]) b.callees below →
    Visits bodies (seen ++ n :: below) names found →
    Visits bodies seen (n :: names) (n :: below ++ found)

variable {bodies : Bodies} {seen names found : List Text}

/-- **The rules have one result**, that of the recursion. -/
theorem Visits.eq_search (h : Visits bodies seen names found) :
    found = search bodies seen names := by
  induction h with
  | nil => rw [search]
  | skip hn _ ih => rw [search_of_mem hn, ih]
  | visit hn hb _ _ ihbelow ih => rw [search_of_not_mem hn, calleesOf_of_body hb, ← ihbelow, ← ih]

/-- The recursion keeps to the rules where all that it meets is declared. -/
theorem visits_search (h : ∀ n ∈ search bodies seen names, bodies.has n = true) :
    Visits bodies seen names (search bodies seen names) := by
  induction seen, names using search.induct bodies with
  | case1 seen =>
    rw [search]
    exact .nil
  | case2 seen n names hn ih =>
    rw [search_of_mem hn] at h ⊢
    exact .skip hn (ih h)
  | case3 seen n names hn below ihbelow ih =>
    rw [search_of_not_mem hn] at h ⊢
    obtain ⟨b, hb⟩ := Option.isSome_iff_exists.1 (h n (by simp))
    refine .visit hn hb ?_ (ih fun m hm => h m (by simpa [below] using .inr (.inr hm)))
    rw [← calleesOf_of_body hb]
    exact ihbelow fun m hm => h m (by simp [hm])

/-- **The names reached from some roots**, each once, in the order of a search through the roots. -/
structure Preorder (bodies : Bodies) (roots order : List Text) : Prop where
  visits : Visits bodies [] roots order
  nodup : order.Nodup
  mem_iff : ∀ n, n ∈ order ↔ ∃ r ∈ roots, Reaches bodies r n

/-- Roots have one order. -/
theorem Preorder.unique {roots order order' : List Text} (h : Preorder bodies roots order)
    (h' : Preorder bodies roots order') : order = order' :=
  h.visits.eq_search.trans h'.visits.eq_search.symm

/-- **The order of a graph** that is built without fault. -/
theorem preorder_of_build {g g' : CallGraph} {roots : List Text}
    (h : g.build roots bodies = (none, g')) : Preorder bodies roots g'.order := by
  obtain ⟨horder, hhas⟩ := order_eq_search (congrArg Prod.fst h)
  obtain rfl : (g.build roots bodies).2 = g' := congrArg Prod.snd h
  rw [horder]
  exact ⟨visits_search hhas, (nodup_search bodies [] roots).1, fun n => mem_search_iff⟩

end Reskin.CallGraph
