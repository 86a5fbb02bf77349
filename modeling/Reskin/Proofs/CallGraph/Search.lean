import Mathlib.Data.List.TakeWhile
import Reskin.Proofs.CallGraph

/-!
# Walks as searches

A depth first search by recursion takes some names one after the other, passes over those it has
met, and searches through what a new name runs before it goes on to the next one. A name without a
body runs nothing, so the search goes on behind it, and it meets whatever is reached.

A walk keeps one list of names that wait instead. It meets the same names in the same order, up to
the first one without a body: this one is missing, and those ahead of it are what the walk has
reached. Nothing of this depends on what the graph held before.

## Main definitions

* `CallGraph.calleesOf`: what a name runs
* `CallGraph.search`: a depth first search by recursion

## Main results

* `CallGraph.nodup_search`, `CallGraph.mem_search_iff`: a search meets each name once, and just the
  names that are reached
* `CallGraph.walk_search`: a walk follows the search as far as names have bodies
* `CallGraph.search_of_build`: a graph that is built, with a missing section or without
-/

namespace Reskin.CallGraph

open Ini (Bodies Body)

variable {bodies : Bodies} {seen names : List Text} {n : Text}

/-! ## The search -/

/-- The names that a name runs; none if it has no body. -/
def calleesOf (bodies : Bodies) (name : Text) : List Text :=
  ((bodies.get? name).map (·.callees)).getD []

theorem calleesOf_of_body {b : Body} (h : bodies.get? n = some b) :
    calleesOf bodies n = b.callees := by
  simp [calleesOf, h]

theorem runs_iff {m : Text} : Runs bodies m n ↔ n ∈ calleesOf bodies m := by
  unfold Runs calleesOf
  cases bodies.get? m <;> simp

/-- The declared names that have not been met. -/
def unmet (bodies : Bodies) (seen : List Text) : List Text :=
  bodies.names.filter (!seen.contains ·)

theorem unmet_append (bodies : Bodies) (seen met : List Text) :
    unmet bodies (seen ++ met) = (unmet bodies seen).filter (!met.contains ·) := by
  rw [unmet, unmet, List.filter_filter]
  refine List.filter_congr fun m _ => ?_
  simp [Bool.and_comm]

theorem length_unmet_append_le (bodies : Bodies) (seen met : List Text) :
    (unmet bodies (seen ++ met)).length ≤ (unmet bodies seen).length := by
  rw [unmet_append]
  exact List.length_filter_le _ _

theorem length_unmet_lt {b : Body} (hb : bodies.get? n = some b) (hn : n ∉ seen) :
    (unmet bodies (seen ++ [n])).length < (unmet bodies seen).length := by
  have hmem : n ∈ unmet bodies seen :=
    List.mem_filter.2 ⟨Table.has_iff_mem_names.1 (by simp [Table.has, hb]), by simpa using hn⟩
  rw [unmet_append, List.length_filter_lt_length_iff_exists]
  exact ⟨n, hmem, by simp⟩

/-- **A depth first search** through some names, after others that have been met: the names that it
meets, in order. -/
def search (bodies : Bodies) (seen : List Text) : (names : List Text) → List Text
  | [] => []
  | n :: names =>
    if _ : n ∈ seen then search bodies seen names
    else
      let below := search bodies (seen ++ [n]) (calleesOf bodies n)
      n :: below ++ search bodies (seen ++ n :: below) names
termination_by names => ((unmet bodies seen).length, names.length)
decreasing_by
  · exact Prod.Lex.right _ (by simp)
  -- a name with a body is one less to meet; a name without one runs nothing
  · cases hb : bodies.get? n with
    | some b => exact Prod.Lex.left _ _ (length_unmet_lt hb ‹_›)
    | none =>
      exact Prod.Lex.right' _ (length_unmet_append_le bodies seen [n]) (by simp [calleesOf, hb])
  · exact Prod.Lex.right' _ (length_unmet_append_le bodies seen _) (by simp)

theorem search_of_mem (h : n ∈ seen) :
    search bodies seen (n :: names) = search bodies seen names := by
  rw [search, dif_pos h]

theorem search_of_not_mem (h : n ∉ seen) :
    search bodies seen (n :: names) = n :: search bodies (seen ++ [n]) (calleesOf bodies n) ++
      search bodies (seen ++ n :: search bodies (seen ++ [n]) (calleesOf bodies n)) names := by
  rw [search, dif_neg h]

/-- A search through two rows of names goes through the first, then through the second. -/
theorem search_append (seen names more : List Text) : search bodies seen (names ++ more) =
    search bodies seen names ++ search bodies (seen ++ search bodies seen names) more := by
  induction seen, names using search.induct bodies with
  | case1 seen => simp [search]
  | case2 seen n names h ih => rw [List.cons_append, search_of_mem h, search_of_mem h, ih]
  | case3 seen n names h below _ ih =>
    rw [List.cons_append, search_of_not_mem h, search_of_not_mem h, ih]
    simp [below]

/-! ## What a search meets -/

/-- **A search meets each name once**, and none that has been met before. -/
theorem nodup_search (bodies : Bodies) (seen names : List Text) :
    (search bodies seen names).Nodup ∧ ∀ n ∈ search bodies seen names, n ∉ seen := by
  induction seen, names using search.induct bodies with
  | case1 seen => simp [search]
  | case2 seen n names h ih => rwa [search_of_mem h]
  | case3 seen n names h below ihbelow ih =>
    obtain ⟨hbelow, hnew⟩ := ihbelow
    obtain ⟨hrest, hlater⟩ := ih
    simp only [List.mem_append, List.mem_cons, not_or] at hnew hlater
    rw [search_of_not_mem h]
    constructor
    · rw [List.nodup_append, List.nodup_cons]
      refine ⟨⟨fun hm => (hnew n hm).2.1 rfl, hbelow⟩, hrest, fun m hm k hk => ?_⟩
      rintro rfl
      rcases List.mem_cons.1 hm with rfl | hm
      · exact (hlater m hk).2.1 rfl
      · exact (hlater m hk).2.2 hm
    · intro m hm
      rcases List.mem_append.1 hm with hm | hm
      · rcases List.mem_cons.1 hm with rfl | hm
        · exact h
        · exact (hnew m hm).1
      · exact (hlater m hm).1

/-- What a search meets is reached from one of the names. -/
theorem exists_reaches_of_mem_search (h : n ∈ search bodies seen names) :
    ∃ r ∈ names, Reaches bodies r n := by
  induction seen, names using search.induct bodies with
  | case1 seen => simp [search] at h
  | case2 seen m names hm ih =>
    rw [search_of_mem hm] at h
    obtain ⟨r, hr, hreach⟩ := ih h
    exact ⟨r, List.mem_cons_of_mem _ hr, hreach⟩
  | case3 seen m names hm below ihbelow ih =>
    rw [search_of_not_mem hm] at h
    rcases List.mem_append.1 h with h | h
    · refine ⟨m, List.mem_cons_self, ?_⟩
      rcases List.mem_cons.1 h with rfl | h
      · exact .refl
      · obtain ⟨r, hr, hreach⟩ := ihbelow h
        exact .head (runs_iff.2 hr) hreach
    · obtain ⟨r, hr, hreach⟩ := ih h
      exact ⟨r, List.mem_cons_of_mem _ hr, hreach⟩

/-- **A search leaves nothing out**: it meets the names it goes through, and what those run that it
meets, unless they have been met before. -/
theorem followed_search (bodies : Bodies) (seen names : List Text) :
    names ⊆ seen ++ search bodies seen names ∧
      ∀ m ∈ search bodies seen names, calleesOf bodies m ⊆ seen ++ search bodies seen names := by
  induction seen, names using search.induct bodies with
  | case1 seen => simp [search]
  | case2 seen n names h ih =>
    rw [search_of_mem h]
    exact ⟨List.cons_subset.2 ⟨List.mem_append_left _ h, ih.1⟩, ih.2⟩
  | case3 seen n names h below ihbelow ih =>
    obtain ⟨hcallees, hbelow⟩ := ihbelow
    obtain ⟨hnames, hrest⟩ := ih
    rw [search_of_not_mem h]
    have hall : seen ++ n :: below ++ search bodies (seen ++ n :: below) names =
        seen ++ (n :: below ++ search bodies (seen ++ n :: below) names) := List.append_assoc ..
    have hsub : seen ++ [n] ++ below ⊆
        seen ++ (n :: below ++ search bodies (seen ++ n :: below) names) := by
      rw [← hall, ← List.append_cons]
      exact List.subset_append_left _ _
    rw [hall] at hnames hrest
    refine ⟨List.cons_subset.2 ⟨by simp, hnames⟩, fun m hm => ?_⟩
    rcases List.mem_append.1 hm with hm | hm
    · rcases List.mem_cons.1 hm with rfl | hm
      · exact List.Subset.trans hcallees hsub
      · exact List.Subset.trans (hbelow m hm) hsub
    · exact hrest m hm

/-- **A search from some roots** meets what they reach. -/
theorem mem_search_iff {roots : List Text} :
    n ∈ search bodies [] roots ↔ ∃ r ∈ roots, Reaches bodies r n := by
  refine ⟨exists_reaches_of_mem_search, ?_⟩
  rintro ⟨r, hr, hreach⟩
  obtain ⟨hroots, hfollowed⟩ := followed_search bodies [] roots
  induction hreach with
  | refl => exact hroots hr
  | tail _ hrun ih => exact hfollowed _ ih (runs_iff.1 hrun)

/-! ## Walks -/

/-- **A walk follows the search** as far as names have bodies: the first one without a body is
missing, and those ahead of it are reached. -/
theorem walk_search (bodies reached : Bodies) (waiting : List Text) :
    (walk bodies reached waiting).1 =
        (search bodies reached.names waiting).find? (!bodies.has ·) ∧
      (walk bodies reached waiting).2.names =
        reached.names ++ (search bodies reached.names waiting).takeWhile (bodies.has ·) := by
  -- Induction on the walk. What a section runs waits in front, so it is searched ahead of the rest.
  induction reached, waiting using walk.induct bodies with
  | case1 reached => simp [walk, search]
  | case2 reached name waiting hh ih =>
    rw [walk, dif_pos hh, search_of_mem (Table.has_iff_mem_names.1 hh)]
    exact ih
  | case3 reached name waiting hh hnone =>
    have hhas : bodies.has name = false := by simp [Table.has, hnone]
    have hnew : name ∉ reached.names := fun hm => hh (Table.has_iff_mem_names.2 hm)
    rw [walk_of_missing waiting hh hnone, search_of_not_mem hnew]
    simp [hhas]
  | case4 reached name waiting hh b hb ih =>
    have hhas : bodies.has name = true := by simp [Table.has, hb]
    have hnames : Table.names (reached ++ [(name, b)]) = reached.names ++ [name] := by
      simp [Table.names]
    have hnew : name ∉ reached.names := fun hm => hh (Table.has_iff_mem_names.2 hm)
    rw [hnames, search_append, List.append_assoc, List.singleton_append] at ih
    rw [walk_of_body waiting hh hb, search_of_not_mem hnew, calleesOf_of_body hb,
      List.cons_append, List.find?_cons_of_neg (by simp [hhas]), List.takeWhile_cons_of_pos hhas]
    exact ⟨ih.1, by rw [ih.2]; simp⟩

/-! ## Graphs -/

/-- What is missing from a graph and what it holds, as the search from its roots has it. -/
theorem build_search (g : CallGraph) (roots : List Text) (bodies : Bodies) :
    (g.build roots bodies).1 = (search bodies [] roots).find? (!bodies.has ·) ∧
      (g.build roots bodies).2.order = (search bodies [] roots).takeWhile (bodies.has ·) :=
  walk_search bodies [] roots

/-- **A graph that is built without fault** holds all that the search meets. -/
theorem order_eq_search {g : CallGraph} {roots : List Text} {bodies : Bodies}
    (h : (g.build roots bodies).1 = none) :
    (g.build roots bodies).2.order = search bodies [] roots ∧
      ∀ n ∈ search bodies [] roots, bodies.has n = true := by
  obtain ⟨hmissing, horder⟩ := build_search g roots bodies
  rw [hmissing, List.find?_eq_none] at h
  have hhas : ∀ n ∈ search bodies [] roots, bodies.has n = true := fun n hn => by simpa using h n hn
  exact ⟨horder.trans (List.takeWhile_eq_self_iff.2 hhas), hhas⟩

/-- However often names are remembered, the sections of a graph stay, and so does its style. -/
theorem foldl_ensureNames (g : CallGraph) (later : List (List Text)) :
    (later.foldl ensureNames g).reached = g.reached ∧
      (later.foldl ensureNames g).style = g.style ∧
      (g.RemembersByStyle → (later.foldl ensureNames g).RemembersByStyle) := by
  induction later generalizing g with
  | nil => exact ⟨rfl, rfl, id⟩
  | cons variants later ih =>
    obtain ⟨hreached, hstyle, hremembers⟩ := ih (g.ensureNames variants)
    exact ⟨hreached, hstyle, fun h => hremembers (h.ensureNames variants)⟩

/-- **A graph that is built from roots**, whatever it held before. It is built without fault exactly
if all that the roots reach is declared. A search from the roots meets what they reach, each name
once. The names it meets are reached in the same order, each with its body, up to the first one that
is not declared, which is missing. Remembering names later changes neither the order nor a name. -/
theorem search_of_build (g : CallGraph) (roots : List Text) (bodies : Bodies) :
    ((g.build roots bodies).1 = none ↔
        ∀ r ∈ roots, ∀ n, Reaches bodies r n → bodies.has n = true) ∧
      (search bodies [] roots).Nodup ∧
      (∀ n, n ∈ search bodies [] roots ↔ ∃ r ∈ roots, Reaches bodies r n) ∧
      (g.build roots bodies).1 = (search bodies [] roots).find? (!bodies.has ·) ∧
      (g.build roots bodies).2.order = (search bodies [] roots).takeWhile (bodies.has ·) ∧
      ((g.build roots bodies).1 = none → (g.build roots bodies).2.order = search bodies [] roots) ∧
      (∀ e ∈ (g.build roots bodies).2.reached, bodies.get? e.1 = some e.2) ∧
      ∀ later : List (List Text),
        (later.foldl ensureNames (g.build roots bodies).2).order = (g.build roots bodies).2.order ∧
        ∀ n v, (later.foldl ensureNames (g.build roots bodies).2).nameFor n v =
          g.style.rename n v := by
  obtain ⟨hmissing, horder⟩ := build_search g roots bodies
  refine ⟨?_, (nodup_search bodies [] roots).1, fun n => mem_search_iff, hmissing, horder,
    fun hnone => (order_eq_search hnone).1, fun e he => (reaches_of_build rfl he).1,
    fun later => ?_⟩
  · constructor
    · intro hnone r hr n hreach
      exact (order_eq_search hnone).2 n (mem_search_iff.2 ⟨r, hr, hreach⟩)
    · intro h
      rw [hmissing, List.find?_eq_none]
      intro n hn
      obtain ⟨r, hr, hreach⟩ := mem_search_iff.1 hn
      simp [h r hr n hreach]
  · obtain ⟨hreached, hstyle, hremembers⟩ := foldl_ensureNames (g.build roots bodies).2 later
    refine ⟨by rw [order, hreached, order], fun n v => ?_⟩
    have hnew : (g.build roots bodies).2.RemembersByStyle := by
      intro e he
      simp [build] at he
    rw [(hremembers hnew).namesByStyle, hstyle]
    rfl

end Reskin.CallGraph
