import Mathlib.Logic.Relation
import Reskin.CallGraph

/-!
# Walks and their graphs

A walk that meets no missing section has followed every call, so the graph it leaves is closed; and
a walk inside a closed set of declared names meets no missing section. A walk fails exactly if calls
lead from a root to a name that is not declared. The names that a graph remembers are those its
style gives.

## Main definitions

* `CallGraph.Runs`, `CallGraph.Reaches`: calls, and where they lead
* `CallGraph.Walking`: what holds along a walk
* `CallGraph.Built`: graphs of declared sections that are closed under calls
* `CallGraph.NamesByStyle`: graphs whose generated names are those of their style

## Main results

* `CallGraph.walk_of_closed`: no section is missing inside a closed set of declared names
* `CallGraph.walk_spec`: a walk that ends has followed every call
* `CallGraph.walk_missing`: what a walk misses is reached from a root and not declared
* `CallGraph.mem_walk`: what a walk reaches is reached from a root and declared
* `CallGraph.build_spec`: a graph built without fault is closed and holds its roots
* `CallGraph.exists_build_iff`: a graph is built without fault exactly if all that its roots reach
  is declared
* `CallGraph.namesByStyle_ensureNames`: remembering names changes none
-/

namespace Reskin

open Ini (Bodies Body)

namespace Table

variable {α : Type} {t : Table α} {name : Text} {a : α}

theorem mem_of_get?_eq_some (h : t.get? name = some a) : (name, a) ∈ t := by
  obtain ⟨e, he, rfl⟩ := Option.map_eq_some_iff.1 h
  have hn : e.1 = name := by simpa using List.find?_some he
  exact hn ▸ List.mem_of_find?_eq_some he

theorem has_iff : t.has name = true ↔ ∃ a, (name, a) ∈ t := by
  simp [has, get?]

theorem has_iff_mem_names : t.has name = true ↔ name ∈ t.names := by
  rw [has_iff, names, List.mem_map]
  constructor
  · rintro ⟨b, hb⟩
    exact ⟨_, hb, rfl⟩
  · rintro ⟨e, he, rfl⟩
    exact ⟨e.2, he⟩

theorem mem_put {e : Text × α} (h : e ∈ put t name a) : e ∈ t ∨ e = (name, a) := by
  induction t with
  | nil => exact .inr (List.mem_singleton.1 h)
  | cons x t ih =>
    rw [put] at h
    split at h
    · rcases List.mem_cons.1 h with h | h
      · exact .inr h
      · exact .inl (List.mem_cons_of_mem _ h)
    · rcases List.mem_cons.1 h with rfl | h
      · exact .inl List.mem_cons_self
      · exact (ih h).imp_left (List.mem_cons_of_mem _)

theorem mem_foldl_put {es : List (Text × α)} {e : Text × α}
    (h : e ∈ es.foldl (fun t e => put t e.1 e.2) t) : e ∈ t ∨ e ∈ es := by
  induction es generalizing t with
  | nil => exact .inl h
  | cons x es ih =>
    rcases ih h with h | h
    · exact (mem_put h).imp_right fun (he : e = x) => he ▸ List.mem_cons_self
    · exact .inr (List.mem_cons_of_mem _ h)

theorem mem_of_mem_ofList {es : List (Text × α)} {e : Text × α} (h : e ∈ ofList es) : e ∈ es :=
  (mem_foldl_put h).resolve_left (by simp)

theorem has_append {t u : Table α} : has (t ++ u) name = (t.has name || u.has name) := by
  rw [Bool.eq_iff_iff, Bool.or_eq_true, has_iff, has_iff, has_iff]
  simp [List.mem_append, exists_or]

end Table

namespace CallGraph

/-! ## Walks -/

/-- A section that is not reached yet is reached with its body, and what it runs waits. -/
theorem walk_of_body {bodies reached : Bodies} {name : Text} {b : Body} (waiting : List Text)
    (hh : ¬ reached.has name = true) (hb : bodies.get? name = some b) :
    walk bodies reached (name :: waiting) =
      walk bodies (reached ++ [(name, b)]) (b.callees ++ waiting) := by
  rw [walk, dif_neg hh]
  split
  · next hnone => simp [hb] at hnone
  · next b' hb' => rw [Option.some.inj (hb'.symm.trans hb)]

/-- A section that is missing ends the walk. -/
theorem walk_of_missing {bodies reached : Bodies} {name : Text} (waiting : List Text)
    (hh : ¬ reached.has name = true) (hnone : bodies.get? name = none) :
    walk bodies reached (name :: waiting) = (some name, reached) := by
  rw [walk, dif_neg hh]
  split
  · rfl
  · next b hb => simp [hnone] at hb

/-- **Inside a closed set** of names that have bodies no walk misses one. -/
theorem walk_of_closed {bodies : Bodies} {S : Text → Prop}
    (hS : ∀ n, S n → ∃ b, bodies.get? n = some b ∧ ∀ c ∈ b.callees, S c)
    (reached : Bodies) (waiting : List Text) (hw : ∀ n ∈ waiting, S n) :
    (walk bodies reached waiting).1 = none := by
  -- Induction on the walk: whatever waits stays in the set.
  induction reached, waiting using walk.induct bodies with
  | case1 reached => rw [walk]
  | case2 reached name waiting hh ih =>
    rw [walk, dif_pos hh]
    exact ih fun n hn => hw n (List.mem_cons_of_mem _ hn)
  | case3 reached name waiting hh hnone =>
    obtain ⟨b, hb, -⟩ := hS name (hw name List.mem_cons_self)
    simp [hb] at hnone
  | case4 reached name waiting hh b hb ih =>
    rw [walk_of_body waiting hh hb]
    refine ih fun n hn => ?_
    rcases List.mem_append.1 hn with hn | hn
    · obtain ⟨b', hb', hc⟩ := hS name (hw name List.mem_cons_self)
      rw [hb] at hb'
      exact hc n (Option.some.inj hb' ▸ hn)
    · exact hw n (List.mem_cons_of_mem _ hn)

/-- What holds along a walk: every section reached is declared, and what it runs is reached or
waits. -/
structure Walking (bodies reached : Bodies) (waiting : List Text) : Prop where
  declared : ∀ e ∈ reached, bodies.get? e.1 = some e.2
  followed : ∀ e ∈ reached, ∀ c ∈ e.2.callees, reached.has c = true ∨ c ∈ waiting

namespace Walking

variable {bodies reached : Bodies} {name : Text} {waiting : List Text}
  (h : Walking bodies reached (name :: waiting))

include h

/-- A name that is reached already need not wait. -/
theorem skip (hh : reached.has name = true) : Walking bodies reached waiting := by
  refine ⟨h.declared, fun e he c hc => ?_⟩
  rcases h.followed e he c hc with hr | hr
  · exact .inl hr
  · rcases List.mem_cons.1 hr with rfl | hr
    · exact .inl hh
    · exact .inr hr

/-- A name that is reached now has what it runs wait in its place. -/
theorem reach {b : Body} (hb : bodies.get? name = some b) :
    Walking bodies (reached ++ [(name, b)]) (b.callees ++ waiting) := by
  refine ⟨fun e he => ?_, fun e he c hc => ?_⟩
  · rcases List.mem_append.1 he with he | he
    · exact h.declared e he
    · rw [List.mem_singleton.1 he]
      exact hb
  · rw [Table.has_append, Bool.or_eq_true]
    rcases List.mem_append.1 he with he | he
    · rcases h.followed e he c hc with hr | hr
      · exact .inl (.inl hr)
      · rcases List.mem_cons.1 hr with rfl | hr
        · exact .inl (.inr (Table.has_iff.2 ⟨b, List.mem_singleton_self _⟩))
        · exact .inr (List.mem_append_right _ hr)
    · rw [List.mem_singleton.1 he] at hc
      exact .inr (List.mem_append_left _ hc)

end Walking

/-- **A walk that ends without a missing section** leaves nothing waiting. -/
theorem walk_spec {bodies reached out : Bodies} {waiting : List Text}
    (hi : Walking bodies reached waiting) (h : walk bodies reached waiting = (none, out)) :
    Walking bodies out [] ∧ (∀ n, reached.has n = true → out.has n = true) ∧
      ∀ n ∈ waiting, out.has n = true := by
  -- Induction on the walk; what is reached stays so, and each name is taken from those that wait.
  induction reached, waiting using walk.induct bodies with
  | case1 reached =>
    rw [walk] at h
    obtain rfl : reached = out := by simpa using h
    exact ⟨hi, fun _ hn => hn, by simp⟩
  | case2 reached name waiting hh ih =>
    rw [walk, dif_pos hh] at h
    obtain ⟨ho, hr, hw⟩ := ih (hi.skip hh) h
    refine ⟨ho, hr, fun n hn => ?_⟩
    rcases List.mem_cons.1 hn with rfl | hn
    · exact hr _ hh
    · exact hw n hn
  | case3 reached name waiting hh hnone =>
    simp [walk_of_missing waiting hh hnone] at h
  | case4 reached name waiting hh b hb ih =>
    rw [walk_of_body waiting hh hb] at h
    obtain ⟨ho, hr, hw⟩ := ih (hi.reach hb) h
    refine ⟨ho, fun n hn => hr n (by rw [Table.has_append, hn, Bool.true_or]), fun n hn => ?_⟩
    rcases List.mem_cons.1 hn with rfl | hn
    · refine hr _ ?_
      rw [Table.has_append, Bool.or_eq_true]
      exact .inr (Table.has_iff.2 ⟨b, List.mem_singleton_self _⟩)
    · exact hw n (List.mem_append_right _ hn)

/-! ## Reachability -/

/-- A declared section runs another one, declared or not. -/
def Runs (bodies : Bodies) (name callee : Text) : Prop :=
  ∃ b, bodies.get? name = some b ∧ callee ∈ b.callees

/-- **Reachability**: calls lead from one name to another, or both are the same. -/
def Reaches (bodies : Bodies) : Text → Text → Prop := Relation.ReflTransGen (Runs bodies)

/-- **What a walk misses** has no body, though one of the names to visit reaches it. -/
theorem walk_missing {bodies reached out : Bodies} {waiting : List Text} {n : Text}
    (h : walk bodies reached waiting = (some n, out)) :
    bodies.get? n = none ∧ ∃ w ∈ waiting, Reaches bodies w n := by
  -- Induction on the walk: a name that waits for the sake of another one is reached through it.
  induction reached, waiting using walk.induct bodies with
  | case1 reached =>
    rw [walk] at h
    simp at h
  | case2 reached name waiting hh ih =>
    rw [walk, dif_pos hh] at h
    obtain ⟨hn, w, hw, hr⟩ := ih h
    exact ⟨hn, w, List.mem_cons_of_mem _ hw, hr⟩
  | case3 reached name waiting hh hnone =>
    rw [walk_of_missing waiting hh hnone] at h
    obtain rfl : name = n := by simpa using congrArg Prod.fst h
    exact ⟨hnone, name, List.mem_cons_self, .refl⟩
  | case4 reached name waiting hh b hb ih =>
    rw [walk_of_body waiting hh hb] at h
    obtain ⟨hn, w, hw, hr⟩ := ih h
    refine ⟨hn, ?_⟩
    rcases List.mem_append.1 hw with hw | hw
    · exact ⟨name, List.mem_cons_self, .head ⟨b, hb, hw⟩ hr⟩
    · exact ⟨w, List.mem_cons_of_mem _ hw, hr⟩

/-- **What a walk reaches** has a body, and one of the names to visit reaches it. -/
theorem mem_walk {bodies reached : Bodies} {waiting : List Text} {e : Text × Body}
    (h : e ∈ (walk bodies reached waiting).2) : e ∈ reached ∨
      bodies.get? e.1 = some e.2 ∧ ∃ w ∈ waiting, Reaches bodies w e.1 := by
  -- Induction on the walk; a section is reached in place of the name that waited for it.
  induction reached, waiting using walk.induct bodies with
  | case1 reached =>
    rw [walk] at h
    exact .inl h
  | case2 reached name waiting hh ih =>
    rw [walk, dif_pos hh] at h
    refine (ih h).imp_right fun ⟨hb, w, hw, hr⟩ => ⟨hb, w, List.mem_cons_of_mem _ hw, hr⟩
  | case3 reached name waiting hh hnone =>
    rw [walk_of_missing waiting hh hnone] at h
    exact .inl h
  | case4 reached name waiting hh b hb ih =>
    rw [walk_of_body waiting hh hb] at h
    rcases ih h with h | ⟨hbody, w, hw, hr⟩
    · rcases List.mem_append.1 h with h | h
      · exact .inl h
      · obtain rfl := List.mem_singleton.1 h
        exact .inr ⟨hb, name, List.mem_cons_self, .refl⟩
    · refine .inr ⟨hbody, ?_⟩
      rcases List.mem_append.1 hw with hw | hw
      · exact ⟨name, List.mem_cons_self, .head ⟨b, hb, hw⟩ hr⟩
      · exact ⟨w, List.mem_cons_of_mem _ hw, hr⟩

/-- A closed set of declared names holds all that its members reach. -/
theorem has_of_reaches {bodies out : Bodies} (h : Walking bodies out []) {r n : Text}
    (hr : out.has r = true) (hn : Reaches bodies r n) : out.has n = true := by
  induction hn with
  | refl => exact hr
  | @tail m n _ hrun ih =>
    obtain ⟨b, hb, hc⟩ := hrun
    obtain ⟨b', hm⟩ := Table.has_iff.1 ih
    obtain rfl : b' = b := Option.some.inj ((h.declared _ hm).symm.trans hb)
    exact (h.followed _ hm n hc).resolve_right (by simp)

/-- The walk with at most `n` names taken from the front; `none` if more are needed. -/
def walkWithin (bodies : Bodies) (n : Nat) (reached : Bodies) :
    (waiting : List Text) → Option (Option Text × Bodies)
  | [] => some (none, reached)
  | name :: waiting =>
    match n with
    | 0 => none
    | n + 1 =>
      if reached.has name then walkWithin bodies n reached waiting
      else
        match bodies.get? name with
        | none => some (some name, reached)
        | some b => walkWithin bodies n (reached ++ [(name, b)]) (b.callees ++ waiting)

/-- A bound that is high enough does not matter. -/
theorem walk_eq_of_walkWithin {bodies reached : Bodies} {n : Nat} {waiting : List Text}
    {result : Option Text × Bodies} (h : walkWithin bodies n reached waiting = some result) :
    walk bodies reached waiting = result := by
  induction n generalizing reached waiting with
  | zero =>
    cases waiting with
    | nil =>
      rw [walk]
      simpa [walkWithin] using h
    | cons name waiting => simp [walkWithin] at h
  | succ n ih =>
    cases waiting with
    | nil =>
      rw [walk]
      simpa [walkWithin] using h
    | cons name waiting =>
      rw [walkWithin] at h
      split at h
      · next hh =>
        rw [walk, dif_pos hh]
        exact ih h
      · next hh =>
        split at h
        · next hnone =>
          rw [walk_of_missing waiting hh hnone]
          exact Option.some.inj h
        · next b hb =>
          rw [walk_of_body waiting hh hb]
          exact ih h

/-! ## Graphs -/

/-- A graph of declared sections that holds whatever they run. -/
structure Built (bodies : Bodies) (g : CallGraph) : Prop where
  declared : ∀ e ∈ g.reached, bodies.get? e.1 = some e.2
  closed : ∀ e ∈ g.reached, ∀ c ∈ e.2.callees, g.has c = true

/-- **A graph built without fault** is closed, holds its roots and remembers no names yet. -/
theorem build_spec {g g' : CallGraph} {roots : List Text} {bodies : Bodies}
    (h : g.build roots bodies = (none, g')) :
    g'.Built bodies ∧ (∀ r ∈ roots, g'.has r = true) ∧ g'.style = g.style ∧
      g'.remembered = [] := by
  rw [build, Prod.mk.injEq] at h
  obtain ⟨hnone, rfl⟩ := h
  obtain ⟨ho, -, hr⟩ := walk_spec ⟨by simp, by simp⟩ (Prod.ext hnone rfl)
  refine ⟨⟨ho.declared, fun e he c hc => ?_⟩, hr, rfl, rfl⟩
  exact (ho.followed e he c hc).resolve_right (by simp)

theorem build_eq_of_walkWithin {g : CallGraph} {roots : List Text} {bodies reached : Bodies}
    {n : Nat} (h : walkWithin bodies n [] roots = some (none, reached)) :
    g.build roots bodies = (none, ⟨g.style, reached, []⟩) := by
  rw [build, walk_eq_of_walkWithin h]

/-- **What a graph holds** is declared and reached from a root. -/
theorem reaches_of_build {g g' : CallGraph} {roots : List Text} {bodies : Bodies}
    {missing : Option Text} (h : g.build roots bodies = (missing, g')) {e : Text × Body}
    (he : e ∈ g'.reached) : bodies.get? e.1 = some e.2 ∧ ∃ r ∈ roots, Reaches bodies r e.1 := by
  rw [build, Prod.mk.injEq] at h
  obtain ⟨-, rfl⟩ := h
  exact (mem_walk he).resolve_left (by simp)

/-- A graph built from names of a closed set of declared names is built without fault. -/
theorem build_of_closed {g : CallGraph} {roots : List Text} {bodies : Bodies} {S : Text → Prop}
    (hS : ∀ n, S n → ∃ b, bodies.get? n = some b ∧ ∀ c ∈ b.callees, S c)
    (hr : ∀ n ∈ roots, S n) : ∃ g', g.build roots bodies = (none, g') := by
  have := walk_of_closed hS [] roots hr
  refine ⟨⟨g.style, (walk bodies [] roots).2, []⟩, ?_⟩
  simp [build, this]

/-- **A missing section** is reached from a root and not declared. -/
theorem build_missing {g g' : CallGraph} {roots : List Text} {bodies : Bodies} {n : Text}
    (h : g.build roots bodies = (some n, g')) :
    bodies.has n = false ∧ ∃ r ∈ roots, Reaches bodies r n := by
  rw [build, Prod.mk.injEq] at h
  obtain ⟨hn, hr⟩ := walk_missing (Prod.ext h.1 rfl)
  exact ⟨by simp [Table.has, hn], hr⟩

/-- **A graph is built without fault** exactly if all that its roots reach is declared. -/
theorem exists_build_iff {g : CallGraph} {roots : List Text} {bodies : Bodies} :
    (∃ g', g.build roots bodies = (none, g')) ↔
      ∀ r ∈ roots, ∀ n, Reaches bodies r n → bodies.has n = true := by
  constructor
  · rintro ⟨g', h⟩ r hr n hn
    rw [build, Prod.mk.injEq] at h
    obtain ⟨ho, -, hroots⟩ := walk_spec ⟨by simp, by simp⟩ (Prod.ext h.1 rfl)
    obtain ⟨b, hb⟩ := Table.has_iff.1 (has_of_reaches ho (hroots r hr) hn)
    simp [Table.has, ho.declared _ hb]
  · intro h
    cases hb : g.build roots bodies with
    | mk missing g' =>
      cases missing with
      | none => exact ⟨g', rfl⟩
      | some n =>
        obtain ⟨hn, r, hr, hreach⟩ := build_missing hb
        simp [h r hr n hreach] at hn

/-! ## Names -/

/-- The generated names are those of the style, remembered or not. -/
def NamesByStyle (g : CallGraph) : Prop := ∀ n v, g.nameFor n v = g.style.rename n v

/-- The names that are remembered are those of the style. -/
def RemembersByStyle (g : CallGraph) : Prop :=
  ∀ e ∈ g.remembered, ∀ p ∈ e.2, p.2 = g.style.rename e.1 p.1

theorem RemembersByStyle.namesByStyle {g : CallGraph} (h : g.RemembersByStyle) :
    g.NamesByStyle := by
  intro n v
  unfold nameFor rememberedName?
  cases hn : g.remembered.get? n with
  | none => rfl
  | some names =>
    cases hv : names.get? v with
    | none => simp [hv]
    | some new =>
      simpa [hv] using
        h _ (Table.mem_of_get?_eq_some hn) _ (Table.mem_of_get?_eq_some hv)

theorem mem_extendNames {style : NameStyle} {name : Text} {names : Table Text}
    {variants : List Text} (h : ∀ p ∈ names, p.2 = style.rename name p.1) :
    ∀ p ∈ extendNames style name names variants, p.2 = style.rename name p.1 := by
  unfold extendNames
  induction variants generalizing names with
  | nil => exact h
  | cons v vs ih =>
    refine ih fun p hp => ?_
    dsimp only at hp
    split at hp
    · exact h p hp
    · rcases List.mem_append.1 hp with hp | hp
      · exact h p hp
      · rw [List.mem_singleton.1 hp]

/-- **Remembering names changes none.** -/
theorem RemembersByStyle.ensureNames {g : CallGraph} (h : g.RemembersByStyle)
    (variants : List Text) : (g.ensureNames variants).RemembersByStyle := by
  intro e he
  obtain ⟨⟨name, b⟩, -, rfl⟩ := List.mem_map.1 he
  refine mem_extendNames fun p hp => ?_
  cases hn : g.remembered.get? name with
  | none => simp [hn] at hp
  | some names =>
    rw [hn] at hp
    exact h _ (Table.mem_of_get?_eq_some hn) p hp

theorem namesByStyle_ensureNames {g : CallGraph} (h : g.remembered = []) (variants : List Text) :
    (g.ensureNames variants).NamesByStyle := by
  have hnone : g.RemembersByStyle := by
    intro e he
    simp [h] at he
  exact (hnone.ensureNames variants).namesByStyle

/-- **Graphs as they come to be**: empty, built from roots, or with names remembered. -/
inductive Made : CallGraph → Prop
  | empty (style : NameStyle) : Made (empty style)
  | build {g : CallGraph} (roots : List Text) (bodies : Bodies) :
    Made g → Made (g.build roots bodies).2
  | ensureNames {g : CallGraph} (variants : List Text) : Made g → Made (g.ensureNames variants)

/-- **However a graph has come to be**, its names are those of its style. -/
theorem Made.namesByStyle {g : CallGraph} (h : g.Made) : g.NamesByStyle := by
  refine RemembersByStyle.namesByStyle ?_
  induction h with
  | empty style =>
    intro e he
    simp [CallGraph.empty] at he
  | build roots bodies =>
    intro e he
    simp [CallGraph.build] at he
  | ensureNames variants _ ih => exact ih.ensureNames variants

end CallGraph

end Reskin
