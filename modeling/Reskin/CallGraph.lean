import Reskin.Ini.Document

/-!
# Call graphs

A section runs other sections. The call graph of some roots holds the sections that are reached
from them, in the order in which a walk that follows every call at once meets them; this is the
order of generated sections.

## Main definitions

* `CallGraph`: the sections reached, and the names they have for variants
* `CallGraph.walk`, `CallGraph.build`: the sections reached from roots
* `CallGraph.nameFor`, `CallGraph.ensureNames`: generated names, computed or remembered
* `CallGraph.commonVariants?`: the variants that every known id of the graph has
-/

namespace Reskin

open Ini (Bodies Body)

/-- The sections reached from some roots. -/
structure CallGraph where
  /-- How generated sections are named. -/
  style : NameStyle
  /-- The sections reached, in the order of the walk. -/
  reached : Bodies
  /-- The generated names remembered: by section, then by variant. -/
  remembered : Table (Table Text)
  deriving DecidableEq, Repr

/-- The sections a body runs. -/
def Ini.Body.callees (b : Body) : List Text := b.calls.map (·.2)

namespace CallGraph

/-- The graph that nothing is reached in. -/
def empty (style : NameStyle) : CallGraph := ⟨style, [], []⟩

/-- How many bodies are not reached. -/
def unreached (bodies reached : Bodies) : Nat := (bodies.filter fun e => !reached.has e.1).length

theorem unreached_lt {bodies reached : Bodies} {name : Text} {b : Body}
    (h : bodies.get? name = some b) (hn : reached.has name = false) :
    unreached bodies (reached ++ [(name, b)]) < unreached bodies reached := by
  have hsub : ∀ e : Text × Body, reached.has e.1 = true →
      Table.has (reached ++ [(name, b)]) e.1 = true := by
    intro e he
    simp only [Table.has, Table.get?, Option.isSome_map, List.find?_isSome, List.mem_append,
      List.mem_singleton] at he ⊢
    obtain ⟨x, hx, hxe⟩ := he
    exact ⟨x, Or.inl hx, hxe⟩
  have hname : Table.has (reached ++ [(name, b)]) name = true := by
    simp only [Table.has, Table.get?, Option.isSome_map, List.find?_isSome]
    exact ⟨(name, b), by simp, by simp⟩
  obtain ⟨e, he, hb⟩ := Option.map_eq_some_iff.1 h
  have hmem := List.mem_of_find?_eq_some he
  have hfst : e.1 = name := by simpa using List.find?_some he
  clear h he hb
  unfold unreached
  induction bodies with
  | nil => simp at hmem
  | cons x xs ih =>
    have hle : (xs.filter fun e => !Table.has (reached ++ [(name, b)]) e.1).length ≤
        (xs.filter fun e => !reached.has e.1).length := by
      clear ih hmem
      induction xs with
      | nil => simp
      | cons y ys ihy =>
        simp only [List.filter_cons]
        cases hy : reached.has y.1 with
        | true => simpa [hsub y hy] using ihy
        | false => cases hz : Table.has (reached ++ [(name, b)]) y.1 <;> simp <;> omega
    rcases List.mem_cons.1 hmem with rfl | hx
    · simp only [List.filter_cons, hfst, hname, hn]
      simpa using Nat.lt_succ_of_le hle
    · have := ih hx
      simp only [List.filter_cons]
      cases hy : reached.has x.1 with
      | true => simpa [hsub x hy] using this
      | false => cases hz : Table.has (reached ++ [(name, b)]) x.1 <;> simp <;> omega

/-- **The walk.** The names to visit are taken from the front; those a section runs go before
those that wait. A name without a body ends the walk: it is given beside what was reached. -/
def walk (bodies reached : Bodies) : (waiting : List Text) → Option Text × Bodies
  | [] => (none, reached)
  | name :: waiting =>
    if _ : reached.has name = true then walk bodies reached waiting
    else
      match _ : bodies.get? name with
      | none => (some name, reached)
      | some b => walk bodies (reached ++ [(name, b)]) (b.callees ++ waiting)
termination_by waiting => (unreached bodies reached, waiting.length)
decreasing_by
  · exact Prod.Lex.right _ (by simp)
  · exact Prod.Lex.left _ _ (unreached_lt ‹_› (Bool.eq_false_iff.2 ‹_›))

/-- The graph built anew from roots, and the name without a body that the walk has met. -/
def build (g : CallGraph) (roots : List Text) (bodies : Bodies) : Option Text × CallGraph :=
  let (missing, reached) := walk bodies [] roots
  (missing, ⟨g.style, reached, []⟩)

/-- The names of the sections reached, in order. -/
def order (g : CallGraph) : List Text := g.reached.names

/-- Whether a section is reached. -/
def has (g : CallGraph) (name : Text) : Bool := g.reached.has name

/-- Whether no section is reached. -/
def isEmpty (g : CallGraph) : Bool := g.reached.isEmpty

/-- The generated name that is remembered for a section and a variant. -/
def rememberedName? (g : CallGraph) (name variant : Text) : Option Text :=
  (g.remembered.get? name).bind (·.get? variant)

/-- The generated name of a section for a variant, remembered or not. -/
def nameFor (g : CallGraph) (name variant : Text) : Text :=
  (g.rememberedName? name variant).getD (g.style.rename name variant)

/-- The remembered names of one section, with those for the variants. -/
def extendNames (style : NameStyle) (name : Text) (names : Table Text) (variants : List Text) :
    Table Text :=
  variants.foldl (fun names v =>
    if names.has v then names else names ++ [(v, style.rename name v)]) names

/-- The graph with the names of its sections remembered for the variants. -/
def ensureNames (g : CallGraph) (variants : List Text) : CallGraph :=
  { g with remembered := g.reached.map fun (name, _) =>
      (name, extendNames g.style name ((g.remembered.get? name).getD []) variants) }

/-- The variants that every known id of the graph has a replacement for; `none` if no id is
known. -/
def commonVariants? (g : CallGraph) (c : Character) : Option VariantSet :=
  VariantSet.interAll (g.reached.filterMap fun (_, b) => c.commonVariants? b.hashes b.indices)

/-- The values of a key in the sections reached, in order. -/
def valuesOf (g : CallGraph) (key : Ini.Key) : List Text :=
  g.reached.flatMap fun (_, b) => b.valuesOf key

end CallGraph

end Reskin
