import Mathlib.Data.List.Forall2
import Reskin.ModFile
import Reskin.Proofs.CallGraph

/-!
# The variants that have every id

The ids of a section, the sections of a graph and the graphs of a file each narrow the variants
down, and each of them may narrow nothing: an id that is not known, a section without known ids, a
graph without such sections. One law covers the three reductions. A variant is in what is left
exactly if it is in every set that is there, and nothing is left exactly if none is there. So the
reductions together ask one question about every id that occurs and is known, and no order matters
to it.

## Main definitions

* `Asset.Kind.key`: the key of a kind of ids
* `Character.Replaces`: ids with a replacement for a variant
* `Character.Supports`: variants that every known id of some ids has a replacement for
* `Character.Reorders`: characters that say the same in another order

## Main results

* `VariantSet.ext`: sets with the same members are equal
* `VariantSet.forall_mem_interAll`: what some sets have in common
* `ModFile.mem_variantsFor`, `ModFile.variantsFor_of_none`: the variants that are chosen
* `Character.Reorders.variantsFor_eq`: the choice does not depend on an order
-/

namespace Reskin

/-! ## Sets -/

namespace VariantSet

variable {s t : VariantSet} {ss : List VariantSet} {v : Text}

theorem nodup_toList (s : VariantSet) : s.toList.Nodup := by
  have hne {a b : Text} (hlt : a < b) : a ≠ b := fun he => List.lt_irrefl b (he ▸ hlt)
  exact s.sorted.imp hne

/-- **Sets with the same members** are equal. -/
theorem ext (h : ∀ v, v ∈ s ↔ v ∈ t) : s = t := by
  have hperm : s.toList.Perm t.toList :=
    (List.perm_ext_iff_of_nodup s.nodup_toList t.nodup_toList).2 h
  have hlist : s.toList = t.toList := hperm.eq_of_pairwise
    (fun a b _ _ hab hba => absurd (Text.lt_trans hab hba) (List.lt_irrefl a)) s.sorted t.sorted
  cases s
  cases t
  simpa using hlist

theorem mem_foldl_inter : v ∈ ss.foldl inter s ↔ v ∈ s ∧ ∀ t ∈ ss, v ∈ t := by
  induction ss generalizing s with
  | nil => simp
  | cons t ss ih => rw [List.foldl_cons, ih, mem_inter, List.forall_mem_cons, and_assoc]

theorem interAll_eq_none : interAll ss = none ↔ ss = [] := by
  cases ss <;> simp [interAll]

/-- **What some sets have in common.** Without a set there is nothing to be in. -/
theorem forall_mem_interAll : (∀ s ∈ interAll ss, v ∈ s) ↔ ∀ s ∈ ss, v ∈ s := by
  cases ss with
  | nil => simp [interAll]
  | cons t ss => simp [interAll, mem_foldl_inter]

theorem mem_getD {s? : Option VariantSet} :
    v ∈ s?.getD t ↔ (∀ s ∈ s?, v ∈ s) ∧ (s? = none → v ∈ t) := by
  cases s? <;> simp

theorem isEmpty_iff : s.isEmpty = true ↔ ∀ v, v ∉ s := by
  rw [isEmpty, List.isEmpty_iff, List.eq_nil_iff_forall_not_mem]
  exact Iff.rfl

end VariantSet

/-! ## Ids -/

namespace Asset

/-- The key of a kind of ids. -/
def Kind.key : Kind → Ini.Key
  | .hash => .hash
  | .index => .matchFirstIndex

namespace Replacements

variable {t : Replacements} {id v : Text}

theorem variantsOf?_eq_none : t.variantsOf? id = none ↔ t.has id = false := by
  simp [variantsOf?, Table.has]

/-- An id has a replacement for the variants that its row names. -/
theorem exists_replace_iff :
    (∃ new, t.replace id v = .ok new) ↔ ∃ row, t.get? id = some row ∧ v ∈ row.names := by
  unfold replace
  cases t.get? id with
  | none => simp
  | some row =>
    have hrow : v ∈ row.names ↔ ∃ new, row.get? v = some new := by
      rw [← Table.has_iff_mem_names, Table.has, Option.isSome_iff_exists]
    cases hv : row.get? v <;> simp [hrow, hv]

/-- A known id narrows the variants down to those it has a replacement for. -/
theorem forall_mem_variantsOf? : (∀ s ∈ t.variantsOf? id, v ∈ s) ↔
    (t.has id = true → ∃ new, t.replace id v = .ok new) := by
  rw [exists_replace_iff]
  unfold variantsOf? Table.has
  cases t.get? id <;> simp

end Replacements

end Asset

namespace Character

/-- The id has a replacement for the variant. -/
def Replaces (c : Character) (kind : Asset.Kind) (id v : Text) : Prop :=
  ∃ new, c.replace kind id v = .ok new

/-- **A variant that every known one of some ids has a replacement for.** If none of them is known,
it is a variant of the character. -/
structure Supports (c : Character) (occurs : Asset.Kind → Text → Prop) (v : Text) : Prop where
  replaces : ∀ kind id, occurs kind id → c.knows kind id = true → c.Replaces kind id v
  variants : (∀ kind id, occurs kind id → c.knows kind id = false) → v ∈ c.variants

variable {c : Character} {v : Text}

section Body

variable {b : Ini.Body}

/-- The ids of a section, kind by kind. -/
theorem forall_ids_iff {p : Asset.Kind → Text → Prop} :
    ((∀ id ∈ b.hashes, p .hash id) ∧ ∀ id ∈ b.indices, p .index id) ↔
      ∀ kind, ∀ id ∈ b.valuesOf kind.key, p kind id := by
  constructor
  · rintro ⟨hhash, hindex⟩ kind id hid
    cases kind with
    | hash => exact hhash id (List.mem_eraseDups.2 hid)
    | index => exact hindex id (List.mem_eraseDups.2 hid)
  · intro h
    constructor
    · intro id hid
      exact h .hash id (List.mem_eraseDups.1 hid)
    · intro id hid
      exact h .index id (List.mem_eraseDups.1 hid)

/-- A section narrows nothing down exactly if none of its ids is known. -/
theorem commonVariants?_eq_none : c.commonVariants? b.hashes b.indices = none ↔
    ∀ kind, ∀ id ∈ b.valuesOf kind.key, c.knows kind id = false := by
  rw [commonVariants?, VariantSet.interAll_eq_none, List.append_eq_nil_iff,
    List.filterMap_eq_nil_iff, List.filterMap_eq_nil_iff, ← forall_ids_iff]
  simp only [Asset.Replacements.variantsOf?_eq_none]
  exact Iff.rfl

/-- What a section narrows the variants down to. -/
theorem forall_mem_commonVariants? : (∀ s ∈ c.commonVariants? b.hashes b.indices, v ∈ s) ↔
    ∀ kind, ∀ id ∈ b.valuesOf kind.key, c.knows kind id = true → c.Replaces kind id v := by
  have htable (t : Asset.Replacements) (ids : List Text) :
      (∀ s ∈ ids.filterMap t.variantsOf?, v ∈ s) ↔
        ∀ id ∈ ids, t.has id = true → ∃ new, t.replace id v = .ok new := by
    rw [List.forall_mem_filterMap]
    exact forall₂_congr fun id _ => Asset.Replacements.forall_mem_variantsOf?
  rw [commonVariants?, VariantSet.forall_mem_interAll, List.forall_mem_append, htable, htable,
    ← forall_ids_iff]
  exact Iff.rfl

end Body

end Character

namespace CallGraph

variable {g : CallGraph} {c : Character} {v : Text}

/-- The ids of a graph, section by section. -/
theorem forall_ids_iff {p : Asset.Kind → Text → Prop} :
    (∀ e ∈ g.reached, ∀ kind, ∀ id ∈ e.2.valuesOf kind.key, p kind id) ↔
      ∀ kind, ∀ id ∈ g.valuesOf kind.key, p kind id := by
  constructor
  · intro h kind id hid
    obtain ⟨e, he, hid⟩ := List.mem_flatMap.1 hid
    exact h e he kind id hid
  · intro h e he kind id hid
    exact h kind id (List.mem_flatMap.2 ⟨e, he, hid⟩)

/-- A graph narrows nothing down exactly if none of its ids is known. -/
theorem commonVariants?_eq_none : g.commonVariants? c = none ↔
    ∀ kind, ∀ id ∈ g.valuesOf kind.key, c.knows kind id = false := by
  rw [commonVariants?, VariantSet.interAll_eq_none, List.filterMap_eq_nil_iff, ← forall_ids_iff]
  exact forall₂_congr fun e _ => Character.commonVariants?_eq_none

/-- What a graph narrows the variants down to. -/
theorem forall_mem_commonVariants? : (∀ s ∈ g.commonVariants? c, v ∈ s) ↔
    ∀ kind, ∀ id ∈ g.valuesOf kind.key, c.knows kind id = true → c.Replaces kind id v := by
  rw [commonVariants?, VariantSet.forall_mem_interAll, List.forall_mem_filterMap, ← forall_ids_iff]
  exact forall₂_congr fun e _ => Character.forall_mem_commonVariants?

end CallGraph

/-! ## The variants that are chosen -/

namespace ModFile

variable {c : Character} {graphs : List CallGraph} {requested : VariantSet} {v : Text}

/-- The ids in some graphs. -/
def Occurs (graphs : List CallGraph) (kind : Asset.Kind) (id : Text) : Prop :=
  ∃ g ∈ graphs, id ∈ g.valuesOf kind.key

/-- The ids of some graphs, graph by graph. -/
theorem forall_occurs_iff {p : Asset.Kind → Text → Prop} :
    (∀ g ∈ graphs, ∀ kind, ∀ id ∈ g.valuesOf kind.key, p kind id) ↔
      ∀ kind id, Occurs graphs kind id → p kind id := by
  constructor
  · rintro h kind id ⟨g, hg, hid⟩
    exact h g hg kind id hid
  · intro h g hg kind id hid
    exact h kind id ⟨g, hg, hid⟩

/-- **The variants in common**: the three reductions leave those that every known id of the graphs
has a replacement for. -/
theorem mem_common_iff : v ∈ (VariantSet.interAll (graphs.filterMap (·.commonVariants? c))).getD
    c.variants ↔ c.Supports (Occurs graphs) v := by
  have hreplaces : (∀ s ∈ graphs.filterMap (·.commonVariants? c), v ∈ s) ↔
      ∀ kind id, Occurs graphs kind id → c.knows kind id = true → c.Replaces kind id v := by
    rw [List.forall_mem_filterMap, ← forall_occurs_iff]
    exact forall₂_congr fun g _ => CallGraph.forall_mem_commonVariants?
  have hnone : VariantSet.interAll (graphs.filterMap (·.commonVariants? c)) = none ↔
      ∀ kind id, Occurs graphs kind id → c.knows kind id = false := by
    rw [VariantSet.interAll_eq_none, List.filterMap_eq_nil_iff, ← forall_occurs_iff]
    exact forall₂_congr fun g _ => CallGraph.commonVariants?_eq_none
  rw [VariantSet.mem_getD, VariantSet.forall_mem_interAll, hreplaces, hnone]
  exact ⟨fun ⟨h, h'⟩ => ⟨h, h'⟩, fun ⟨h, h'⟩ => ⟨h, h'⟩⟩

/-- **The variants that are chosen** if a requested one is supported. -/
theorem mem_variantsFor (h : ∃ w ∈ requested, c.Supports (Occurs graphs) w) :
    v ∈ variantsFor c graphs requested ↔ v ∈ requested ∧ c.Supports (Occurs graphs) v := by
  obtain ⟨w, hw, hsupports⟩ := h
  unfold variantsFor
  dsimp only
  rw [if_neg, VariantSet.mem_inter, mem_common_iff, and_comm]
  rw [VariantSet.isEmpty_iff]
  intro hempty
  exact hempty w (VariantSet.mem_inter.2 ⟨mem_common_iff.2 hsupports, hw⟩)

/-- The variants that are chosen if no requested one is supported. -/
theorem variantsFor_of_none (h : ∀ w ∈ requested, ¬ c.Supports (Occurs graphs) w) :
    variantsFor c graphs requested = c.variants := by
  unfold variantsFor
  dsimp only
  apply if_pos
  rw [VariantSet.isEmpty_iff]
  intro v hv
  obtain ⟨hcommon, hrequested⟩ := VariantSet.mem_inter.1 hv
  exact h v hrequested (mem_common_iff.1 hcommon)

/-- A variant that is chosen is one of the character, or stands beside an id in its tables. -/
theorem exists_replaces_of_mem_variantsFor (h : v ∈ variantsFor c graphs requested) :
    v ∈ c.variants ∨ ∃ kind id, c.Replaces kind id v := by
  by_cases hsome : ∃ w ∈ requested, c.Supports (Occurs graphs) w
  · obtain ⟨-, hsupports⟩ := (mem_variantsFor hsome).1 h
    by_cases hknown : ∃ kind id, Occurs graphs kind id ∧ c.knows kind id = true
    · obtain ⟨kind, id, hoccurs, hknows⟩ := hknown
      exact .inr ⟨kind, id, hsupports.replaces kind id hoccurs hknows⟩
    · refine .inl (hsupports.variants fun kind id hoccurs => ?_)
      rw [Bool.eq_false_iff]
      intro hknows
      exact hknown ⟨kind, id, hoccurs, hknows⟩
  · rw [variantsFor_of_none fun w hw hsupports => hsome ⟨w, hw, hsupports⟩] at h
    exact .inl h

end ModFile

/-! ## The order of tables -/

theorem Table.get?_eq_some_iff {α : Type} {t : Table α} (hn : t.names.Nodup) {name : Text} {a : α} :
    t.get? name = some a ↔ (name, a) ∈ t := by
  refine ⟨Table.mem_of_get?_eq_some, fun h => ?_⟩
  induction t with
  | nil => simp at h
  | cons e t ih =>
    obtain ⟨hnew, hn⟩ := List.nodup_cons.1 hn
    rcases List.mem_cons.1 h with rfl | h
    · simp [Table.get?]
    · have hne : e.1 ≠ name := by
        rintro rfl
        exact hnew (List.mem_map.2 ⟨_, h, rfl⟩)
      simpa [Table.get?, hne] using ih hn h

/-- Rows in another order say the same. -/
theorem Table.get?_of_perm {α : Type} {t u : Table α} (h : u.Perm t) (hn : t.names.Nodup)
    (name : Text) : u.get? name = t.get? name := by
  have hu : (Table.names u).Nodup := ((h.map _).nodup_iff).2 hn
  apply Option.ext
  intro a
  rw [Table.get?_eq_some_iff hu, Table.get?_eq_some_iff hn, h.mem_iff]

/-- **The same rows in another order**, each with its entries in another order. -/
def Asset.Replacements.Reorders (t' t : Replacements) : Prop :=
  ∃ rows : Replacements, t'.Perm rows ∧
    List.Forall₂ (fun r' r => r'.1 = r.1 ∧ r'.2.Perm r.2) rows t

namespace Asset.Replacements.Reorders

variable {t t' : Replacements} (h : t'.Reorders t)

include h

/-- An id has the same row, in another order. -/
theorem rel_get? (hn : t.names.Nodup) (id : Text) :
    Option.Rel List.Perm (t'.get? id) (t.get? id) := by
  obtain ⟨rows, hperm, hrows⟩ := h
  have hnames : rows.names = t.names :=
    List.forall₂_eq_eq_eq ▸ (List.forall₂_map_right_iff.2 (List.forall₂_map_left_iff.2
      (hrows.imp fun _ _ hr => hr.1)))
  rw [Table.get?_of_perm hperm (hnames ▸ hn)]
  clear hperm hnames hn
  induction hrows with
  | nil => exact .none
  | @cons r' r _ _ hr _ ih =>
    by_cases hid : r.1 = id
    · simpa [Table.get?, hr.1, hid] using Option.Rel.some hr.2
    · simpa [Table.get?, hr.1, hid] using ih

theorem perm_names : (t'.flatMap (·.2.names)).Perm (t.flatMap (·.2.names)) := by
  obtain ⟨rows, hperm, hrows⟩ := h
  refine (hperm.flatMap_right _).trans ?_
  clear hperm
  induction hrows with
  | nil => exact .refl _
  | cons hr _ ih => exact (hr.2.map _).append ih

end Asset.Replacements.Reorders

/-- **A character with the same in another order**: its tables, whose rows are each about an id of
their own, and the variants that it lists. -/
structure Character.Reorders (c' c : Character) : Prop where
  tables : ∀ kind, (c'.table kind).Reorders (c.table kind)
  ids : ∀ kind, (c.table kind).names.Nodup
  listed : c'.listed.Perm c.listed

namespace Character.Reorders

variable {c c' : Character} (h : c'.Reorders c)

include h

theorem knows (kind : Asset.Kind) (id : Text) : c'.knows kind id = c.knows kind id := by
  have hrow := (h.tables kind).rel_get? (h.ids kind) id
  rw [Character.knows, Character.knows, Table.has, Table.has]
  generalize (c'.table kind).get? id = row', (c.table kind).get? id = row at hrow
  cases hrow <;> rfl

theorem replaces (kind : Asset.Kind) (id v : Text) :
    c'.Replaces kind id v ↔ c.Replaces kind id v := by
  have hrow := (h.tables kind).rel_get? (h.ids kind) id
  refine Asset.Replacements.exists_replace_iff.trans
    (Iff.trans ?_ Asset.Replacements.exists_replace_iff.symm)
  generalize (c'.table kind).get? id = row', (c.table kind).get? id = row at hrow
  cases hrow with
  | none => simp
  | some hperm => simp [Table.names, hperm.mem_iff]

theorem variants : c'.variants = c.variants := by
  have htable (kind : Asset.Kind) (v : Text) :
      v ∈ (c'.table kind).variants.toList ↔ v ∈ (c.table kind).variants.toList :=
    (VariantSet.mem_ofList.trans (h.tables kind).perm_names.mem_iff).trans
      VariantSet.mem_ofList.symm
  have hempty : c'.listed = [] ↔ c.listed = [] := by
    rw [← List.length_eq_zero_iff, ← List.length_eq_zero_iff, h.listed.length_eq]
  apply VariantSet.ext
  intro v
  unfold Character.variants
  by_cases hlisted : c.listed = []
  · rw [if_pos hlisted, if_pos (hempty.2 hlisted), VariantSet.mem_ofList, VariantSet.mem_ofList,
      List.mem_append, List.mem_append]
    exact or_congr (htable .hash v) (htable .index v)
  · rw [if_neg hlisted, if_neg (mt hempty.1 hlisted), VariantSet.mem_ofList, VariantSet.mem_ofList,
      h.listed.mem_iff]

/-- The same variants are supported. -/
theorem supports_iff {occurs : Asset.Kind → Text → Prop} {v : Text} :
    c'.Supports occurs v ↔ c.Supports occurs v := by
  constructor
  · rintro ⟨hreplaces, hvariants⟩
    simp only [h.knows, h.replaces, h.variants] at hreplaces hvariants
    exact ⟨hreplaces, hvariants⟩
  · rintro ⟨hreplaces, hvariants⟩
    simp only [← h.knows, ← h.replaces, ← h.variants] at hreplaces hvariants
    exact ⟨hreplaces, hvariants⟩

/-- **The variants that are chosen** depend on which ids occur in the graphs, and on no order. -/
theorem variantsFor_eq {graphs graphs' : List CallGraph} {requested : VariantSet}
    (hids : ∀ kind id, ModFile.Occurs graphs' kind id ↔ ModFile.Occurs graphs kind id) :
    ModFile.variantsFor c' graphs' requested = ModFile.variantsFor c graphs requested := by
  have hoccurs : ModFile.Occurs graphs' = ModFile.Occurs graphs := by
    funext kind id
    exact propext (hids kind id)
  by_cases hsome : ∃ w ∈ requested, c.Supports (ModFile.Occurs graphs) w
  · apply VariantSet.ext
    intro v
    rw [ModFile.mem_variantsFor hsome, ModFile.mem_variantsFor, hoccurs, h.supports_iff]
    simpa only [hoccurs, h.supports_iff] using hsome
  · have hnone : ∀ w ∈ requested, ¬ c.Supports (ModFile.Occurs graphs) w :=
      fun w hw hsupports => hsome ⟨w, hw, hsupports⟩
    rw [ModFile.variantsFor_of_none hnone, ModFile.variantsFor_of_none, h.variants]
    simpa only [hoccurs, h.supports_iff] using hnone

end Character.Reorders

end Reskin
