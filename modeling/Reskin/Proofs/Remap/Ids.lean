import Reskin.Proofs.Remap.Rewriting
import Reskin.Proofs.Variants

/-!
# The ids of generated sections

In overrides of blend weights and in the sections that keep everything, each id is written again in
its place, and no other key is written that means an id. Which id is written is looked up by a
variant and an old id. If a variant is supported by the ids of a section, the look-up never finds
a row without the variant: an id that is known is replaced, and an id that is not is kept.

## Main definitions

* `Ini.Pairs.valuesUnder`, `Ini.Body.Assigns`: what is assigned to the keys of a meaning
* `Character.Translates`: what becomes of an id
* `Character.WritesIds`: the text of an entry, and the ids in it

## Main results

* `Ini.Body.assigns_iff`: what is assigned in a body that has been read
* `Remap.Sources.forall₂_writesIds`: the ids of a generated section
* `Remap.Sources.infix_block`: a generated section stands in the block
-/

namespace Reskin

open Ini (Body Entry Key Pairs)

/-! ## Assigned values -/

/-- The values of the keys that mean `key`, in order. -/
def Ini.Pairs.valuesUnder (ps : Pairs) (key : Key) : List Text :=
  ps.filterMap fun p => if Key.ofText? p.1 = some key then some p.2 else none

theorem Ini.Pairs.mem_valuesUnder {ps : Pairs} {key : Key} {v : Text} :
    v ∈ ps.valuesUnder key ↔ ∃ k, (k, v) ∈ ps ∧ Key.ofText? k = some key := by
  simp [valuesUnder, List.mem_filterMap]

/-- A key that means `key` has the value, in some part of the body. -/
def Ini.Body.Assigns (b : Body) (key : Key) (v : Text) : Prop :=
  ∃ ps, .content ps ∈ b ∧ v ∈ ps.valuesUnder key

/-- In a body that has been read the keys of a part differ, so nothing that is assigned is passed
over. -/
theorem Ini.Body.assigns_iff {ls : List Text} {key : Key} {v : Text} :
    (ofLines ls).Assigns key v ↔ v ∈ (ofLines ls).valuesOf key := by
  rw [mem_valuesOf]
  constructor
  · rintro ⟨ps, hps, hv⟩
    obtain ⟨k, hm, hkey⟩ := Pairs.mem_valuesUnder.1 hv
    obtain ⟨hdistinct, htrim⟩ := keys_of_mem_ofLines hps
    have hcase := Key.eqCaseless_of_ofText? hkey
    rw [htrim _ hm, Pairs.eqCaseless_comm] at hcase
    exact ⟨ps, hps, hdistinct.get?_of_mem hm hcase⟩
  · rintro ⟨ps, hps, hv⟩
    obtain ⟨k, hm, hk⟩ := Pairs.mem_of_get?_eq_some hv
    have htrim := (keys_of_mem_ofLines hps).2 _ hm
    exact ⟨ps, hps, Pairs.mem_valuesUnder.2 ⟨k, hm, Key.ofText?_of_eqCaseless htrim hk⟩⟩

/-! ## Ids -/

namespace Character

variable {c : Character} {kind : Asset.Kind} {old new v : Text}

/-- **What becomes of an id** for a variant: an id that is known is replaced by its entry for the
variant, and one that is not known stays. -/
structure Translates (c : Character) (kind : Asset.Kind) (v old new : Text) : Prop where
  replaced : c.knows kind old = true → c.replace kind old v = .ok new
  kept : c.knows kind old = false → new = old

/-- An id that is not known has no replacement, whatever the variant. -/
theorem replace_of_not_knows (h : c.knows kind old = false) :
    c.replace kind old v = .error (.unknown old) := by
  have hnone : (c.table kind).get? old = none := by
    simpa [knows, Table.has] using h
  rw [replace, Asset.Replacements.replace, hnone]

/-- A known id with a replacement is never found in a row without the variant. -/
theorem replace_ne_unmapped (h : c.knows kind old = true → c.Replaces kind old v) :
    c.replace kind old v ≠ .error (.unmapped old v) := by
  cases hknows : c.knows kind old with
  | true =>
    obtain ⟨new, hnew⟩ := h hknows
    simp [hnew]
  | false => simp [replace_of_not_knows hknows]

/-- **The text of an entry**, and the ids in it: a control line stays as it is, and the assignments
of a part have translated ids in the places of its ids. -/
def WritesIds (c : Character) (v : Text) : Entry → Text → Prop
  | .control line, u => u = line ++ ['\n']
  | .content ps, u => ∃ indent new, u = new.flatMap (fun q => Remap.assignmentLine indent q.1 q.2) ∧
    ∀ kind : Asset.Kind,
      List.Forall₂ (c.Translates kind v) (ps.valuesUnder kind.key) (Pairs.valuesUnder new kind.key)

end Character

namespace Remap.Sources

variable {s : Sources} {c : Character} {part : Part} {v : Text}

/-- The id that is written for a known id with a replacement, or for an id that is not known. -/
theorem translates_idFor (hc : s.character = some c) {kind : Asset.Kind} {id : Text}
    (h : c.knows kind id = true → c.Replaces kind id v) :
    c.Translates kind v id (s.idFor kind id v) := by
  rw [idFor, hc, Option.bind_some]
  constructor
  · intro hknows
    obtain ⟨new, hnew⟩ := h hknows
    rw [hnew]
    rfl
  · intro hknows
    rw [Character.replace_of_not_knows hknows]
    rfl

/-- **Ids are written in their places**: what takes the place of the assignments of a part has new
ids where these have ids, and nowhere else. -/
theorem valuesUnder_image (hpart : part ≠ .resources) (source : Text) (i : Nat) (kind : Asset.Kind)
    (ps : Pairs) : Pairs.valuesUnder (ps.filterMap (s.image part v source i)) kind.key =
      (ps.valuesUnder kind.key).map fun id => s.idFor kind id v := by
  rw [Pairs.valuesUnder, Pairs.valuesUnder, List.filterMap_filterMap, List.map_filterMap]
  apply List.filterMap_congr
  rintro ⟨k, old⟩ -
  cases hk : Key.ofText? k with
  | none =>
    have hkey : part.key? k = none := by rw [Part.key?, hk, Option.filter_none]
    cases part <;> simp [image, hkey, hk]
  | some key =>
    have hkey : part.key? k = if key ∈ part.keys then some key else none := by
      rw [Part.key?, hk, Option.filter_some]
      simp
    cases part with
    | resources => exact absurd rfl hpart
    | blend =>
      cases key <;> cases kind <;>
        simp [image, hkey, Part.keys, valueFor, Asset.Kind.key, Key.ofText?_text]
    | others =>
      cases key <;> cases kind <;>
        simp [image, hkey, hk, Part.keys, valueFor, Asset.Kind.key, Key.ofText?_text]

/-- **The ids of a generated section**: entry by entry they are those of the section it stands in
for, each translated. -/
theorem forall₂_writesIds (hnames : ∀ part, (s.graph part).NamesByStyle)
    (hc : s.character = some c) (hpart : part ≠ .resources) {b : Body}
    (hids : ∀ kind id, b.Assigns (Asset.Kind.key kind) id → c.knows kind id = true →
      c.Replaces kind id v) {place : Place} {u : Text}
    (h : textOf (s.write part) (layoutFrom place b) = .ok u) (hv : place.variant = v) :
    ∃ us, u = us.flatten ∧ List.Forall₂ (c.WritesIds v) b us := by
  induction b generalizing place u with
  | nil =>
    obtain rfl : [] = u := by simpa [layoutFrom, textOf] using h
    exact ⟨[], rfl, .nil⟩
  | cons x b ih =>
    have hids' : ∀ kind id, Body.Assigns b (Asset.Kind.key kind) id → c.knows kind id = true →
        c.Replaces kind id v := by
      rintro kind id ⟨ps, hps, hid⟩
      exact hids kind id ⟨ps, List.mem_cons_of_mem _ hps, hid⟩
    cases x with
    | control line =>
      obtain ⟨first, rest, hfirst, hrest, rfl⟩ := textOf_cons_eq_ok.1 h
      obtain rfl := Except.ok.inj hfirst
      obtain ⟨us, rfl, hus⟩ := ih hids' hrest hv
      exact ⟨_ :: us, rfl, .cons rfl hus⟩
    | content ps =>
      obtain ⟨first, rest, hfirst, hrest, rfl⟩ := textOf_cons_eq_ok.1 h
      obtain ⟨new, hnew, rfl⟩ := write_eq_ok.1 hfirst
      obtain ⟨us, rfl, hus⟩ := ih hids' hrest hv
      refine ⟨_ :: us, rfl, .cons ⟨place.indent, new, rfl, fun kind => ?_⟩ hus⟩
      rw [assignments_eq hnames, if_neg (by simp [hc])] at hnew
      obtain rfl := Except.ok.inj hnew
      rw [hv, valuesUnder_image hpart, List.forall₂_map_right_iff, List.forall₂_same]
      intro id hid
      exact translates_idFor hc (hids kind id ⟨ps, List.mem_cons_self, hid⟩)

/-! ## Sections in blocks -/

/-- A text with some others in it. -/
def Holds (texts : List Text) (t : Text) : Prop := ∀ u ∈ texts, u <:+: t

theorem additive_holds : Additive Holds where
  nil := by simp [Holds]
  append := by
    intro as bs a b ha hb u hu
    rcases List.mem_append.1 hu with hu | hu
    · exact (ha u hu).trans (List.prefix_append a b).isInfix
    · exact (hb u hu).trans (List.suffix_append a b).isInfix
  empty := by simp [Holds]

/-- **A generated section** stands in the block. -/
theorem infix_block {variants : List Text} (hne : s.blend.isEmpty = false) {title block : Text}
    (h : s.block variants (some title) = .ok block) (hv : v ∈ variants) {e : Text × Body}
    (he : e ∈ (s.graph part).reached) {t : Text} (ht : s.sectionText part v e = .ok t) :
    t <:+: block := by
  let given (part : Part) (v : Text) (e : Text × Body) : List Text :=
    (s.sectionText part v e).toOption.toList
  have hgiven : ∀ part, ∀ v ∈ variants, ∀ e ∈ (s.graph part).reached, ∀ t,
      s.sectionText part v e = .ok t → Holds (given part v e) t := by
    intro part v _ e _ t ht u hu
    obtain rfl : u = t := by simpa [given, ht, Except.toOption] using hu
    exact List.infix_rfl
  obtain ⟨parts, hparts, rfl⟩ := exists_block_eq h
  obtain ⟨u, hu, hholds⟩ := exists_of_variantParts additive_holds hgiven
    (fun v _ u hu => absurd hu (by simp)) hne hparts
  have hmem : t ∈ variants.flatMap (s.allGathered given) := by
    have hsection : t ∈ s.gathered given part v :=
      List.mem_flatMap.2 ⟨e, he, by simp [given, ht, Except.toOption]⟩
    refine List.mem_flatMap.2 ⟨v, hv, ?_⟩
    cases part <;> simp [allGathered, hsection]
  have hframed : u <:+: framed title parts := by
    rw [framed, List.append_assoc (credit title), hu]
    exact ⟨blockStyle.heading (title ++ [' ']) ++ '\n' :: (credit title ++ ['\n', '\n']),
      blockRule title, by simp⟩
  exact (hholds t hmem).trans hframed

end Remap.Sources

end Reskin
