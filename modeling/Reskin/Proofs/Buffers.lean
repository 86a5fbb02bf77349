import Reskin.Buffers
import Reskin.Proofs.CallGraph
import Reskin.Proofs.Ini.Body

/-!
# Buffer files that variants load

Of the files that a section names, every part has one at most, and every variant loads one in its
place. So the tables give, for a place and a variant, exactly what the rule gives for the file at
that place.

## Main definitions

* `Buffers.pathsFor`: the files that a variant loads in place of those of a section

## Main results

* `Buffers.fixedPath?_ofBody`: the file that a variant loads in place of another one
* `Buffers.pathsFor_ofBody`, `Buffers.fixedFiles_ofBody`: the files that a variant loads, and those
  that all variants load, in order
* `Buffers.mem_fixedFiles_ofBody`: the files that variants load
-/

namespace Reskin

/-- A table of the values that a rule gives. -/
theorem Table.get?_ofList_map {α : Type} (rule : Text → α) (names : List Text) (n : Text) :
    (ofList (names.map fun n => (n, rule n))).get? n = if n ∈ names then some (rule n) else none := by
  suffices h : ∀ t : Table α, ((names.map fun n => (n, rule n)).foldl (fun t e => put t e.1 e.2)
      t).get? n = if n ∈ names then some (rule n) else t.get? n from h []
  induction names with
  | nil => simp
  | cons m names ih =>
    intro t
    rw [List.map_cons, List.foldl_cons, ih]
    by_cases hm : n = m
    · subst hm
      simp [get?_put_self]
    · simp [hm, get?_put_of_ne _ _ hm]

/-- Values of different names make the table that lists them. -/
theorem Table.ofList_of_nodup {α : Type} {es : Table α} (h : es.names.Nodup) : ofList es = es := by
  suffices hput : ∀ t : Table α, (t.names ++ es.names).Nodup →
      es.foldl (fun t e => put t e.1 e.2) t = t ++ es from hput [] h
  clear h
  induction es with
  | nil => simp
  | cons e es ih =>
    intro t h
    have hnames : t.names ++ Table.names (e :: es) = Table.names (t ++ [e]) ++ Table.names es := by
      simp [names]
    have hnew : e.1 ∉ t.names := fun hm =>
      (List.nodup_append.1 h).2.2 _ hm _ List.mem_cons_self rfl
    rw [List.foldl_cons, put_of_not_mem hnew, ih _ (hnames ▸ h), ← List.append_cons]

namespace Ini.Body

/-- The place of a part is that of its entry. -/
theorem getElem?_of_mem_partsFrom {b : Body} {start i : Nat} {ps : Pairs}
    (h : (i, ps) ∈ partsFrom start b) : start ≤ i ∧ b[i - start]? = some (.content ps) := by
  induction b generalizing start with
  | nil => simp [partsFrom] at h
  | cons e b ih =>
    have step (h : (i, ps) ∈ partsFrom (start + 1) b) :
        start ≤ i ∧ (e :: b)[i - start]? = some (.content ps) := by
      obtain ⟨hle, hb⟩ := ih h
      have hi : i - start = i - (start + 1) + 1 := by omega
      exact ⟨by omega, by rw [hi, List.getElem?_cons_succ, hb]⟩
    cases e with
    | control line => exact step h
    | content qs =>
      rcases List.mem_cons.1 h with h | h
      · obtain ⟨rfl, rfl⟩ := Prod.mk.inj h
        simp
      · exact step h

/-- A key has one value at a place. -/
theorem placed_unique {b : Body} {key : Key} {i : Nat} {v w : Text} (hv : (i, v) ∈ b.placed key)
    (hw : (i, w) ∈ b.placed key) : v = w := by
  have part {u : Text} (hu : (i, u) ∈ b.placed key) :
      ∃ ps, b[i]? = some (.content ps) ∧ ps.value? key = some u := by
    obtain ⟨⟨j, ps⟩, hps, he⟩ := List.mem_filterMap.1 hu
    obtain ⟨u', hu', he⟩ := Option.map_eq_some_iff.1 he
    obtain ⟨rfl, rfl⟩ := Prod.mk.inj he
    exact ⟨ps, by simpa using (getElem?_of_mem_partsFrom hps).2, hu'⟩
  obtain ⟨ps, hps, hpv⟩ := part hv
  obtain ⟨qs, hqs, hqw⟩ := part hw
  obtain rfl : ps = qs := by simpa [hps] using hqs
  exact Option.some.inj (hpv.symm.trans hqw)

/-- Parts come in the order of their places. -/
theorem pairwise_partsFrom (start : Nat) (b : Body) :
    (b.partsFrom start).Pairwise fun x y => x.1 < y.1 := by
  induction b generalizing start with
  | nil => exact .nil
  | cons e b ih =>
    cases e with
    | control line => exact ih (start + 1)
    | content ps =>
      refine List.pairwise_cons.2 ⟨fun x hx => ?_, ih (start + 1)⟩
      exact (getElem?_of_mem_partsFrom hx).1

/-- So do the values of a key. -/
theorem pairwise_placed (b : Body) (key : Key) :
    (b.placed key).Pairwise fun x y => x.1 < y.1 := by
  refine List.pairwise_filterMap.2 ((pairwise_partsFrom 0 b).imp fun {x y} hxy p hp q hq => ?_)
  obtain ⟨v, -, rfl⟩ := Option.map_eq_some_iff.1 hp
  obtain ⟨w, -, rfl⟩ := Option.map_eq_some_iff.1 hq
  exact hxy

end Ini.Body

namespace Buffers

/-- **The files that a variant loads** in place of those of a section, row by row; `none` where the
tables have none. -/
def pathsFor (b : Buffers) (variant : Text) : List (Option Text) :=
  b.rows.map fun r => b.fixedPath? r.place variant

variable {folder : Text} {b : Ini.Body} {variants : List Text} {rule : Text → Text → Text}

/-- **The file that a variant loads** in place of the one that a part names. -/
theorem fixedPath?_ofBody {i : Nat} {path variant : Text} (hp : (i, path) ∈ b.placed .filename)
    (hv : variant ∈ variants) :
    (ofBody folder b variants rule).fixedPath? i variant = some (rule path variant) := by
  obtain ⟨⟨j, path'⟩, hfind⟩ : ∃ e, (b.placed .filename).find? (·.1 == i) = some e :=
    Option.isSome_iff_exists.1 (List.find?_isSome.2 ⟨_, hp, by simp⟩)
  obtain rfl : j = i := by simpa using List.find?_some hfind
  obtain rfl := Ini.Body.placed_unique hp (List.mem_of_find?_eq_some hfind)
  have hrow : (ofBody folder b variants rule).rows.find? (·.place == j) =
      some ⟨j, path, Table.ofList (variants.map fun v => (v, rule path v))⟩ := by
    rw [ofBody, List.find?_map]
    exact congrArg (Option.map _) hfind
  rw [fixedPath?, hrow, Option.bind_some, Table.get?_ofList_map, if_pos hv]

theorem pairwise_rows_ofBody :
    (ofBody folder b variants rule).rows.Pairwise fun r s => r.place < s.place :=
  List.pairwise_map.2 (Ini.Body.pairwise_placed b .filename)

/-- The tables have a file of a variant for every file of the section. -/
theorem pathsFor_ofBody {variant : Text} (hv : variant ∈ variants) :
    (ofBody folder b variants rule).pathsFor variant =
      (b.valuesOf .filename).map fun path => some (rule path variant) := by
  rw [pathsFor, ofBody, List.map_map, Ini.Body.valuesOf, List.map_map]
  exact List.map_congr_left fun p hp => fixedPath?_ofBody hp hv

/-- A path that a variant loads is the one that the rule gives for a path that a part names. -/
theorem exists_of_fixedPath? {i : Nat} {variant path : Text}
    (h : (ofBody folder b variants rule).fixedPath? i variant = some path) :
    ∃ j old v, (j, old) ∈ b.placed .filename ∧ v ∈ variants ∧ path = rule old v := by
  obtain ⟨row, hrow, hget⟩ := Option.bind_eq_some_iff.1 h
  obtain ⟨⟨j, old⟩, hp, rfl⟩ := List.mem_map.1 (List.mem_of_find?_eq_some hrow)
  have hmem := Table.mem_of_mem_ofList (Table.mem_of_get?_eq_some hget)
  obtain ⟨v, hv, he⟩ := List.mem_map.1 hmem
  exact ⟨j, old, v, hp, hv, (Prod.mk.inj he).2.symm⟩

theorem whole_trim (b : Buffers) (path : Text) : b.whole (Text.trim path) = b.whole path := by
  rw [whole, Text.trim_trim]
  rfl

theorem namedFiles_ofBody : (ofBody folder b variants rule).namedFiles =
    (b.valuesOf .filename).map (whole ⟨folder, []⟩) := by
  simp [namedFiles, ofBody, Ini.Body.valuesOf, whole, Function.comp_def]

/-- The files that different variants load, as seen from the folder: file by file, and for each file
in the order of the variants. -/
theorem fixedFiles_ofBody (hn : variants.Nodup) : (ofBody folder b variants rule).fixedFiles =
    (b.valuesOf .filename).flatMap fun path =>
      variants.map fun v => whole ⟨folder, []⟩ (rule path v) := by
  have htable (path : Text) : Table.ofList (variants.map fun v => (v, rule path v)) =
      variants.map fun v => (v, rule path v) := by
    refine Table.ofList_of_nodup ?_
    simpa [Table.names, Function.comp_def] using hn
  simp only [fixedFiles, ofBody, Ini.Body.valuesOf, List.flatMap_map, htable, List.map_map]
  rfl

/-- **The files that variants load**, as seen from the folder. -/
theorem mem_fixedFiles_ofBody {file : Text} : file ∈ (ofBody folder b variants rule).fixedFiles ↔
    ∃ v ∈ variants, ∃ path ∈ b.valuesOf .filename, file = whole ⟨folder, []⟩ (rule path v) := by
  simp only [fixedFiles, ofBody, Ini.Body.valuesOf, List.mem_flatMap, List.mem_map]
  constructor
  · rintro ⟨_, ⟨⟨i, path⟩, hp, rfl⟩, ⟨v, new⟩, hnew, rfl⟩
    obtain ⟨v', hv, he⟩ := List.mem_map.1 (Table.mem_of_mem_ofList hnew)
    obtain ⟨rfl, rfl⟩ := Prod.mk.inj he
    exact ⟨v', hv, path, ⟨_, hp, rfl⟩, rfl⟩
  · rintro ⟨v, hv, _, ⟨⟨i, path⟩, hp, rfl⟩, rfl⟩
    refine ⟨_, ⟨_, hp, rfl⟩, (v, rule path v), Table.mem_of_get?_eq_some ?_, rfl⟩
    rw [Table.get?_ofList_map, if_pos hv]

end Buffers

end Reskin
