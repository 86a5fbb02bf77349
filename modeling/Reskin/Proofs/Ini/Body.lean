import Reskin.CallGraph
import Reskin.Proofs.Ini.Line

/-!
# What a body holds

Nothing in a body is made up: its control lines and its assignments are those of the lines it is
read from. Within a part no key comes twice, so the value a meaningful key has is the one value
assigned to it.

## Main definitions

* `Ini.Entry.ComesFrom`: entries that are written on some lines

## Main results

* `Ini.Body.comesFrom_of_mem_ofLines`: every entry of a body comes from its lines
* `Ini.Body.mem_callees_of_mem`, `Ini.Body.exists_line_of_mem_callees`: what a body runs is what
  its lines assign to the key of calls
-/

namespace Reskin.Ini

/-! ## Entries -/

/-- An entry that is written on some of the lines. -/
def Entry.ComesFrom (lines : List Text) : Entry → Prop
  | .control c => ∃ line ∈ lines, LineKind.ofLine line = .control c
  | .content ps =>
    ps.Distinct ∧ ∀ k v, (k, v) ∈ ps → ∃ line ∈ lines, Line.assignment? line = some (k, v)

namespace Body

variable {lines : List Text}

theorem comesFrom_of_mem_ofData {data : List Text}
    (hd : ∀ d ∈ data, ∃ line ∈ lines, LineKind.ofLine line = .data d) {e : Entry}
    (h : e ∈ ofData data) : e.ComesFrom lines := by
  unfold ofData at h
  split at h
  · simp at h
  · split at h
    · next ps hps =>
      obtain rfl := List.mem_singleton.1 h
      refine ⟨Pairs.distinct_of_ofLines hps, fun k v hm => ?_⟩
      obtain ⟨d, hdata, hgives⟩ := Pairs.exists_gives_of_mem hps hm
      obtain ⟨line, hline, hk⟩ := hd d hdata
      exact ⟨line, hline, by
        simp [Line.assignment?, hk, Pairs.ofLine_of_gives hgives, Except.toOption]⟩
    · obtain rfl := List.mem_singleton.1 h
      exact ⟨List.Pairwise.nil, by simp⟩

/-- The lines already read as data, and those still to be read, all are lines of the body. -/
theorem comesFrom_of_mem_readLines {data rest : List Text}
    (hd : ∀ d ∈ data, ∃ line ∈ lines, LineKind.ofLine line = .data d)
    (hr : ∀ line ∈ rest, line ∈ lines) {e : Entry} (h : e ∈ readLines data rest) :
    e.ComesFrom lines := by
  -- Induction on the lines to be read; a control line ends the data gathered so far.
  induction rest generalizing data with
  | nil => exact comesFrom_of_mem_ofData hd h
  | cons line rest ih =>
    have hr' : ∀ l ∈ rest, l ∈ lines := fun l hl => hr l (List.mem_cons_of_mem _ hl)
    rw [readLines] at h
    split at h
    · next c hc =>
      rcases List.mem_append.1 h with h | h
      · exact comesFrom_of_mem_ofData hd h
      · rcases List.mem_cons.1 h with rfl | h
        · exact ⟨line, hr line List.mem_cons_self, hc⟩
        · exact ih (by simp) hr' h
    · next d hk =>
      refine ih (fun d' hd' => ?_) hr' h
      rcases List.mem_append.1 hd' with hd' | hd'
      · exact hd d' hd'
      · rw [List.mem_singleton.1 hd']
        exact ⟨line, hr line List.mem_cons_self, hk⟩

/-- **Nothing is made up**: every entry of a body is written on its lines. -/
theorem comesFrom_of_mem_ofLines {e : Entry} (h : e ∈ ofLines lines) : e.ComesFrom lines := by
  unfold ofLines at h
  split at h
  · obtain rfl := List.mem_singleton.1 h
    exact ⟨List.Pairwise.nil, by simp⟩
  · exact comesFrom_of_mem_readLines (by simp) (fun _ hl => hl) h

/-! ## Calls -/

theorem mem_partsFrom {b : Body} (start : Nat) {ps : Pairs} :
    (∃ i, (i, ps) ∈ partsFrom start b) ↔ .content ps ∈ b := by
  induction b generalizing start with
  | nil => simp [partsFrom]
  | cons e b ih =>
    cases e with
    | control line => simpa [partsFrom] using ih (start + 1)
    | content qs =>
      simp only [partsFrom, List.mem_cons, Prod.mk.injEq, exists_or, Entry.content.injEq, ih]
      simp

theorem mem_valuesOf {b : Body} {key : Key} {v : Text} :
    v ∈ b.valuesOf key ↔ ∃ ps, .content ps ∈ b ∧ ps.value? key = some v := by
  simp only [valuesOf, placed, parts, List.mem_map, List.mem_filterMap, Prod.exists,
    Option.map_eq_some_iff, Prod.mk.injEq]
  constructor
  · rintro ⟨i, w, ⟨j, ps, hm, u, hu, -, rfl⟩, rfl⟩
    exact ⟨ps, (mem_partsFrom 0).1 ⟨j, hm⟩, hu⟩
  · rintro ⟨ps, hm, hv⟩
    obtain ⟨i, hi⟩ := (mem_partsFrom 0).2 hm
    exact ⟨i, v, ⟨i, ps, hi, v, hv, rfl, rfl⟩, rfl⟩

/-- What is assigned to the key of calls is run. -/
theorem mem_callees_of_mem {b : Body} {ps : Pairs} {k v : Text} (hp : .content ps ∈ b)
    (hd : ps.Distinct) (hm : (k, v) ∈ ps) (hk : Text.eqCaseless k Key.run.text = true) :
    v ∈ b.callees :=
  mem_valuesOf.2 ⟨ps, hp, hd.get?_of_mem hm hk⟩

/-- What is run is assigned to the key of calls on some line. -/
theorem exists_line_of_mem_callees {v : Text} (h : v ∈ (ofLines lines).callees) :
    ∃ line ∈ lines, ∃ k, Line.assignment? line = some (k, v) ∧
      Text.eqCaseless k Key.run.text = true := by
  obtain ⟨ps, hp, hv⟩ := mem_valuesOf.1 h
  obtain ⟨k, hm, hk⟩ := Pairs.mem_of_get?_eq_some hv
  obtain ⟨line, hline, ha⟩ := (comesFrom_of_mem_ofLines hp).2 k v hm
  exact ⟨line, hline, k, ha, hk⟩

end Body

end Reskin.Ini
