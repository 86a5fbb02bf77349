import Reskin.Proofs.Ini.Writing
import Reskin.Proofs.Remap.Inert

/-!
# Generated sections read again

A generated section that is read again has the control lines of the section it stands in for and,
between them, the assignments that take the place of those of that section. So the values that a key
has in it are those of the old section, each of them replaced by the rule for its kind.

A block is read section by section: the empty lines, the banners and the credit between the sections
say nothing.

## Main definitions

* `Remap.Laid.Becomes`, `Remap.Laid.Gives`: an entry of a section, what is read again of it, and the
  lines that are written for it
* `Remap.Written`: lines that are written for the entries of a section
* `Remap.Sources.KeepsLines`: new values hold a line feed only if the old ones do
* `Remap.Copy.loads`, `Remap.Copy.files`: the resources that a generated section loads, and the
  files that it names
* `Remap.Sources.ReadAs`: a generated section and what is read of it

## Main results

* `Remap.Sources.value?_assignments`: the value that a key has after replacement
* `Remap.valuesOf_of_becomes`: the values of a key in a section that is read again
* `Remap.Sources.valuesOf_run_of_readAs`, `Remap.Sources.valuesOf_vb1_of_readAs`,
  `Remap.Sources.valuesOf_filename_of_readAs`: what is read of the calls, the resources and the files
  of a generated section
* `Remap.Sources.exists_readings`: what is read of all that stands between credit and rule
-/

namespace Reskin

namespace Ini.Key

theorem ofText?_text (key : Key) : ofText? key.text = some key := by
  cases key <;> decide

/-- What a key means does not depend on its case. -/
theorem ofText?_of_eqCaseless {k : Text} {key : Key} (ht : Text.trim k = k)
    (h : Text.eqCaseless k key.text = true) : ofText? k = some key := by
  rw [← ofText?_text key, ofText?, ofText?, ht, (Line.isKey_text key).trim_eq]
  congr 1
  funext x
  rw [Bool.eq_iff_iff, Text.eqCaseless_iff, Text.eqCaseless_iff, Text.eqCaseless_iff.1 h]

end Ini.Key

namespace Remap

open Ini (Body Document Entry Key Pairs Line.IsKey Line.assigning Line.assignment? Line.isControl
  Line.isHeader Line.sectionName Line.withoutBreak)

namespace Sources

variable {s : Sources} {part : Part} {place : Place} {variants : List Text}

/-! ## Assignments -/

/-- A key is kept or written as the key it means. -/
theorem key_of_assignment {k v : Text} {q : Text × Text}
    (h : s.assignment part place k v = .ok (some q)) :
    q.1 = k ∨ ∃ key : Key, Key.ofText? k = some key ∧ q.1 = key.text := by
  rcases assignment_spec h with ⟨key, new, rfl, hreplaces⟩ | ⟨rfl, -⟩
  · exact .inr ⟨key, hreplaces.means, rfl⟩
  · exact .inl rfl

/-- The new key differs from the old one in case only. -/
theorem eqCaseless_of_assignment {k v : Text} {q : Text × Text} (ht : Text.trim k = k)
    (h : s.assignment part place k v = .ok (some q)) : Text.eqCaseless q.1 k = true := by
  rcases key_of_assignment h with he | ⟨key, hk, he⟩
  · rw [he, Text.eqCaseless_refl]
  · rw [he, ← ht]
    exact Key.eqCaseless_of_ofText? hk

/-- The new value depends on what the key means. -/
theorem map_assignment_congr (s : Sources) (part : Part) (place : Place) {k k' : Text}
    (h : Key.ofText? k = Key.ofText? k') (v : Text) :
    Except.map (Option.map (·.2)) (s.assignment part place k v) =
      Except.map (Option.map (·.2)) (s.assignment part place k' v) := by
  cases part with
  | blend => simp only [assignment, blendAssignment, h]
  | resources => simp only [assignment, resourceAssignment, h]
  | others =>
    simp only [assignment, otherAssignment, h]
    split <;> rfl

theorem assignments_cons_eq_ok {p : Text × Text} {ps new : Pairs} :
    s.assignments part place (p :: ps) = .ok new ↔ ∃ first rest,
      s.assignment part place p.1 p.2 = .ok first ∧ s.assignments part place ps = .ok rest ∧
        new = first.toList ++ rest := by
  obtain ⟨k, v⟩ := p
  simp only [assignments, bind_eq_ok, pure, Except.pure, Except.ok.injEq]
  constructor
  · rintro ⟨first, hf, rest, hr, rfl⟩
    exact ⟨first, rest, hf, hr, rfl⟩
  · rintro ⟨first, rest, hf, hr, rfl⟩
    exact ⟨first, hf, rest, hr, rfl⟩

section Assignments

variable {ps new : Pairs} (h : s.assignments part place ps = .ok new)

include h

/-- Every new assignment takes the place of an old one. -/
theorem exists_of_mem_assignments {q : Text × Text} (hq : q ∈ new) :
    ∃ p ∈ ps, s.assignment part place p.1 p.2 = .ok (some q) := by
  induction ps generalizing new with
  | nil =>
    obtain rfl : [] = new := by simpa [assignments] using h
    simp at hq
  | cons p ps ih =>
    obtain ⟨first, rest, hfirst, hrest, rfl⟩ := assignments_cons_eq_ok.1 h
    rcases List.mem_append.1 hq with hq | hq
    · rw [Option.mem_toList.1 hq] at hfirst
      exact ⟨p, List.mem_cons_self, hfirst⟩
    · obtain ⟨p', hp, ha⟩ := ih hrest hq
      exact ⟨p', List.mem_cons_of_mem _ hp, ha⟩

variable (hd : ps.Distinct) (ht : ∀ p ∈ ps, Text.trim p.1 = p.1)

include hd ht

/-- New keys differ if the old ones do. -/
theorem distinct_assignments : new.Distinct := by
  induction ps generalizing new with
  | nil =>
    obtain rfl : [] = new := by simpa [assignments] using h
    exact List.Pairwise.nil
  | cons p ps ih =>
    obtain ⟨first, rest, hfirst, hrest, rfl⟩ := assignments_cons_eq_ok.1 h
    rw [Pairs.Distinct, List.pairwise_cons] at hd
    have hrest' := ih hrest hd.2 fun p' hp => ht p' (List.mem_cons_of_mem _ hp)
    cases first with
    | none => exact hrest'
    | some q =>
      refine List.pairwise_cons.2 ⟨fun r hr => ?_, hrest'⟩
      obtain ⟨p', hp, ha⟩ := exists_of_mem_assignments hrest hr
      have hq := eqCaseless_of_assignment (ht p List.mem_cons_self) hfirst
      have hr' := eqCaseless_of_assignment (ht p' (List.mem_cons_of_mem _ hp)) ha
      have hpp := hd.1 p' hp
      rw [Text.eqCaseless_iff] at hq hr'
      rw [Bool.eq_false_iff, ne_eq, Text.eqCaseless_iff] at hpp ⊢
      rwa [hq, hr']

/-- **The value of a key after replacement**: none if it had none, and else what takes the place of
its value. -/
theorem value?_assignments (key : Key) :
    (ps.value? key = none ∧ new.value? key = none) ∨ ∃ v o, ps.value? key = some v ∧
      s.assignment part place key.text v = .ok o ∧ new.value? key = o.map (·.2) := by
  -- Induction on the assignments; the first one has the key, or it does not count on either side.
  induction ps generalizing new with
  | nil =>
    obtain rfl : [] = new := by simpa [assignments] using h
    exact .inl ⟨rfl, rfl⟩
  | cons p ps ih =>
    obtain ⟨first, rest, hfirst, hrest, rfl⟩ := assignments_cons_eq_ok.1 h
    have htp := ht p List.mem_cons_self
    have ih := ih hrest (List.pairwise_cons.1 hd).2 fun p' hp => ht p' (List.mem_cons_of_mem _ hp)
    have hnew : Pairs.value? (first.toList ++ rest) key =
        if Text.eqCaseless p.1 key.text = true then (first.map (·.2)).or (rest.value? key)
        else rest.value? key := by
      cases first with
      | none => simp
      | some q =>
        have hq : Text.eqCaseless q.1 key.text = Text.eqCaseless p.1 key.text := by
          rw [Bool.eq_iff_iff, Text.eqCaseless_iff, Text.eqCaseless_iff,
            Text.eqCaseless_iff.1 (eqCaseless_of_assignment htp hfirst)]
        exact (Pairs.get?_cons q rest key.text).trans (by rw [hq]; rfl)
    by_cases hk : Text.eqCaseless p.1 key.text = true
    · right
      have hnone : rest.value? key = none := by
        rcases ih with ⟨-, hr⟩ | ⟨v, o, hv, -⟩
        · exact hr
        · rw [Pairs.value?, hd.get?_eq_none hk] at hv
          cases hv
      have hmeaning : Key.ofText? p.1 = Key.ofText? key.text := by
        rw [Key.ofText?_of_eqCaseless htp hk, Key.ofText?_text]
      have hmap := map_assignment_congr s part place hmeaning p.2
      rw [hfirst] at hmap
      cases ho : s.assignment part place key.text p.2 with
      | error fault => simp [ho, Except.map] at hmap
      | ok o =>
        obtain hmap : first.map (·.2) = o.map (·.2) := by simpa [ho, Except.map] using hmap
        refine ⟨p.2, o, by rw [Pairs.value?, Pairs.get?_cons, if_pos hk], ho, ?_⟩
        rw [hnew, if_pos hk, hnone, Option.or_none, hmap]
    · rw [hnew, if_neg hk, Pairs.value?, Pairs.get?_cons, if_neg hk]
      exact ih

end Assignments

/-- **New values are written on one line** if the old ones are. -/
def KeepsLines (s : Sources) (variants : List Text) : Prop :=
  ∀ place v v', place.variant ∈ variants → '\n' ∉ v → s.NewValue place v v' → '\n' ∉ v'

/-! ## Lines of a section -/

/-- Lines of a text that are no headers. -/
def Below (lines : List Text) : Prop :=
  ∀ l ∈ lines, '\n' ∉ Line.withoutBreak l ∧ Line.isHeader l = false

instance (lines : List Text) : Decidable (Below lines) :=
  inferInstanceAs (Decidable (∀ l ∈ lines, '\n' ∉ Line.withoutBreak l ∧ Line.isHeader l = false))

section Lines

variable {lines : List Text} (hl : Below lines) (hkeep : s.KeepsLines variants)
  (hvar : place.variant ∈ variants) (hi : IsIndent place.indent)

include hl hkeep hvar hi

/-- **An assignment that takes the place of another one** makes a line that assigns its key and is no
header. -/
theorem assigning_of_assignment {line : Text} (hline : line ∈ lines) {k v : Text}
    (ha : Line.assignment? line = some (k, v)) {q : Text × Text}
    (h : s.assignment part place k v = .ok (some q)) : Line.IsKey q.1 ∧
      '\n' ∉ Line.assigning place.indent q ∧ Line.isHeader (Line.assigning place.indent q) = false := by
  obtain ⟨hnl, hheader⟩ := hl line hline
  obtain ⟨hki, hvi⟩ := Ini.Line.infix_of_assignment? ha
  have hindent : '\n' ∉ place.indent := fun hn => by
    rcases hi _ hn with h | h <;> revert h <;> decide
  have hline' {k' v' : Text} (hk : '\n' ∉ k') (hv : '\n' ∉ v') :
      '\n' ∉ Line.assigning place.indent (k', v') := by
    simp [Line.assigning, hindent, hk, hv]
  obtain ⟨k', v'⟩ := q
  rcases assignment_spec h with ⟨key, new, ⟨⟩, hreplaces⟩ | ⟨⟨⟩, -⟩
  · have hkey := Ini.Line.isKey_text key
    exact ⟨hkey, hline' (fun hn => (Key.foreign_text key _ hn).1 rfl)
      (hkeep place v _ hvar (fun hn => hnl (hvi.subset hn)) hreplaces.value),
      Ini.Line.isHeader_assigning hkey hi.blank _ (Key.head?_text key)⟩
  · have hfree := hline' (fun hn => hnl (hki.subset hn)) (fun hn => hnl (hvi.subset hn))
    refine ⟨Ini.Line.isKey_of_assignment? ha, hfree, ?_⟩
    rw [Bool.eq_false_iff]
    intro hh
    have := Ini.Line.isHeader_of_isHeader_assigning ha hi.blank hnl hfree hh
    simp [hheader] at this

/-- **A row of assignments** as it is written. -/
theorem exists_row {ps : Pairs} (hps : (Entry.content ps).ComesFrom lines) {u : Text}
    (h : s.write part place ps = .ok u) : ∃ new, s.assignments part place ps = .ok new ∧
      u = Text.unlines .lf (new.map (Line.assigning place.indent)) ∧
      (∀ q ∈ new, Line.IsKey q.1 ∧ '\n' ∉ Line.assigning place.indent q ∧
        Line.isHeader (Line.assigning place.indent q) = false) ∧ new.Distinct := by
  obtain ⟨new, hnew, rfl⟩ := write_eq_ok.1 h
  obtain ⟨hdistinct, hfrom⟩ := hps
  have hkey : ∀ p ∈ ps, Text.trim p.1 = p.1 := fun p hp =>
    (Entry.ComesFrom.trim_eq ⟨hdistinct, hfrom⟩ hp).1
  refine ⟨new, hnew, ?_, fun q hq => ?_, distinct_assignments hnew hdistinct hkey⟩
  · simp [Text.unlines, assignmentLine, Line.assigning, Text.LineEnding.text, List.flatMap_map]
  · obtain ⟨p, hp, ha⟩ := exists_of_mem_assignments hnew hq
    obtain ⟨line, hline, hassign⟩ := hfrom p.1 p.2 hp
    exact assigning_of_assignment hl hkeep hvar hi hline hassign ha

end Lines

end Sources

/-! ## Sections -/

/-- **An entry of a section, and what is read again of it**: the same control line, or the
assignments that take the place of those of a part, without blanks around their values. -/
def Laid.Becomes (s : Sources) (part : Part) : Laid → Entry → Prop
  | .control line, e => e = .control line
  | .content place ps, e => ∃ new, s.assignments part place ps = .ok new ∧ e = .content new.trimmed

/-- **A line of an entry** of a generated section: its control line, or one of the assignments that
take the place of those of a part. -/
def Laid.Gives (s : Sources) (part : Part) (l : Text) : Laid → Prop
  | .control line => l = line
  | .content place ps => ∃ p ∈ ps, ∃ q, s.assignment part place p.1 p.2 = .ok (some q) ∧
    Line.assignment? l = some (q.1, Text.trim q.2)

section Sections

variable {s : Sources} {part : Part} {variants lines : List Text}

/-- A control line that has been read from a line is read from itself. -/
theorem control_of_comesFrom (hl : Sources.Below lines) {line : Text}
    (h : (Entry.control line).ComesFrom lines) : Line.isControl line = true ∧
      Line.withoutBreak line = line ∧ '\n' ∉ line ∧ Line.isHeader line = false := by
  obtain ⟨src, hsrc, hk⟩ := h
  obtain ⟨rfl, hcontrol⟩ := Ini.Line.eq_withoutBreak_of_control hk
  obtain ⟨hnl, hheader⟩ := hl src hsrc
  exact ⟨hcontrol, Ini.Line.withoutBreak_withoutBreak src, hnl, by
    rw [Ini.Line.isHeader_withoutBreak, hheader]⟩

/-- **Lines that are written for a row of entries**, and what is read again of them. -/
structure Written (s : Sources) (part : Part) (xs : List Laid) (ls : List Text) (b : Body) :
    Prop where
  lines : ∀ l ∈ ls, '\n' ∉ l ∧ Line.isHeader l = false
  becomes : List.Forall₂ (Laid.Becomes s part) xs b
  dense : (Body.ofLines ls).dense = Body.dense b
  gives : ∀ l ∈ ls, ∃ x ∈ xs, x.Gives s part l

namespace Written

variable {xs : List Laid} {ls : List Text} {b : Body} (h : Written s part xs ls b)

theorem nil : Written s part [] [] [] := ⟨by simp, .nil, rfl, by simp⟩

include h

theorem control {line : Text} (hcontrol : Line.isControl line = true)
    (hself : Line.withoutBreak line = line) (hnl : '\n' ∉ line) (hheader : Line.isHeader line = false) :
    Written s part (.control line :: xs) (line :: ls) (.control line :: b) where
  lines l hm := by
    rcases List.mem_cons.1 hm with rfl | hm
    · exact ⟨hnl, hheader⟩
    · exact h.lines l hm
  becomes := .cons rfl h.becomes
  dense := by
    have happend := Body.dense_ofLines_append_control hcontrol [] ls
    rw [List.nil_append, hself, h.dense] at happend
    rw [happend]
    rfl
  gives l hm := by
    rcases List.mem_cons.1 hm with rfl | hm
    · exact ⟨.control l, List.mem_cons_self, rfl⟩
    · obtain ⟨x, hx, hl⟩ := h.gives l hm
      exact ⟨x, List.mem_cons_of_mem _ hx, hl⟩

/-- A row of assignments ends at the control line that comes next. -/
theorem content {place : Place} (hi : IsIndent place.indent) {ps new : Pairs}
    (hnew : s.assignments part place ps = .ok new) (hdistinct : new.Distinct)
    (hrow : ∀ q ∈ new, Line.IsKey q.1 ∧ '\n' ∉ Line.assigning place.indent q ∧
      Line.isHeader (Line.assigning place.indent q) = false)
    (hhead : ∀ l ∈ ls.head?, Line.isControl l = true) :
    Written s part (.content place ps :: xs) (new.map (Line.assigning place.indent) ++ ls)
      (.content new.trimmed :: b) where
  lines l hm := by
    rcases List.mem_append.1 hm with hm | hm
    · obtain ⟨q, hq, rfl⟩ := List.mem_map.1 hm
      exact (hrow q hq).2
    · exact h.lines l hm
  becomes := .cons ⟨new, hnew, rfl⟩ h.becomes
  dense := by
    rw [Body.dense_ofLines_append hhead,
      Body.dense_ofLines_assigning hi.blank (fun q hq => (hrow q hq).1) hdistinct, h.dense,
      ← Body.dense_append]
    rfl
  gives l hm := by
    rcases List.mem_append.1 hm with hm | hm
    · obtain ⟨q, hq, rfl⟩ := List.mem_map.1 hm
      obtain ⟨p, hp, ha⟩ := Sources.exists_of_mem_assignments hnew hq
      exact ⟨.content place ps, List.mem_cons_self, p, hp, q, ha,
        Ini.Line.assignment?_assigning (hrow q hq).1 hi.blank q.2⟩
    · obtain ⟨x, hx, hl⟩ := h.gives l hm
      exact ⟨x, List.mem_cons_of_mem _ hx, hl⟩

end Written

/-- **The lines of a generated section** below its header, and what they say. -/
theorem exists_textOf (hl : Sources.Below lines) (hkeep : s.KeepsLines variants) {b : Body}
    (hb : ∀ x ∈ b, x.ComesFrom lines) (hapart : b.Apart) {place : Place}
    (hvar : place.variant ∈ variants) (hi : IsIndent place.indent) {u : Text}
    (h : textOf (s.write part) (layoutFrom place b) = .ok u) :
    ∃ ls b', u = Text.unlines .lf ls ∧ Written s part (layoutFrom place b) ls b' ∧
      (b.StartsApart → ∀ l ∈ ls.head?, Line.isControl l = true) := by
  -- Induction on the entries; what is laid out behind a part begins with a control line.
  induction b generalizing place u with
  | nil =>
    obtain rfl : [] = u := by simpa [layoutFrom, textOf] using h
    exact ⟨[], [], rfl, .nil, by simp⟩
  | cons x b ih =>
    have hb' : ∀ y ∈ b, y.ComesFrom lines := fun y hy => hb y (List.mem_cons_of_mem _ hy)
    have hx := hb x List.mem_cons_self
    cases x with
    | control line =>
      obtain ⟨first, rest, hfirst, hrest, rfl⟩ := textOf_cons_eq_ok.1 h
      obtain rfl := Except.ok.inj hfirst
      obtain ⟨ls, b', rfl, hwritten, -⟩ := ih hb' hapart
        (show Place.variant { place with index := _, indent := indentAfter line } ∈ variants from hvar)
        (Sources.isIndent_indentAfter line) hrest
      obtain ⟨hcontrol, hself, hnl, hheader⟩ := control_of_comesFrom hl hx
      refine ⟨line :: ls, _, by simp [Text.LineEnding.text],
        hwritten.control hcontrol hself hnl hheader, fun _ l hm => ?_⟩
      obtain rfl : line = l := by simpa using hm
      exact hcontrol
    | content ps =>
      obtain ⟨hstart, hapart⟩ := hapart
      obtain ⟨first, rest, hfirst, hrest, rfl⟩ := textOf_cons_eq_ok.1 h
      obtain ⟨new, hnew, rfl, hrow, hdistinct⟩ := Sources.exists_row hl hkeep hvar hi hx hfirst
      obtain ⟨ls, b', rfl, hwritten, hhead⟩ := ih hb' hapart
        (show Place.variant { place with index := place.index + 1 } ∈ variants from hvar) hi hrest
      exact ⟨new.map (Line.assigning place.indent) ++ ls, _, by simp,
        hwritten.content hi hnew hdistinct hrow (hhead hstart), fun hno => absurd rfl (hno ps)⟩

/-! ### Values -/

/-- **The values of a key** in a section that is read again: what takes the place of the values of
the old one. The rule may depend on the place of the entry. -/
theorem valuesOf_of_becomes {b b' : Body} {place : Place} {key : Key}
    (rule : Nat → Text → Option Text)
    (hb : ∀ ps, .content ps ∈ b → ps.Distinct ∧ ∀ p ∈ ps, Text.trim p.1 = p.1)
    (h : List.Forall₂ (Laid.Becomes s part) (layoutFrom place b) b')
    (hrule : ∀ (p : Place) v o, p.variant = place.variant → p.source = place.source →
      s.assignment part p key.text v = .ok o → o.map (·.2) = rule p.index v) :
    b'.valuesOf key = (Body.partsFrom place.index b).filterMap fun e =>
      ((e.2.value? key).bind (rule e.1)).map Text.trim := by
  induction b generalizing place b' with
  | nil =>
    cases h
    rfl
  | cons x b ih =>
    have hb' : ∀ ps, .content ps ∈ b → ps.Distinct ∧ ∀ p ∈ ps, Text.trim p.1 = p.1 :=
      fun ps hps => hb ps (List.mem_cons_of_mem _ hps)
    cases x with
    | control line =>
      rw [layoutFrom] at h
      cases h with
      | cons hx hrest =>
        obtain rfl := hx
        rw [Body.valuesOf_cons_control, Body.partsFrom]
        exact ih hb' hrest hrule
    | content ps =>
      rw [layoutFrom] at h
      cases h with
      | cons hx hrest =>
        obtain ⟨new, hnew, rfl⟩ := hx
        obtain ⟨hdistinct, htrim⟩ := hb ps List.mem_cons_self
        rw [Body.valuesOf_cons_content, Body.partsFrom, List.filterMap_cons, ih hb' hrest hrule]
        have htrimmed : new.trimmed.value? key = (new.value? key).map Text.trim := by
          simp [Pairs.value?, Pairs.get?, Pairs.trimmed, List.find?_map, Function.comp_def,
            Option.map_map]
        rw [htrimmed]
        rcases Sources.value?_assignments hnew hdistinct htrim key with
          ⟨hold, hnone⟩ | ⟨v, o, hold, ho, hvalue⟩
        · simp [hold, hnone]
        · rw [hold, hvalue, hrule place v o rfl rfl ho, Option.bind_some]
          cases rule place.index v <;> rfl

end Sections

/-! ## Blocks -/

/-- **A section that is generated**: it stands in for a section of a graph, for a variant. -/
structure Copy where
  part : Part
  variant : Text
  source : Text
  body : Body
  deriving DecidableEq, Repr

namespace Copy

/-- The resources that the generated section loads. -/
def loads (c : Copy) (resources : CallGraph) : List Text :=
  match c.part with
  | .blend => (c.body.valuesOf .vb1).map fun n =>
    if resources.has n then resources.nameFor n c.variant else n
  | .others => c.body.valuesOf .vb1
  | .resources => []

/-- The files that the generated section names. -/
def files (c : Copy) : List Text :=
  match c.part with
  | .blend => []
  | .others => c.body.valuesOf .filename
  | .resources => (c.body.valuesOf .filename).map (Naming.bufferFile · c.variant)

end Copy

namespace Sources

variable (s : Sources)

/-- The name that a generated section is given. -/
def nameOf (c : Copy) : Text := (s.graph c.part).nameFor c.source c.variant

/-- The sections that are generated for some variants, in order. -/
def copies (variants : List Text) : List Copy :=
  variants.flatMap (s.allGathered fun part v e => [⟨part, v, e.1, e.2⟩])

/-- **A generated section, and what is read of it**: its name, and what is read of its entries. -/
def ReadAs (c : Copy) (r : Text × Body) : Prop :=
  r.1 = Text.trim (s.nameOf c) ∧ ∃ b', List.Forall₂ (Laid.Becomes s c.part)
    (layout c.variant (s.nameOf c) c.source c.body) b' ∧ r.2 = Body.dense b'

/-- Whole lines, idle up to the first header, that generated sections are read of. -/
def Reads (cs : List Copy) (t : Text) : Prop :=
  ∃ ls, t = Text.unlines .lf ls ∧ (∀ l ∈ ls, '\n' ∉ l) ∧ Ini.IdleStart ls ∧
    List.Forall₂ s.ReadAs cs (Ini.readings ls)

variable {s} {variants : List Text}

theorem map_fst_of_readAs {cs : List Copy} {rs : List (Text × Body)}
    (h : List.Forall₂ s.ReadAs cs rs) :
    rs.map (·.1) = cs.map fun c => Text.trim (s.nameOf c) :=
  map_eq_map_of_forall₂ h fun _ _ hr => hr.1

/-- **The value that takes the place of another one** under a key that asks for no id, in a part of
the section that is generated; `none` where the key is dropped. -/
def newText? (s : Sources) (c : Copy) (i : Nat) (v : Text) (key : Key) : Option Text :=
  match key, c.part with
  | .run, part => some ((s.graph part).nameFor v c.variant)
  | _, .others => some v
  | .vb1, .blend => some (s.newResource v c.variant)
  | .handling, .blend => some handlingValue
  | .draw, .blend => some v
  | .type, .resources => some bufferType
  | .stride, .resources => some bufferStride
  | .filename, .resources => some (s.newFile ⟨c.variant, [], c.source, i, []⟩ v)
  | _, _ => none

section Values

variable {c : Copy} {key : Key} (hhash : key ≠ .hash) (hindex : key ≠ .matchFirstIndex)

include hhash hindex

/-- What takes the place of an assignment to such a key. -/
theorem assignment_of_key {p : Place} (hv : p.variant = c.variant) (hs : p.source = c.source)
    (v : Text) : s.assignment c.part p key.text v =
      .ok ((s.newText? c p.index v key).map fun new => (key.text, new)) := by
  obtain ⟨variant, name, source, index, indent⟩ := p
  obtain ⟨part, variant', source', body⟩ := c
  obtain rfl : variant = variant' := hv
  obtain rfl : source = source' := hs
  cases part <;> cases key <;>
    simp_all [assignment, blendAssignment, otherAssignment, resourceAssignment, newText?,
      Key.ofText?_text, graph, newFile]

variable {r : Text × Body} (h : s.ReadAs c r)
  (hbody : ∀ ps, .content ps ∈ c.body → ps.Distinct ∧ ∀ p ∈ ps, Text.trim p.1 = p.1)

include h hbody

/-- **The values of such a key** in a generated section, when it is read. -/
theorem valuesOf_of_readAs : r.2.valuesOf key =
    (c.body.placed key).filterMap fun p => (s.newText? c p.1 p.2 key).map Text.trim := by
  obtain ⟨-, b', hbecomes, hr⟩ := h
  have hrule (p : Place) (v : Text) (o : Option (Text × Text)) (hv : p.variant = c.variant)
      (hs : p.source = c.source) (ho : s.assignment c.part p key.text v = .ok o) :
      o.map (·.2) = s.newText? c p.index v key := by
    rw [assignment_of_key hhash hindex hv hs] at ho
    obtain rfl := Except.ok.inj ho
    rw [Option.map_map]
    exact Option.map_id'
  rw [hr, Body.valuesOf_dense, valuesOf_of_becomes (fun i v => s.newText? c i v key) hbody hbecomes
    hrule, Body.placed, List.filterMap_filterMap]
  apply List.filterMap_congr
  rintro ⟨i, ps⟩ -
  cases hv : ps.value? key <;> simp [hv]

end Values

section Reading

variable {c : Copy} {r : Text × Body} (h : s.ReadAs c r)
  (hbody : ∀ ps, .content ps ∈ c.body → ps.Distinct ∧ ∀ p ∈ ps, Text.trim p.1 = p.1)

include h hbody

/-- **The sections that a generated section runs**, when it is read. -/
theorem valuesOf_run_of_readAs : r.2.valuesOf .run =
    (c.body.valuesOf .run).map fun n => Text.trim ((s.graph c.part).nameFor n c.variant) := by
  rw [valuesOf_of_readAs (by simp) (by simp) h hbody]
  simp [newText?, Body.valuesOf]

/-- **The resources that a generated section loads**, when it is read. -/
theorem valuesOf_vb1_of_readAs : r.2.valuesOf .vb1 = (c.loads s.resources).map Text.trim := by
  rw [valuesOf_of_readAs (by simp) (by simp) h hbody]
  obtain ⟨part, variant, source, body⟩ := c
  cases part <;> simp [newText?, Copy.loads, Body.valuesOf, newResource]

/-- **The files that a generated section names**, when it is read. -/
theorem valuesOf_filename_of_readAs (hfile : ∀ p : Place, p.variant = c.variant →
      p.source = c.source → ∀ v, (p.index, v) ∈ c.body.placed .filename →
        s.newFile p v = Naming.bufferFile v c.variant) :
    r.2.valuesOf .filename = c.files.map Text.trim := by
  rw [valuesOf_of_readAs (by simp) (by simp) h hbody]
  obtain ⟨part, variant, source, body⟩ := c
  cases part with
  | blend => simp [newText?, Copy.files]
  | others => simp [newText?, Copy.files, Body.valuesOf]
  | resources =>
    simp only [newText?, Option.map_some, List.filterMap_eq_map', Copy.files, Body.valuesOf,
      List.map_map]
    exact List.map_congr_left fun q hq =>
      congrArg Text.trim (hfile ⟨variant, [], source, q.1, []⟩ rfl rfl q.2 hq)

end Reading

/-- The readings of sections that are looked up by their names. -/
theorem rel_find?_of_readAs {cs : List Copy} {rs : List (Text × Body)}
    (h : List.Forall₂ s.ReadAs cs rs) (n : Text) :
    Option.Rel s.ReadAs (cs.find? fun c => Text.trim (s.nameOf c) == n) (rs.find? (·.1 == n)) := by
  induction h with
  | nil => exact .none
  | @cons c r cs rs hr _ ih =>
    rw [List.find?_cons, List.find?_cons, hr.1]
    split
    · exact .some hr
    · exact ih

theorem reads_idle {l : Text} (hn : '\n' ∉ l) (hl : Ini.Line.isIdle l = true) :
    s.Reads [] (l ++ ['\n']) := by
  have hheader := Ini.Line.isHeader_of_isIdle hl
  refine ⟨[l], by simp [Text.LineEnding.text], by simpa using hn, ?_, ?_⟩
  · simpa [Ini.IdleStart, hheader] using hl
  · rw [Ini.readings_of_idle (by simpa using hl)]
    exact .nil

theorem additive_reads : Additive s.Reads where
  nil := ⟨[], rfl, by simp, by simp [Ini.IdleStart], .nil⟩
  append := by
    rintro as bs a b ⟨ls, rfl, hls, hstart, hr⟩ ⟨ms, rfl, hms, hstart', hr'⟩
    refine ⟨ls ++ ms, by simp, fun l hl => (List.mem_append.1 hl).elim (hls l) (hms l),
      hstart.append hstart', ?_⟩
    rw [Ini.readings_append ls hstart']
    exact List.rel_append hr hr'
  empty := reads_idle (l := []) (by simp) (by decide)

section Section

variable {t : Text} (hbuilt : ∀ part, (s.graph part).Built (Document.plain t).bodies)
  (hkeep : s.KeepsLines variants)

include hbuilt hkeep

theorem newline_not_mem_nameFor {part : Part} {e : Text × Body} (he : e ∈ (s.graph part).reached)
    {variant : Text} (hv : variant ∈ variants) : '\n' ∉ (s.graph part).nameFor e.1 variant := by
  obtain ⟨c, hc, hname, -⟩ := Document.exists_chunk_of_get?_bodies ((hbuilt part).declared e he)
  obtain ⟨-, -, -, hh, -⟩ := Ini.mem_chunks hc
  exact hkeep ⟨variant, [], [], 0, []⟩ e.1 _ hv
    (hname ▸ (Ini.Line.sectionName_of_mem_lines (Ini.mem_lines_of_mem_chunks hc).1 hh).2) (.named part)

/-- **The lines of a generated section**: its header, and below it what is read again of the section
it stands in for. -/
theorem exists_lines_of_sectionText {part : Part} {variant : Text} (hv : variant ∈ variants)
    {e : Text × Body} (he : e ∈ (s.graph part).reached) {u : Text}
    (h : s.sectionText part variant e = .ok u) : ∃ ls b',
      u = Text.unlines .lf (s.headerLine part e.1 variant :: ls) ∧
      '\n' ∉ s.headerLine part e.1 variant ∧ (∀ l ∈ ls, '\n' ∉ l ∧ Line.isHeader l = false) ∧
      List.Forall₂ (Laid.Becomes s part)
        (layout variant ((s.graph part).nameFor e.1 variant) e.1 e.2) b' ∧
      (Body.ofLines ls).dense = Body.dense b' := by
  obtain ⟨c, hc, -, hbody⟩ := Document.exists_chunk_of_get?_bodies ((hbuilt part).declared e he)
  have hbelow : Below c.lines := fun l hl =>
    have ⟨hmem, hheader⟩ := (Ini.mem_lines_of_mem_chunks hc).2 l hl
    ⟨Ini.Line.newline_not_mem_withoutBreak hmem, hheader⟩
  obtain ⟨text, htext, h⟩ := bind_eq_ok.1 h
  obtain rfl := Except.ok.inj h
  obtain ⟨ls, b', rfl, ⟨hls, hbecomes, hdense, -⟩, -⟩ := exists_textOf hbelow hkeep
    (fun x hx => Body.comesFrom_of_mem_ofLines (hbody ▸ hx)) (hbody ▸ Body.apart_ofLines c.lines)
    (show Place.variant ⟨variant, _, _, 0, []⟩ ∈ variants from hv) (by simp [IsIndent]) htext
  refine ⟨ls, b', ?_, ?_, hls, hbecomes, hdense⟩
  · simp [headerOf, headerLine, Text.LineEnding.text]
  · simpa [headerLine] using newline_not_mem_nameFor hbuilt hkeep he hv

omit hbuilt hkeep in
theorem isHeader_headerLine {part : Part} {name variant : Text}
    (h : '\n' ∉ s.headerLine part name variant) :
    Line.isHeader (s.headerLine part name variant) = true := by
  refine Ini.Line.isHeader_bracketed fun hn => h ?_
  simp [headerLine, hn]

/-- **A generated section** is read again. -/
theorem reads_sectionText {part : Part} {variant : Text} (hv : variant ∈ variants)
    {e : Text × Body} (he : e ∈ (s.graph part).reached) {u : Text}
    (h : s.sectionText part variant e = .ok u) : s.Reads [⟨part, variant, e.1, e.2⟩] u := by
  obtain ⟨ls, b', rfl, hnl, hls, hbecomes, hdense⟩ :=
    exists_lines_of_sectionText hbuilt hkeep hv he h
  have hheader := isHeader_headerLine hnl
  refine ⟨s.headerLine part e.1 variant :: ls, rfl, ?_, Ini.idleStart_of_header hheader ls, ?_⟩
  · rintro l (_ | ⟨_, hl⟩)
    · exact hnl
    · exact (hls l hl).1
  · have hall : ls.takeWhile (!Line.isHeader ·) = ls :=
      List.takeWhile_eq_self_iff.2 fun l hl => by simp [(hls l hl).2]
    rw [Ini.readings_cons_header hheader, Ini.readings_of_no_header fun l hl => (hls l hl).2, hall,
      hdense, headerLine, Ini.Line.sectionName_bracketed]
    exact .cons ⟨rfl, b', hbecomes, rfl⟩ .nil

/-- **What is read of a block** between credit and rule: the generated sections, in order. -/
theorem exists_readings (hlines : ∀ v ∈ variants, '\n' ∉ v) (hne : s.blend.isEmpty = false)
    {parts : List Text} (h : s.variantParts variants = .ok parts) :
    ∃ ls, parts.flatten ++ ['\n', '\n'] = ['\n', '\n'] ++ Text.unlines .lf ls ∧
      (∀ l ∈ ls, '\n' ∉ l) ∧ Ini.IdleStart ls ∧
      List.Forall₂ s.ReadAs (s.copies variants) (Ini.readings ls) := by
  obtain ⟨u, hu, ls, rfl, hls⟩ := exists_of_variantParts additive_reads
    (fun part v hv e he t ht => reads_sectionText hbuilt hkeep hv he ht)
    (fun v hv => reads_idle (by
      simp [commentLine, Banner.opening, Banner.side, variantBanner, Text.rule, hlines v hv])
      (Ini.Line.isIdle_comment _)) hne h
  exact ⟨ls, hu, hls⟩

end Section

end Sources

end Remap

end Reskin
