import Reskin.Proofs.Buffers
import Reskin.Proofs.Naming
import Reskin.Proofs.Remap.Reread

/-!
# Bodies that are rewritten

A part of a section is rewritten assignment by assignment. Each kind of sections has keys with a
rule: these are written as they are spelled in generated sections, with a value that depends on the
old value, on the variant and, for the file of a resource, on the place of the part. Any other
assignment is kept as it was or dropped, as the kind has it. Names do not depend on what a graph
remembers.

What is written is read again as what was meant, whatever the lines of the body are: the control
lines are those of the body, and between them stands what the rules make of its rows.

## Main definitions

* `Remap.Part.key?`, `Remap.Part.asks`: the keys with a rule, and those that take a character
* `Remap.Sources.valueFor`, `Remap.Sources.image`: what takes the place of a value, and of an
  assignment
* `Remap.Sources.Sound`: sources as they come to be
* `Remap.Sources.Rewrites`: lines that are read as what the rules make of a body

## Main results

* `Remap.Sources.assignment_eq`, `Remap.Sources.assignments_eq`: policies in terms of the rules
* `Remap.Sources.exists_textOf_iff`: when a section can be generated
* `Remap.Sources.exists_block`: a block can be made for a character
* `Remap.Sources.keepsLines_of_files`: new values stand on one line
* `Remap.Sources.fill_ofLines`: a generated section is read as its rules say
-/

namespace Reskin

namespace Remap

open Ini (Body Document Entry Key Pairs Line.assignment? Line.isControl Line.isHeader
  Line.withoutBreak)

/-! ## Rules -/

/-- The keys that the sections of a kind have rules for. -/
def Part.keys : Part → List Key
  | .blend => [.run, .hash, .vb1, .handling, .draw, .matchFirstIndex]
  | .others => [.run, .hash, .matchFirstIndex]
  | .resources => [.run, .type, .stride, .filename]

/-- The key with a rule that a written key means. -/
def Part.key? (part : Part) (k : Text) : Option Key := (Key.ofText? k).filter (· ∈ part.keys)

/-- Whether the rule of a written key asks for the id of a character. -/
def Part.asks (part : Part) (k : Text) : Bool :=
  part.key? k == some .hash || part.key? k == some .matchFirstIndex

namespace Sources

variable (s : Sources)

/-- The id that takes the place of another one: the replacement for the variant if there is one. -/
def idFor (kind : Asset.Kind) (id variant : Text) : Text :=
  (s.character.bind fun c => (c.replace kind id variant).toOption).getD id

/-- **The value that takes the place of another one** under a key with a rule, in the part that has a
place in the section of a name. -/
def valueFor (part : Part) (variant source : Text) (i : Nat) (key : Key) (v : Text) : Text :=
  match key with
  | .run => (s.graph part).style.rename v variant
  | .hash => s.idFor .hash v variant
  | .matchFirstIndex => s.idFor .index v variant
  | .vb1 => if s.resources.has v then s.resources.style.rename v variant else v
  | .handling => handlingValue
  | .draw => v
  | .type => bufferType
  | .stride => bufferStride
  | .filename => ((s.buffers.get? source).bind (·.fixedPath? i variant)).getD
    (Naming.bufferFile v variant)

/-- **What takes the place of an assignment**: that of the rule for its key. Without a rule it stays
as it was in sections that keep everything, and is dropped in the others. -/
def image (part : Part) (variant source : Text) (i : Nat) (p : Text × Text) :
    Option (Text × Text) :=
  match part.key? p.1 with
  | some key => some (key.text, s.valueFor part variant source i key p.2)
  | none => if part = .others then some p else none

/-! ## Policies -/

section Policies

variable {s} (hnames : ∀ part, (s.graph part).NamesByStyle)

theorem newId_eq (kind : Asset.Kind) (id variant : Text) : s.newId kind id variant =
    if s.character = none then .error .noCharacter else .ok (s.idFor kind id variant) := by
  unfold newId idFor
  cases s.character with
  | none => rfl
  | some c => cases hr : c.replace kind id variant <;> simp [hr, Except.toOption]

include hnames

/-- **The policy of a kind of sections** follows its rules; it fails if it has to ask for an id
without a character. -/
theorem assignment_eq (part : Part) (place : Place) (k v : Text) : s.assignment part place k v =
    if s.character = none ∧ part.asks k = true then .error .noCharacter
    else .ok (s.image part place.variant place.source place.index (k, v)) := by
  have hblend (n : Text) : s.blend.nameFor n place.variant =
      s.blend.style.rename n place.variant := hnames .blend n place.variant
  have hothers (n : Text) : s.others.nameFor n place.variant =
      s.others.style.rename n place.variant := hnames .others n place.variant
  have hresources (n : Text) : s.resources.nameFor n place.variant =
      s.resources.style.rename n place.variant := hnames .resources n place.variant
  cases hk : Key.ofText? k with
  | none =>
    have hkey : part.key? k = none := by rw [Part.key?, hk, Option.filter_none]
    cases part <;>
      simp [assignment, blendAssignment, otherAssignment, resourceAssignment, image, Part.asks,
        hkey, hk]
  | some key =>
    have hkey : part.key? k = if key ∈ part.keys then some key else none := by
      rw [Part.key?, hk, Option.filter_some]
      simp
    by_cases hc : s.character = none <;> cases part <;> cases key <;>
      simp [assignment, blendAssignment, otherAssignment, resourceAssignment, image, valueFor,
        Part.asks, hkey, Part.keys, hk, hc, newId_eq, newResource, newFile, graph, hblend, hothers,
        hresources, Except.map]

/-- The same for all assignments of a part. -/
theorem assignments_eq (part : Part) (place : Place) (ps : Pairs) :
    s.assignments part place ps =
      if s.character = none ∧ ∃ p ∈ ps, part.asks p.1 = true then .error .noCharacter
      else .ok (ps.filterMap (s.image part place.variant place.source place.index)) := by
  induction ps with
  | nil => simp [assignments]
  | cons p ps ih =>
    obtain ⟨k, v⟩ := p
    simp only [assignments, assignment_eq hnames, ih]
    by_cases hc : s.character = none
    · by_cases hk : part.asks k = true
      · simp [hc, hk, bind, Except.bind]
      · by_cases hps : ∃ p ∈ ps, part.asks p.1 = true
        · simp [hc, hk, hps, bind, Except.bind]
        · cases hi : s.image part place.variant place.source place.index (k, v) <;>
            simp [hc, hk, hps, hi, bind, Except.bind, pure, Except.pure]
    · cases hi : s.image part place.variant place.source place.index (k, v) <;>
        simp [hc, hi, bind, Except.bind, pure, Except.pure]

/-- A part can be written exactly if no id is asked for without a character. -/
theorem exists_write_iff (part : Part) (place : Place) (ps : Pairs) :
    (∃ u, s.write part place ps = .ok u) ↔
      s.character ≠ none ∨ ∀ p ∈ ps, part.asks p.1 = false := by
  have hwrite : (∃ u, s.write part place ps = .ok u) ↔
      ∃ new, s.assignments part place ps = .ok new := by
    simp only [write_eq_ok]
    constructor
    · rintro ⟨u, new, hnew, -⟩
      exact ⟨new, hnew⟩
    · rintro ⟨new, hnew⟩
      exact ⟨_, new, hnew, rfl⟩
  rw [hwrite, assignments_eq hnames]
  by_cases h : s.character = none ∧ ∃ p ∈ ps, part.asks p.1 = true
  · rw [if_pos h]
    obtain ⟨hc, p, hp, hasks⟩ := h
    constructor
    · rintro ⟨u, hu⟩
      cases hu
    · rintro (hsome | hnone)
      · exact absurd hc hsome
      · simp [hnone p hp] at hasks
  · rw [if_neg h]
    refine ⟨fun _ => ?_, fun _ => ⟨_, rfl⟩⟩
    by_cases hc : s.character = none
    · exact .inr fun p hp => Bool.eq_false_iff.2 fun hasks => h ⟨hc, p, hp, hasks⟩
    · exact .inl hc

/-- The entries of a section can be written exactly if its parts can. -/
theorem exists_textOf_iff (part : Part) (place : Place) (b : Body) :
    (∃ u, textOf (s.write part) (layoutFrom place b) = .ok u) ↔
      s.character ≠ none ∨ ∀ ps, .content ps ∈ b → ∀ p ∈ ps, part.asks p.1 = false := by
  have hcons {x : Laid} {xs : List Laid} : (∃ u, textOf (s.write part) (x :: xs) = .ok u) ↔
      (∃ u, x.text (s.write part) = .ok u) ∧ ∃ u, textOf (s.write part) xs = .ok u := by
    simp only [textOf_cons_eq_ok]
    constructor
    · rintro ⟨u, first, rest, hfirst, hrest, -⟩
      exact ⟨⟨first, hfirst⟩, rest, hrest⟩
    · rintro ⟨⟨first, hfirst⟩, rest, hrest⟩
      exact ⟨_, first, rest, hfirst, hrest, rfl⟩
  induction b generalizing place with
  | nil => simp [layoutFrom, textOf]
  | cons x b ih =>
    cases x with
    | control line =>
      rw [layoutFrom]
      refine hcons.trans ((and_congr_right fun _ => ih _).trans ?_)
      simp [Laid.text]
    | content ps =>
      rw [layoutFrom]
      refine hcons.trans ((and_congr (exists_write_iff hnames part place ps) (ih _)).trans ?_)
      simp only [List.mem_cons, Entry.content.injEq, forall_eq_or_imp, or_and_left]

end Policies

/-! ## Blocks that can be made -/

section Making

variable {s} (hnames : ∀ part, (s.graph part).NamesByStyle) (hc : s.character ≠ none)

include hnames hc

/-- Sections can be generated from any graph if there is a character. -/
theorem exists_sections (part : Part) (variant : Text) :
    ∃ ts, s.sections part variant = .ok ts := by
  refine exists_collect fun e _ => ?_
  obtain ⟨u, hu⟩ := (exists_textOf_iff hnames part
    ⟨variant, (s.graph part).nameFor e.1 variant, e.1, 0, []⟩ e.2).2 (.inl hc)
  exact ⟨_, bind_eq_ok.2 ⟨u, hu, rfl⟩⟩

theorem exists_variantText (variant : Text) : ∃ t, s.variantText variant = .ok t := by
  have hsections (part : Part) := exists_sections hnames hc part variant
  have htext (part : Part) : ∃ t, s.sectionsText part variant = .ok t := by
    obtain ⟨ts, hts⟩ := hsections part
    exact ⟨_, bind_eq_ok.2 ⟨ts, hts, rfl⟩⟩
  have hif {α : Type} {c : Bool} {x : Except Fault α} {a : α} (h : ∃ b, x = .ok b) :
      ∃ b, (if c then x else .ok a) = .ok b := by
    cases c
    · exact ⟨a, rfl⟩
    · exact h
  obtain ⟨blend, hblend⟩ := htext .blend
  obtain ⟨others, hothers⟩ := hif (c := !s.others.isEmpty) (a := []) (htext .others)
  obtain ⟨resources, hresources⟩ := hif (c := !s.resources.isEmpty) (a := []) (hsections .resources)
  rw [variantText_eq]
  exact ⟨_, bind_eq_ok.2 ⟨blend, hblend, bind_eq_ok.2 ⟨others, hothers,
    bind_eq_ok.2 ⟨resources, hresources, rfl⟩⟩⟩⟩

/-- **A block can be made** for any variants if there is a character. -/
theorem exists_block (variants : List Text) (title : Option Text) :
    ∃ t, s.block variants title = .ok t := by
  obtain ⟨parts, hparts⟩ : ∃ parts, s.variantParts variants = .ok parts := by
    refine exists_collect fun v _ => ?_
    obtain ⟨t, ht⟩ := exists_variantText hnames hc v
    exact ⟨_, by rw [ht]; rfl⟩
  exact ⟨_, bind_eq_ok.2 ⟨parts, hparts, rfl⟩⟩

end Making

/-! ## Sources -/

/-- **What takes the place of a value** stands on one line if the value does, the variants, the new
ids and the files that stand in the tables. -/
theorem keepsLines_of_files {s : Sources} {variants : List Text}
    (hnames : ∀ part, (s.graph part).NamesByStyle) (hv : ∀ v ∈ variants, '\n' ∉ v)
    (hids : ∀ c, s.character = some c → ∀ kind, ∀ row ∈ c.table kind, ∀ p ∈ row.2, '\n' ∉ p.2)
    (hfiles : ∀ source variant i path,
      (s.buffers.get? source).bind (·.fixedPath? i variant) = some path → '\n' ∉ path) :
    s.KeepsLines variants := by
  intro place v v' hvar hn h
  cases h with
  | kept => exact hn
  | named part =>
    rw [hnames part]
    exact NameStyle.newline_not_mem_rename hn (hv _ hvar) _
  | id h =>
    rcases exists_of_newId h with rfl | ⟨c, hc, row, hrow, p, hp, rfl⟩
    · exact hn
    · exact hids c hc _ row hrow p hp
  | file =>
    unfold newFile
    cases hb : (s.buffers.get? place.source).bind (·.fixedPath? place.index place.variant) with
    | none => exact Naming.newline_not_mem_bufferFile hn (hv _ hvar)
    | some path => exact hfiles _ _ _ _ hb
  | constant h => exact fun hm => (h _ hm).1 rfl

/-- **Sources as they come to be**: graphs that are made, new ids of letters and digits, and buffer
files that have the names of the rule, in place of files that are named on one line. -/
structure Sound (s : Sources) : Prop where
  made : ∀ part, (s.graph part).Made
  ids : ∀ c, s.character = some c → ∀ kind, ∀ row ∈ c.table kind, ∀ p ∈ row.2, Text.Alphanumeric p.2
  files : ∀ e ∈ s.buffers, ∃ (folder : Text) (b : Body) (variants : List Text),
    (∀ path ∈ b.valuesOf .filename, '\n' ∉ path) ∧ (∀ v ∈ variants, Text.Alphanumeric v) ∧
      e.2 = Buffers.ofBody folder b variants Naming.bufferFile

namespace Sound

variable {s} (hs : s.Sound)

include hs

theorem namesByStyle (part : Part) : (s.graph part).NamesByStyle := (hs.made part).namesByStyle

/-- A file that a table holds for a variant has the name of the rule. -/
theorem exists_of_fixed {source variant path : Text} {i : Nat}
    (h : (s.buffers.get? source).bind (·.fixedPath? i variant) = some path) :
    ∃ old v, Text.Alphanumeric v ∧ '\n' ∉ old ∧ path = Naming.bufferFile old v := by
  obtain ⟨files, hget, hpath⟩ := Option.bind_eq_some_iff.1 h
  obtain ⟨folder, b, variants, hold, hvariants, rfl⟩ :=
    hs.files _ (Table.mem_of_get?_eq_some hget)
  obtain ⟨j, old, v, hplaced, hv, rfl⟩ := Buffers.exists_of_fixedPath? hpath
  exact ⟨old, v, hvariants v hv, hold old (List.mem_map.2 ⟨_, hplaced, rfl⟩), rfl⟩

theorem keepsLines {variants : List Text} (hv : ∀ v ∈ variants, Text.Alphanumeric v) :
    s.KeepsLines variants := by
  refine keepsLines_of_files hs.namesByStyle (fun v hm => (hv v hm).newline_not_mem)
    (fun c hc kind row hrow p hp => (hs.ids c hc kind row hrow p hp).newline_not_mem) ?_
  intro source variant i path h
  obtain ⟨old, v, hv, hold, rfl⟩ := hs.exists_of_fixed h
  exact Naming.newline_not_mem_bufferFile hold hv.newline_not_mem

section Values

variable {v variant : Text} (ht : Text.trim v = v) (hv : variant.Alphanumeric)

include ht

theorem trim_idFor (kind : Asset.Kind) :
    Text.trim (s.idFor kind v variant) = s.idFor kind v variant := by
  by_cases hc : s.character = none
  · simpa [idFor, hc] using ht
  · have hnew := newId_eq (s := s) kind v variant
    rw [if_neg hc] at hnew
    rcases exists_of_newId hnew with h | ⟨c, hc, row, hrow, p, hp, h⟩
    · rw [h, ht]
    · rw [← h]
      exact (hs.ids c hc kind row hrow p hp).trim_eq

include hv

/-- **What takes the place of a value** has no blanks around it. -/
theorem trim_valueFor (part : Part) (source : Text) (i : Nat) (key : Key) :
    Text.trim (s.valueFor part variant source i key v) = s.valueFor part variant source i key v := by
  cases key with
  | run => exact NameStyle.trim_rename hv ht _
  | hash => exact hs.trim_idFor ht .hash
  | matchFirstIndex => exact hs.trim_idFor ht .index
  | vb1 =>
    simp only [valueFor]
    split
    · exact NameStyle.trim_rename hv ht _
    · exact ht
  | handling => exact (by decide : Text.trim handlingValue = handlingValue)
  | draw => exact ht
  | type => exact (by decide : Text.trim bufferType = bufferType)
  | stride => exact (by decide : Text.trim bufferStride = bufferStride)
  | filename =>
    simp only [valueFor]
    cases hb : (s.buffers.get? source).bind (·.fixedPath? i variant) with
    | none => exact Naming.trim_bufferFile hv v
    | some path =>
      obtain ⟨old, w, hw, -, rfl⟩ := hs.exists_of_fixed hb
      exact Naming.trim_bufferFile hw old

end Values

theorem trim_of_image {part : Part} {variant source : Text} (hv : variant.Alphanumeric) {i : Nat}
    {p q : Text × Text} (ht : Text.trim p.2 = p.2) (h : s.image part variant source i p = some q) :
    Text.trim q.2 = q.2 := by
  unfold image at h
  split at h
  · obtain rfl := Option.some.inj h
    exact hs.trim_valueFor ht hv part source i _
  · split at h
    · obtain rfl := Option.some.inj h
      exact ht
    · simp at h

end Sound

/-! ## Entries -/

section Entries

variable {s : Sources} {part : Part} {place : Place} {b : Body}

theorem controls_of_becomes {b' : Body}
    (h : List.Forall₂ (Laid.Becomes s part) (layoutFrom place b) b') : b'.controls = b.controls := by
  induction b generalizing place b' with
  | nil =>
    cases h
    rfl
  | cons x b ih =>
    cases x with
    | control line =>
      rw [layoutFrom] at h
      cases h with
      | cons hx hrest =>
        obtain rfl := hx
        rw [Body.controls, Body.controls, ih hrest]
    | content ps =>
      rw [layoutFrom] at h
      cases h with
      | cons hx hrest =>
        obtain ⟨new, -, rfl⟩ := hx
        rw [Body.controls, Body.controls, ih hrest]

/-- **The rows of what is read again** are what the rules make of the rows. -/
theorem map_rowsFrom_of_becomes (hs : s.Sound) {b' : Body}
    (h : List.Forall₂ (Laid.Becomes s part) (layoutFrom place b) b')
    (hv : place.variant.Alphanumeric) (hapart : b.Apart)
    (ht : ∀ ps, .content ps ∈ b → ∀ p ∈ ps, Text.trim p.2 = p.2) (j : Nat) :
    (Body.rowsFrom j b').map (·.2) = (Body.rowsFrom place.index b).map fun r =>
      r.2.filterMap (s.image part place.variant place.source r.1) := by
  -- Induction on the entries; what follows a part begins a row of its own.
  induction b generalizing place b' j with
  | nil =>
    cases h
    rfl
  | cons x b ih =>
    have ht' : ∀ ps, .content ps ∈ b → ∀ p ∈ ps, Text.trim p.2 = p.2 :=
      fun ps hps => ht ps (List.mem_cons_of_mem _ hps)
    cases x with
    | control line =>
      rw [layoutFrom] at h
      cases h with
      | cons hx hrest =>
        obtain rfl := hx
        rw [Body.rowsFrom, Body.rowsFrom, List.map_cons, List.map_cons,
          ih hrest hv hapart ht' (j + 1)]
        rfl
    | content ps =>
      rw [layoutFrom] at h
      cases h with
      | @cons _ _ _ bs hx hrest =>
        obtain ⟨new, hnew, rfl⟩ := hx
        obtain ⟨hstart, hapart⟩ := hapart
        have ih := ih hrest hv hapart ht' (j + 1)
        rw [assignments_eq hs.namesByStyle] at hnew
        split at hnew
        · cases hnew
        obtain rfl := Except.ok.inj hnew
        obtain ⟨rs, hrs⟩ := Body.exists_rowsFrom_eq hstart (place.index + 1)
        rw [Body.rowsFrom, Body.rowsFrom, Body.map_modifyHead_row, ih, hrs]
        have himage : Pairs.trimmed (ps.filterMap
            (s.image part place.variant place.source place.index)) =
            ps.filterMap (s.image part place.variant place.source place.index) := by
          refine (List.map_congr_left fun q hq => ?_).trans (List.map_id _)
          obtain ⟨p, hp, hq⟩ := List.mem_filterMap.1 hq
          rw [hs.trim_of_image hv (ht ps List.mem_cons_self p hp) hq]
          rfl
        simp [himage]

/-- An entry that is laid out is one of the body, with its place. -/
theorem of_mem_layoutFrom {x : Laid} (h : x ∈ layoutFrom place b) :
    (∃ line ∈ b.controls, x = .control line) ∨ ∃ p ps, (p.index, ps) ∈ b.partsFrom place.index ∧
      p.variant = place.variant ∧ p.source = place.source ∧ x = .content p ps := by
  induction b generalizing place with
  | nil => simp [layoutFrom] at h
  | cons y b ih =>
    cases y with
    | control line =>
      rw [layoutFrom] at h
      rcases List.mem_cons.1 h with rfl | h
      · exact .inl ⟨line, List.mem_cons_self, rfl⟩
      · rcases ih h with ⟨line', hline, rfl⟩ | hpart
        · exact .inl ⟨line', List.mem_cons_of_mem _ hline, rfl⟩
        · exact .inr hpart
    | content qs =>
      rw [layoutFrom] at h
      rcases List.mem_cons.1 h with rfl | h
      · exact .inr ⟨place, qs, List.mem_cons_self, rfl, rfl, rfl⟩
      · rcases ih h with hline | ⟨p, ps, hp, hpart⟩
        · exact .inl hline
        · exact .inr ⟨p, ps, List.mem_cons_of_mem _ hp, hpart⟩

end Entries

/-! ## Sections -/

/-- **Lines that are read as what the rules make of a body**: its control lines, and between them
what takes the place of its rows. Every line is one of the control lines, or is read as an
assignment that takes the place of one of the body. -/
structure Rewrites (s : Sources) (part : Part) (variant source : Text) (b : Body) (ls : List Text) :
    Prop where
  controls : (Body.ofLines ls).controls = b.controls
  rows : (Body.ofLines ls).rows.map (·.2) =
    b.rows.map fun r => r.2.filterMap (s.image part variant source r.1)
  lines : ∀ l ∈ ls, (∃ line ∈ b.controls, l = line ++ ['\n'] ∧ Line.isControl l = true) ∨
    ∃ r ∈ b.parts, ∃ p ∈ r.2, ∃ q, s.image part variant source r.1 p = some q ∧
      Line.assignment? l = some q

section Fill

variable {s} (hs : s.Sound) {lines : List Text} (hl : Below lines) {variant : Text}
  (hv : variant.Alphanumeric)

include hs hl hv

/-- **The text below the header** of a generated section is read as what the rules make of the
body. -/
theorem rewrites_of_textOf {part : Part} {name source u : Text}
    (h : textOf (s.write part) (layout variant name source (Body.ofLines lines)) = .ok u) :
    s.Rewrites part variant source (Body.ofLines lines) (Text.lines u) := by
  obtain ⟨ls, b', rfl, ⟨hls, hbecomes, hdense, hgives⟩, -⟩ := exists_textOf hl
    (hs.keepsLines (show ∀ v ∈ [variant], v.Alphanumeric by simpa using hv))
    (fun x hx => Body.comesFrom_of_mem_ofLines hx) (Body.apart_ofLines lines)
    (List.mem_singleton_self variant) (by simp [IsIndent]) h
  have htrim : ∀ ps, .content ps ∈ Body.ofLines lines → ∀ p ∈ ps, Text.trim p.2 = p.2 :=
    fun ps hps p hp => ((Body.comesFrom_of_mem_ofLines hps).trim_eq hp).2
  rw [Text.lines_unlines fun l hm => (hls l hm).1]
  refine ⟨?_, ?_, fun l hm => ?_⟩
  · rw [Body.ofLines_map_ending, ← Body.controls_dense, hdense, Body.controls_dense]
    exact controls_of_becomes hbecomes
  · rw [Body.ofLines_map_ending, Body.rows, ← Body.map_rowsFrom_dense 0 0, hdense,
      Body.map_rowsFrom_dense 0 0]
    exact map_rowsFrom_of_becomes hs hbecomes hv (Body.apart_ofLines lines) htrim 0
  · obtain ⟨m, hmem, rfl⟩ := List.mem_map.1 hm
    obtain ⟨x, hx, hgive⟩ := hgives m hmem
    rcases of_mem_layoutFrom hx with ⟨line, hline, rfl⟩ | ⟨place, ps, hps, hvar, hsource, rfl⟩
    · obtain rfl : m = line := hgive
      have hcontrol := control_of_comesFrom hl
        (Body.comesFrom_of_mem_ofLines (Body.mem_controls.1 hline))
      refine .inl ⟨m, hline, rfl, ?_⟩
      rw [Ini.Line.isControl_append_blank Text.LineEnding.lf.blank, hcontrol.1]
    · obtain ⟨p, hp, q, ha, hassign⟩ := hgive
      rw [assignment_eq hs.namesByStyle, hvar, hsource] at ha
      split at ha
      · cases ha
      have himage := Except.ok.inj ha
      have hcontent : .content ps ∈ Body.ofLines lines := (Body.mem_partsFrom 0).1 ⟨_, hps⟩
      rw [hs.trim_of_image hv (htrim ps hcontent p hp) himage] at hassign
      refine .inr ⟨_, hps, p, hp, q, himage, ?_⟩
      rw [Ini.Line.assignment?_append_blank Text.LineEnding.lf.blank]
      exact hassign

/-- **A generated section is read as its rules say**, whatever the lines of the body are. It can be
generated exactly if there is a character or no id is asked for. Below its header then stand the
control lines of the body, and between them what the rules make of the rows; no line is a comment or
malformed, and none but the control lines is read as one. -/
theorem fill_ofLines (part : Part) (name source : Text) :
    ((∃ text, fill (s.write part) variant name source (Body.ofLines lines) = .ok text) ↔
      s.character ≠ none ∨
        ∀ ps, .content ps ∈ Body.ofLines lines → ∀ p ∈ ps, part.asks p.1 = false) ∧
    ∀ text, fill (s.write part) variant name source (Body.ofLines lines) = .ok text →
      ∃ rest, text = headerOf name ++ rest ∧
        ('\n' ∉ name → (Text.lines text).tail = Text.lines rest) ∧
        s.Rewrites part variant source (Body.ofLines lines) (Text.lines rest) := by
  constructor
  · rw [← exists_textOf_iff hs.namesByStyle part ⟨variant, name, source, 0, []⟩]
    constructor
    · rintro ⟨text, h⟩
      obtain ⟨u, hu, -⟩ := bind_eq_ok.1 h
      exact ⟨u, hu⟩
    · rintro ⟨u, hu⟩
      exact ⟨_, bind_eq_ok.2 ⟨u, hu, rfl⟩⟩
  · intro text h
    obtain ⟨rest, hrest, h⟩ := bind_eq_ok.1 h
    obtain rfl := Except.ok.inj h
    refine ⟨rest, rfl, fun hname => ?_, rewrites_of_textOf hs hl hv hrest⟩
    have hheader : headerOf name ++ rest =
        ('[' :: (name ++ [']'])) ++ Text.LineEnding.lf.text ++ rest := by
      simp [headerOf, Text.LineEnding.text]
    rw [hheader, Text.lines_line_append (by simpa using hname), List.tail_cons]

end Fill

end Sources

/-! ## Lines that look like others -/

/-- What is read of the section that is generated of some lines, for one variant. -/
def Sources.Fills (s : Sources) (part : Part) (source : Text) (lines controls : List Text)
    (rows : List Pairs) : Prop :=
  ∃ rest, fill (s.write part) "RaidenBoss".toList "Head".toList source (Body.ofLines lines) =
      .ok (headerOf "Head".toList ++ rest) ∧
    (Body.ofLines (Text.lines rest)).controls = controls ∧
    (Body.ofLines (Text.lines rest)).rows.map (·.2) = rows

/-- Lines with keys in capitals, a key that begins like a control line, and a comment. -/
def idLines : List Text :=
  ["if $dress == 1".toList, "  HASH = 111".toList, "Run=CommandListHead".toList, "; note".toList,
    "else".toList, "ifx = a = b".toList, "endif".toList]

/-- Lines of a resource that names its file below a control line and runs another one. -/
def dressLines : List Text :=
  ["type = Mesh".toList, "if $dress == 1".toList, "\tFILENAME = Dress.buf".toList,
    "hash = 111".toList, "run = ResourceHat".toList, "endif".toList]

/-- Lines of an override that loads this resource, and one that is not generated. -/
def loadingLines : List Text :=
  ["  HASH = 111".toList, "vb1 = ResourceDress".toList, "if $on".toList,
    "vb1 = ResourceShoe".toList, "handling = none".toList, "ib = null".toList, "endif".toList]

/-- The resource, and the one that it runs. -/
def dressBodies : Ini.Bodies :=
  [("ResourceDress".toList, Body.ofLines dressLines), ("ResourceHat".toList, [])]

/-- A graph with the two resources that remembers their names, the files of the first one, and a
character with one id. -/
def dressSources : Sources where
  blend := .empty .blend
  others := .empty .fix
  resources := CallGraph.ensureNames ⟨.resource, dressBodies, []⟩ ["RaidenBoss".toList]
  buffers := [("ResourceDress".toList,
    Buffers.ofBody [] (Body.ofLines dressLines) ["RaidenBoss".toList] Naming.bufferFile)]
  character := some ⟨"Raiden".toList, [], .empty, ["RaidenBoss".toList],
    [("111".toList, [("RaidenBoss".toList, "222".toList)])], []⟩

theorem sound_dressSources : dressSources.Sound where
  made part := by
    cases part with
    | blend => exact .empty .blend
    | others => exact .empty .fix
    | resources =>
      have hbuild := CallGraph.build_eq_of_walkWithin (g := .empty .resource)
        (by decide +kernel : CallGraph.walkWithin dressBodies 2 [] ["ResourceDress".toList] =
          some (none, dressBodies))
      have hmade := CallGraph.Made.build ["ResourceDress".toList] dressBodies (.empty .resource)
      rw [hbuild] at hmade
      exact hmade.ensureNames _
  ids c hc kind row hrow p hp := by
    obtain rfl := Option.some.inj hc
    cases kind with
    | hash =>
      obtain rfl := List.mem_singleton.1 hrow
      obtain rfl := List.mem_singleton.1 hp
      decide
    | index => simp [Character.table] at hrow
  files e he := by
    obtain rfl := List.mem_singleton.1 he
    exact ⟨_, _, _, by decide +kernel, by decide, rfl⟩

/-- The sections that are generated for these lines, by all three policies. -/
theorem fill_ofLines_dress :
    dressSources.Fills .others "Tail".toList idLines
        ["if $dress == 1".toList, "else".toList, "endif".toList]
        [[], [("hash".toList, "222".toList),
          ("run".toList, "CommandListHeadRaidenBossRemapFix".toList)],
          [("ifx".toList, "a = b".toList)], []] ∧
      dressSources.Fills .resources "ResourceDress".toList dressLines
        ["if $dress == 1".toList, "endif".toList]
        [[("type".toList, "Buffer".toList)],
          [("filename".toList, "DressRaidenBossRemapBlend.buf".toList),
            ("run".toList, "ResourceHatRaidenBossRemapBlend".toList)], []] ∧
      dressSources.Fills .blend "TextureOverrideDressBlend".toList loadingLines
        ["if $on".toList, "endif".toList]
        [[("hash".toList, "222".toList), ("vb1".toList, "ResourceDressRaidenBossRemapBlend".toList)],
          [("vb1".toList, "ResourceShoe".toList), ("handling".toList, "skip".toList)], []] := by
  have hfill (part : Part) (source : Text) {lines controls : List Text} {rows : List Pairs}
      (hbelow : Sources.Below lines) (hcontrols : (Body.ofLines lines).controls = controls)
      (hrows : ((Body.ofLines lines).rows.map fun r => r.2.filterMap
        (dressSources.image part "RaidenBoss".toList source r.1)) = rows) :
      dressSources.Fills part source lines controls rows := by
    obtain ⟨hiff, hread⟩ := Sources.fill_ofLines sound_dressSources hbelow
      (by decide : Text.Alphanumeric "RaidenBoss".toList) part "Head".toList source
    obtain ⟨text, htext⟩ := hiff.2 (.inl (by simp [dressSources]))
    obtain ⟨rest, rfl, -, hrewrites⟩ := hread text htext
    exact ⟨rest, htext, hrewrites.controls.trans hcontrols, hrewrites.rows.trans hrows⟩
  refine ⟨hfill .others _ ?_ ?_ ?_, hfill .resources _ ?_ ?_ ?_, hfill .blend _ ?_ ?_ ?_⟩ <;>
    decide +kernel

end Remap

end Reskin
