import Reskin.Proofs.Ini.Document
import Reskin.Proofs.Ini.Writing
import Reskin.Proofs.Remap.Lines
import Reskin.Proofs.Remap.Quiet

/-!
# Lines that do not interfere

Every line of a block that is made from a text free of fences is inert: it closes no fence, it
opens a section only if the block declares it, and it runs only sections that the block declares.
This is what lets a block be cut out again as a whole.

## Main definitions

* `Character.IsPlain`: characters whose names and ids are letters and digits
* `Remap.Sources.FitsText`: graphs and tables made from a text
* `Remap.Sources.Declares`: the names of generated sections
* `Remap.Inert`: lines that do not interfere

## Main results

* `Remap.Sources.inert_of_blockLine`: the lines of a block are inert
* `Remap.Sources.exists_header_of_declares`: every name of a generated section has its header
-/

namespace Reskin

/-- The name of the character consists of letters, digits and blanks; the names of its variants and
its ids consist of letters and digits. -/
structure Character.IsPlain (c : Character) : Prop where
  name : ∀ d ∈ c.name, d.isAlphanum = true ∨ d = ' '
  listed : ∀ v ∈ c.listed, Text.Alphanumeric v
  entries : ∀ kind, ∀ row ∈ c.table kind, ∀ p ∈ row.2,
    Text.Alphanumeric p.1 ∧ Text.Alphanumeric p.2

instance (c : Character) : Decidable c.IsPlain :=
  let Entries (kind : Asset.Kind) : Prop := ∀ row ∈ c.table kind, ∀ p ∈ row.2,
    Text.Alphanumeric p.1 ∧ Text.Alphanumeric p.2
  haveI : Decidable (∀ d ∈ c.name, d.isAlphanum = true ∨ d = ' ') := List.decidableBAll _ c.name
  decidable_of_iff ((∀ d ∈ c.name, d.isAlphanum = true ∨ d = ' ') ∧
      (∀ v ∈ c.listed, Text.Alphanumeric v) ∧ Entries .hash ∧ Entries .index)
    ⟨fun ⟨hn, hl, hh, hi⟩ => ⟨hn, hl, fun | .hash => hh | .index => hi⟩,
      fun h => ⟨h.name, h.listed, h.entries .hash, h.entries .index⟩⟩

/-- A replacement of an id stands in the table of its kind, beside its variant. -/
theorem Character.exists_of_replace {c : Character} {kind : Asset.Kind} {id variant new : Text}
    (h : c.replace kind id variant = .ok new) : ∃ row ∈ c.table kind, (variant, new) ∈ row.2 := by
  unfold Character.replace Asset.Replacements.replace at h
  split at h
  · simp at h
  next row hrow =>
  split at h
  · simp at h
  next x hx =>
  obtain rfl := Except.ok.inj h
  exact ⟨_, Table.mem_of_get?_eq_some hrow, Table.mem_of_get?_eq_some hx⟩

/-- A new id is the old one, or stands in a table of the character. -/
theorem Remap.Sources.exists_of_newId {s : Sources} {kind : Asset.Kind} {id variant new : Text}
    (h : s.newId kind id variant = .ok new) : new = id ∨
      ∃ c, s.character = some c ∧ ∃ row ∈ c.table kind, ∃ p ∈ row.2, p.2 = new := by
  unfold newId at h
  split at h
  · simp at h
  next c hc =>
  split at h
  · next new' hnew =>
    obtain rfl := Except.ok.inj h
    obtain ⟨row, hrow, hp⟩ := Character.exists_of_replace hnew
    exact .inr ⟨c, hc, row, hrow, _, hp, rfl⟩
  · exact .inl (Except.ok.inj h).symm

namespace Ini

/-! ## Keys -/

namespace Key

theorem head?_text (k : Key) : k.text.head? ≠ some '[' := by
  cases k <;> decide

theorem foreign_text (k : Key) : Remap.Foreign k.text := by
  cases k <;> decide

theorem eq_run_of_eqCaseless {k : Key} (h : Text.eqCaseless k.text run.text = true) : k = run := by
  revert h
  cases k <;> decide

theorem eqCaseless_of_ofText? {t : Text} {k : Key} (h : ofText? t = some k) :
    Text.eqCaseless k.text (Text.trim t) = true := by
  simpa using List.find?_some h

/-- The key of calls is the first that is looked for. -/
theorem ofText?_eq_run {t : Text} (h : Text.eqCaseless (Text.trim t) run.text = true) :
    ofText? t = some run := by
  rw [Pairs.eqCaseless_comm] at h
  simp [ofText?, all, h]

end Key

end Ini

namespace Remap

open Fence (RuleFree shortestRule)
open Ini (Body Document Key Pairs Line.IsKey Line.assigning Line.isHeader Line.sectionName
  Line.assignment?)

/-! ## What a text gives -/

section Given

variable {t : Text} (hrule : RuleFree t)

include hrule

theorem quiet_of_line {line x : Text} (hl : line ∈ Text.lines t) (hx : x <:+: line)
    (hn : '\n' ∉ x) : Quiet x :=
  ⟨hn, fun hr => hrule line hl (hr.trans hx)⟩

theorem quiet_sectionName {header : Text} (hl : header ∈ Text.lines t)
    (hh : Line.isHeader header = true) : Quiet (Line.sectionName header) :=
  have ⟨hi, hn⟩ := Ini.Line.sectionName_of_mem_lines hl hh
  quiet_of_line hrule hl hi hn

end Given

/-! ## Inert lines -/

/-- A line, without the break that ends it, that closes no fence and declares and runs only sections
with the property. -/
structure Inert (S : Text → Prop) (l : Text) : Prop where
  quiet : Quiet l
  header : Line.isHeader l = true → S (Line.sectionName l)
  call : ∀ w, Text.Blank w → ∀ k v, Line.assignment? (l ++ w) = some (k, v) →
    Text.eqCaseless k Key.run.text = true → S v

theorem not_mem_rule_of_no_dash {l : Text} (h : '-' ∉ l) : ¬ shortestRule <:+: l :=
  fun hi => h (hi.subset (by decide))

theorem assignment?_eq_none {l w : Text} (hw : Text.Blank w) (h : '=' ∉ l) :
    Line.assignment? (l ++ w) = none := by
  rw [Option.eq_none_iff_forall_ne_some]
  rintro ⟨k, v⟩ ha
  obtain ⟨a, b, he, -⟩ := Ini.Line.exists_of_assignment? ha
  have : '=' ∈ l ++ w := by simp [he]
  rw [List.mem_append] at this
  exact this.elim h (hw.not_mem (by decide))

/-- The characters that a line needs to close a fence or to run a section, and the one that ends
it. -/
def tellingChars : List Char := ['\n', '-', '=']

theorem mem_tellingChars {c : Char} : c ∈ tellingChars ↔ c = '\n' ∨ c = '-' ∨ c = '=' := by
  simp [tellingChars]

theorem not_isAlphanum_of_telling {c : Char} (h : c ∈ tellingChars) :
    c.isAlphanum = false ∧ c ≠ ' ' := by
  rcases mem_tellingChars.1 h with rfl | rfl | rfl <;> decide

/-- Lines without such characters that do not begin with a bracket are inert. -/
theorem inert_of_not_mem {S : Text → Prop} {l : Text} (hl : ∀ c ∈ tellingChars, c ∉ l)
    (hh : (Text.trimStart l).head? ≠ some '[') : Inert S l where
  quiet := ⟨hl '\n' (by simp [mem_tellingChars]),
    not_mem_rule_of_no_dash (hl '-' (by simp [mem_tellingChars]))⟩
  header h := by simp [Ini.Line.isHeader_eq_false hh] at h
  call w hw k v ha := by
    simp [assignment?_eq_none hw (hl '=' (by simp [mem_tellingChars]))] at ha

/-- A comment of blanks, stars, letters and digits. -/
theorem inert_banner {S : Text → Prop} {variant : Text} (h : ∀ c ∈ variant, c.isAlphanum = true) :
    Inert S (commentLine (variantBanner variant).opening) := by
  refine inert_of_not_mem (fun c hc => ?_) ?_
  · have hvariant : c ∉ variant := by
      intro hm
      simpa [h c hm] using (not_isAlphanum_of_telling hc).1
    have hframe : c ≠ ';' ∧ c ≠ ' ' ∧ c ≠ '*' := by
      rcases mem_tellingChars.1 hc with rfl | rfl | rfl <;> decide
    simp [commentLine, Banner.opening, Banner.side, variantBanner, Text.rule, hframe, hvariant]
  · rw [commentLine, Text.trimStart_eq_self (by simp; decide)]
    simp

/-- The credit has the characters of the title and some fixed ones. -/
theorem inert_credit {S : Text → Prop} {title : Text}
    (h : ∀ c ∈ title, c.isAlphanum = true ∨ c = ' ') : Inert S (credit title) := by
  refine inert_of_not_mem (fun c hc => ?_) ?_
  · obtain ⟨halnum, hspace⟩ := not_isAlphanum_of_telling hc
    have htitle : c ∉ title := by
      intro hm
      rcases h c hm with h | h
      · simp [h] at halnum
      · exact hspace h
    have hfixed : c ∉ ("; remapped by iniremap. When sharing " ++
        "remapped mods, credit the original mod author").toList := by
      rcases mem_tellingChars.1 hc with rfl | rfl | rfl <;> decide
    by_cases ht : title = []
    · subst ht
      simpa [credit, creditLine] using hfixed
    · simp only [credit, creditLine, ht, if_false]
      simp [htitle] at hfixed ⊢
      simp [hfixed]
  · rw [credit, creditLine]
    simp [Text.trimStart, isBlank]

/-- A key of calls begins with its first letter. -/
theorem foldChar_of_eqCaseless {c : Char} {x : Text}
    (h : Text.eqCaseless (c :: x) Key.run.text = true) : Text.foldChar c = 'r' := by
  rw [Text.eqCaseless_iff] at h
  exact (List.cons.inj h).1

section Assigning

variable {indent k v : Text} (hi : IsIndent indent) (hk : Quiet k) (hv : Quiet v)

include hi hk hv

/-- An indented assignment with a quiet key and value is quiet. -/
theorem quiet_assigning : Quiet (Line.assigning indent (k, v)) := by
  have hindent : ∀ c ∈ indent, c ≠ '\n' ∧ c ≠ ';' := by
    intro c hc
    rcases hi c hc with rfl | rfl <;> decide
  have hhead : ∀ c ∈ shortestRule.head?, c ∉ indent ∧ c ∉ [' '] := by
    rintro c ⟨⟩
    exact ⟨fun hc => (hindent _ hc).2 rfl, by decide⟩
  have hlast : ∀ c ∈ shortestRule.getLast?, c ∉ [' '] := by
    rw [show shortestRule.getLast? = some '-' from by decide]
    rintro c ⟨⟩
    decide
  constructor
  · simp only [Ini.Line.assigning, List.mem_append, not_or]
    exact ⟨⟨⟨fun hn => (hindent _ hn).1 rfl, hk.newline⟩, by decide⟩, hv.newline⟩
  · intro h
    have hsplit : Line.assigning indent (k, v) =
        indent ++ ((k ++ [' ']) ++ '=' :: ([' '] ++ v)) := by simp [Ini.Line.assigning]
    rw [hsplit, Text.infix_append_right_iff fun c hc => (hhead c hc).1,
      Text.infix_append_cons (by decide), Text.infix_append_left_iff hlast,
      Text.infix_append_right_iff fun c hc => (hhead c hc).2] at h
    exact h.elim hk.rule hv.rule

/-- **An indented assignment** that is no header is inert if what it runs has the property. -/
theorem inert_assigning {S : Text → Prop} (hkey : Line.IsKey k)
    (hheader : Line.isHeader (Line.assigning indent (k, v)) = false)
    (hcall : Text.eqCaseless k Key.run.text = true → S (Text.trim v)) :
    Inert S (Line.assigning indent (k, v)) where
  quiet := quiet_assigning hi hk hv
  header h := by simp [hheader] at h
  call w hw k' v' ha hrun := by
    rw [Ini.Line.assignment?_append_blank hw, Ini.Line.assignment?_assigning hkey hi.blank] at ha
    obtain ⟨rfl, rfl⟩ : k = k' ∧ Text.trim v = v' := by simpa using ha
    exact hcall hrun

end Assigning

/-! ## Sources that fit a text -/

namespace Sources

/-- Graphs of sections that the text declares, with the names of their styles; plain characters; and
quiet buffer files. -/
structure FitsText (s : Sources) (t : Text) : Prop where
  built : ∀ part, (s.graph part).Built (Document.plain t).bodies
  named : ∀ part, (s.graph part).NamesByStyle
  plain : ∀ c, s.character = some c → c.IsPlain
  buffers : ∀ name b index variant path, s.buffers.get? name = some b →
    b.fixedPath? index variant = some path → Quiet path

/-- The names of the sections generated for some variants. -/
def Declares (s : Sources) (variants : List Text) (name : Text) : Prop :=
  ∃ part, ∃ variant ∈ variants, ∃ e ∈ (s.graph part).reached,
    name = Text.trim ((s.graph part).nameFor e.1 variant)

variable {s : Sources} {t : Text} {variants : List Text} {part : Part}

/-- **Every name of a generated section** carries a mark of generated names. -/
theorem isGenerated_of_declares (hs : s.FitsText t) {name : Text} (h : s.Declares variants name) :
    Naming.isGenerated name = true := by
  obtain ⟨part, variant, -, e, -, rfl⟩ := h
  rw [Naming.isGenerated_trim, hs.named part, Naming.isGenerated_rename]

/-- The values that can take the place of a value. -/
inductive NewValue (s : Sources) (place : Place) (value : Text) : Text → Prop
  | kept : NewValue s place value value
  | named (part : Part) : NewValue s place value ((s.graph part).nameFor value place.variant)
  | id {kind : Asset.Kind} {new : Text} : s.newId kind value place.variant = .ok new →
    NewValue s place value new
  | file : NewValue s place value (s.newFile place value)
  | constant {new : Text} : Foreign new → NewValue s place value new

theorem newValue_newResource (place : Place) (value : Text) :
    s.NewValue place value (s.newResource value place.variant) := by
  unfold newResource
  split
  · exact .named .resources
  · exact .kept

/-- **A rule for a key**: it is written as the key that it means, with a value in place of the old
one. What is called is renamed. -/
structure Replaces (s : Sources) (part : Part) (place : Place) (k v : Text) (key : Key)
    (new : Text) : Prop where
  means : Key.ofText? k = some key
  value : s.NewValue place v new
  run : key = .run → new = (s.graph part).nameFor v place.variant

section Rules

variable {place : Place} {k v : Text} {q : Text × Text}

theorem Replaces.of_run (hk : Key.ofText? k = some .run) :
    s.Replaces part place k v .run ((s.graph part).nameFor v place.variant) :=
  ⟨hk, .named part, fun _ => rfl⟩

theorem Replaces.of_ne_run {key : Key} {new : Text} (hk : Key.ofText? k = some key)
    (hne : key ≠ .run) (hnew : s.NewValue place v new) : s.Replaces part place k v key new :=
  ⟨hk, hnew, fun he => absurd he hne⟩

/-- What is written is what the rule says. -/
theorem Replaces.exists_of_eq_ok {key : Key} {new : Text} (hr : s.Replaces part place k v key new)
    (h : (.ok (some (key.text, new)) : Except Fault _) = .ok (some q)) :
    ∃ key new, q = (key.text, new) ∧ s.Replaces part place k v key new :=
  ⟨key, new, (Option.some.inj (Except.ok.inj h)).symm, hr⟩

/-- An id is written if there is one for the variant. -/
theorem exists_replaces_of_newId {kind : Asset.Kind} {key : Key} (hk : Key.ofText? k = some key)
    (hne : key ≠ .run)
    (h : (s.newId kind v place.variant).map (fun x => some (key.text, x)) = .ok (some q)) :
    ∃ key new, q = (key.text, new) ∧ s.Replaces part place k v key new := by
  cases hn : s.newId kind v place.variant with
  | error fault => simp [hn, Except.map] at h
  | ok new =>
    rw [hn] at h
    exact (Replaces.of_ne_run hk hne (.id hn)).exists_of_eq_ok h

theorem blendAssignment_spec (h : s.blendAssignment place k v = .ok (some q)) :
    ∃ key new, q = (key.text, new) ∧ s.Replaces .blend place k v key new := by
  unfold blendAssignment at h
  split at h
  · next hk => exact (Replaces.of_run hk).exists_of_eq_ok h
  · next hk => exact exists_replaces_of_newId hk (by simp) h
  · next hk =>
    exact (Replaces.of_ne_run hk (by simp) (newValue_newResource place v)).exists_of_eq_ok h
  · next hk =>
    exact (Replaces.of_ne_run hk (by simp) (.constant (by decide))).exists_of_eq_ok h
  · next hk => exact (Replaces.of_ne_run hk (by simp) .kept).exists_of_eq_ok h
  · next hk => exact exists_replaces_of_newId hk (by simp) h
  · simp at h

/-- Other sections keep assignments to keys without a rule, which are no calls. -/
theorem otherAssignment_spec (h : s.otherAssignment place k v = .ok (some q)) :
    (∃ key new, q = (key.text, new) ∧ s.Replaces .others place k v key new) ∨
      q = (k, v) ∧ Key.ofText? k ≠ some .run := by
  unfold otherAssignment at h
  split at h
  · next hk => exact .inl ((Replaces.of_run hk).exists_of_eq_ok h)
  · next hk => exact .inl (exists_replaces_of_newId hk (by simp) h)
  · next hk => exact .inl (exists_replaces_of_newId hk (by simp) h)
  · next hk _ _ => exact .inr ⟨(Option.some.inj (Except.ok.inj h)).symm, hk⟩

theorem resourceAssignment_spec (h : s.resourceAssignment place k v = .ok (some q)) :
    ∃ key new, q = (key.text, new) ∧ s.Replaces .resources place k v key new := by
  unfold resourceAssignment at h
  split at h
  · next hk => exact (Replaces.of_run hk).exists_of_eq_ok h
  · next hk =>
    exact (Replaces.of_ne_run hk (by simp) (.constant (by decide))).exists_of_eq_ok h
  · next hk =>
    exact (Replaces.of_ne_run hk (by simp) (.constant (by decide))).exists_of_eq_ok h
  · next hk => exact (Replaces.of_ne_run hk (by simp) .file).exists_of_eq_ok h
  · simp at h

/-- **What is made of an assignment**: the key by its rule, or the assignment as it was, which is no
call then. -/
theorem assignment_spec (h : s.assignment part place k v = .ok (some q)) :
    (∃ key new, q = (key.text, new) ∧ s.Replaces part place k v key new) ∨
      q = (k, v) ∧ Key.ofText? k ≠ some .run := by
  cases part with
  | blend => exact .inl (blendAssignment_spec h)
  | others => exact otherAssignment_spec h
  | resources => exact .inl (resourceAssignment_spec h)

end Rules

/-! ## The lines of a block are inert -/

section Fitting

variable (hs : s.FitsText t) (hrule : RuleFree t)
  (hv : ∀ variant ∈ variants, Text.Alphanumeric variant)

include hs

/-- The new value is quiet if the old one is. -/
theorem quiet_newValue {place : Place} {v v' : Text} (hvar : Foreign place.variant)
    (hq : Quiet v) (h : s.NewValue place v v') : Quiet v' := by
  cases h with
  | kept => exact hq
  | named part => exact hs.named part _ _ ▸ hq.rename hvar _
  | id h =>
    rcases exists_of_newId h with rfl | ⟨c, hc, row, hrow, p, hp, rfl⟩
    · exact hq
    · exact quiet_of_foreign (foreign_of_alphanum ((hs.plain c hc).entries _ row hrow p hp).2.2)
  | file =>
    unfold newFile
    cases hb : (s.buffers.get? place.source).bind (·.fixedPath? place.index place.variant) with
    | none => exact hq.bufferFile hvar
    | some path =>
      obtain ⟨b, hget, hpath⟩ := Option.bind_eq_some_iff.1 hb
      exact hs.buffers _ _ _ _ _ hget hpath
  | constant h => exact quiet_of_foreign h

/-- The section that a generated one stands in for, as it stands in the text. -/
theorem exists_chunk_of_reached {e : Text × Body} (he : e ∈ (s.graph part).reached) :
    ∃ c ∈ Ini.chunks 0 (Text.lines t), Line.sectionName c.header = e.1 ∧
      e.2 = Body.ofLines c.lines :=
  Document.exists_chunk_of_get?_bodies ((hs.built part).declared e he)

include hrule

theorem quiet_nameFor {e : Text × Body} (he : e ∈ (s.graph part).reached) {variant : Text}
    (hvar : Foreign variant) : Quiet ((s.graph part).nameFor e.1 variant) := by
  obtain ⟨c, hc, hname, -⟩ := exists_chunk_of_reached hs he
  obtain ⟨xs, ys, hl, hh, -⟩ := Ini.mem_chunks hc
  rw [hs.named part, ← hname]
  exact (quiet_sectionName hrule (by simp [hl]) hh).rename hvar _

/-- A control line is inert as it stands in the text. -/
theorem inert_control {S : Text → Prop} {e : Text × Body} (he : e ∈ (s.graph part).reached)
    {line : Text} (hm : .control line ∈ e.2) : Inert S line := by
  obtain ⟨c, hc, -, hb⟩ := exists_chunk_of_reached hs he
  obtain ⟨src, hsrc, hk⟩ := Body.comesFrom_of_mem_ofLines (hb ▸ hm)
  obtain ⟨rfl, hcontrol⟩ := Ini.Line.eq_withoutBreak_of_control hk
  obtain ⟨hmem, hnh⟩ := (Ini.mem_lines_of_mem_chunks hc).2 src hsrc
  refine ⟨quiet_of_line hrule hmem (Ini.Line.withoutBreak_infix_self src)
    (Ini.Line.newline_not_mem_withoutBreak hmem), fun h => ?_, fun w hw k v ha => ?_⟩
  · simp [Ini.Line.isHeader_withoutBreak, hnh] at h
  · have : Ini.Line.isControl (Ini.Line.withoutBreak src ++ w) = true := by
      rw [Ini.Line.isControl_append_blank hw, hcontrol]
    simp [Ini.Line.assignment?_eq_none_of_isControl this] at ha

include hv

theorem inert_header {e : Text × Body} (he : e ∈ (s.graph part).reached) {variant : Text}
    (hm : variant ∈ variants) : Inert (s.Declares variants) (s.headerLine part e.1 variant) := by
  have hq := quiet_nameFor hs hrule he (foreign_of_alphanum (hv variant hm).2)
  have hopen : Foreign ['['] := by decide
  have hclose : Foreign [']'] := by decide
  have hquiet : Quiet (s.headerLine part e.1 variant) := by
    have := quiet_nil.append_foreign (hq.append_foreign quiet_nil hclose (by simp)) hopen (by simp)
    simpa [headerLine] using this
  refine ⟨hquiet, fun _ => ?_, fun w hw k v ha hk => ?_⟩
  · exact ⟨part, variant, hm, e, he, Ini.Line.sectionName_bracketed _⟩
  · obtain ⟨a, b, hl, -, rfl, -, hne⟩ := Ini.Line.exists_of_assignment? ha
    cases a with
    | nil => exact absurd rfl hne
    | cons c a =>
      obtain ⟨rfl, -⟩ := List.cons.inj (show '[' :: _ = c :: (a ++ '=' :: b) from hl)
      have htrim : Text.trim ('[' :: a) = '[' :: Text.trimEnd a :=
        Text.trim_append_cons (a := []) (by decide)
      rw [htrim] at hk
      exact absurd (foldChar_of_eqCaseless hk) (by decide)

/-- **An assignment** is inert: if it is a call, what it runs is declared in the block. -/
theorem inert_assigned {e : Text × Body} (he : e ∈ (s.graph part).reached) {place : Place}
    {ps : Pairs} (hps : .content ps ∈ e.2) {k v : Text} (hkv : (k, v) ∈ ps)
    (hvar : place.variant ∈ variants) (hi : IsIndent place.indent) {q : Text × Text}
    (ha : s.assignment part place k v = .ok (some q)) :
    Inert (s.Declares variants) (Line.assigning place.indent q) := by
  obtain ⟨c, hc, -, hb⟩ := exists_chunk_of_reached hs he
  obtain ⟨hdistinct, hfrom⟩ := Body.comesFrom_of_mem_ofLines (hb ▸ hps)
  obtain ⟨line, hline, hassign⟩ := hfrom k v hkv
  obtain ⟨hmem, hnh⟩ := (Ini.mem_lines_of_mem_chunks hc).2 line hline
  have hnb := Ini.Line.newline_not_mem_withoutBreak hmem
  obtain ⟨hki, hvi⟩ := Ini.Line.infix_of_assignment? hassign
  have hquiet {x : Text} (hx : x <:+: Ini.Line.withoutBreak line) : Quiet x :=
    quiet_of_line hrule hmem (hx.trans (Ini.Line.withoutBreak_infix_self line)) fun hn =>
      hnb (hx.subset hn)
  have hk : Line.IsKey k := Ini.Line.isKey_of_assignment? hassign
  rcases assignment_spec ha with ⟨key, new, rfl, hreplaces⟩ | ⟨rfl, hkey⟩
  · have hq : Quiet new :=
      quiet_newValue hs (foreign_of_alphanum (hv _ hvar).2) (hquiet hvi) hreplaces.value
    have hiskey := Ini.Line.isKey_text key
    refine inert_assigning hi (quiet_of_foreign (Key.foreign_text key)) hq hiskey
      (Ini.Line.isHeader_assigning hiskey hi.blank new (Key.head?_text key)) fun hrun => ?_
    obtain rfl := Key.eq_run_of_eqCaseless hrun
    obtain rfl := hreplaces.run rfl
    have hcall := Key.eqCaseless_of_ofText? hreplaces.means
    rw [hk.trim_eq, Pairs.eqCaseless_comm] at hcall
    have hreach := (hs.built part).closed e he v (Body.mem_callees_of_mem hps hdistinct hkv hcall)
    obtain ⟨b', hb'⟩ := Table.has_iff.1 hreach
    exact ⟨part, place.variant, hvar, _, hb', rfl⟩
  · have hquiet' := quiet_assigning hi (hquiet hki) (hquiet hvi)
    refine inert_assigning hi (hquiet hki) (hquiet hvi) hk ?_ fun hrun => ?_
    · rw [Bool.eq_false_iff]
      intro h
      have := Ini.Line.isHeader_of_isHeader_assigning hassign hi.blank hnb hquiet'.newline h
      simp [hnh] at this
    · rw [← hk.trim_eq] at hrun
      exact absurd (Key.ofText?_eq_run hrun) hkey

/-- **The lines of a block** are inert. -/
theorem inert_of_blockLine {l : Text} (h : s.BlockLine variants l) :
    Inert (s.Declares variants) l := by
  cases h with
  | empty => exact inert_of_not_mem (by simp) (by simp)
  | banner hm => exact inert_banner (hv _ hm).2
  | header hm he => exact inert_header hs hrule hv he hm
  | control he hm => exact inert_control hs hrule he hm
  | assigned he hps hkv hvar hi ha => exact inert_assigned hs hrule hv he hps hkv hvar hi ha

end Fitting

/-- Every name of a generated section has a header in the block. -/
theorem exists_header_of_declares {name : Text} (h : s.Declares variants name) :
    ∃ variant ∈ variants, ∃ l ∈ s.allHeaders variant, ∃ n, l = '[' :: (n ++ [']']) ∧
      Line.sectionName l = name := by
  obtain ⟨part, variant, hm, e, he, rfl⟩ := h
  refine ⟨variant, hm, s.headerLine part e.1 variant, ?_, _, rfl,
    Ini.Line.sectionName_bracketed _⟩
  have : s.headerLine part e.1 variant ∈ s.headers part variant :=
    List.mem_flatMap.2 ⟨e, he, List.mem_singleton_self _⟩
  unfold allHeaders
  cases part <;> simp [this]

end Sources

end Remap

end Reskin
