import Mathlib.Data.List.Forall2
import Reskin.Proofs.Remap.Frame
import Reskin.Proofs.Text.Lines

/-!
# The lines of a block

Between its heading and its rule a block consists of whole lines: the credit, and for every variant
a banner and the generated sections. A generated section is a header, the control lines of the
section it stands in for, and the assignments that take the place of those of that section.

What holds of generated sections, of banners and of empty lines, and carries over to texts put one
after the other, holds of all that stands between the credit and the rule. This is shown once, for
any such property.

## Main definitions

* `Remap.Additive`: properties that carry over to texts put one after the other
* `Remap.Consists`: texts of whole lines of one sort, some given lines among them
* `Remap.Sources.BlockLine`: the lines between the credit and the rule
* `Remap.Sources.headerLine`: the header of a generated section

## Main results

* `Remap.Sources.exists_of_variantParts`: what carries over from generated sections to a block
* `Remap.Sources.consists_sectionText`: a generated section
* `Remap.Sources.exists_lines`: all that stands between the credit and the rule
-/

namespace Reskin.Remap

open Ini (Body Entry Pairs)

/-- A sequence succeeds if both of its steps do. -/
theorem bind_eq_ok {α β ε : Type} {x : Except ε α} {f : α → Except ε β} {b : β} :
    x >>= f = .ok b ↔ ∃ a, x = .ok a ∧ f a = .ok b := by
  cases x <;> simp [bind, Except.bind]

theorem collect_cons_eq_ok {α β ε : Type} {f : α → Except ε β} {a : α} {as : List α}
    {bs : List β} : collect f (a :: as) = .ok bs ↔
      ∃ c cs, f a = .ok c ∧ collect f as = .ok cs ∧ bs = c :: cs := by
  simp only [collect, bind_eq_ok, pure, Except.pure, Except.ok.injEq]
  constructor
  · rintro ⟨c, hc, cs, hcs, rfl⟩
    exact ⟨c, cs, hc, hcs, rfl⟩
  · rintro ⟨c, cs, hc, hcs, rfl⟩
    exact ⟨c, hc, cs, hcs, rfl⟩

/-- Everything is collected from a list if each of its members gives something. -/
theorem exists_collect {α β ε : Type} {f : α → Except ε β} {as : List α}
    (h : ∀ a ∈ as, ∃ b, f a = .ok b) : ∃ bs, collect f as = .ok bs := by
  induction as with
  | nil => exact ⟨[], rfl⟩
  | cons a as ih =>
    obtain ⟨b, hb⟩ := h a List.mem_cons_self
    obtain ⟨bs, hbs⟩ := ih fun x hx => h x (List.mem_cons_of_mem _ hx)
    exact ⟨b :: bs, collect_cons_eq_ok.2 ⟨b, bs, hb, hbs, rfl⟩⟩

/-- The text of some entries is that of the first one, and that of the others. -/
theorem textOf_cons_eq_ok {ε : Type} {write : Place → Pairs → Except ε Text} {x : Laid}
    {xs : List Laid} {t : Text} : textOf write (x :: xs) = .ok t ↔
      ∃ first rest, x.text write = .ok first ∧ textOf write xs = .ok rest ∧ t = first ++ rest := by
  simp only [textOf, bind_eq_ok, pure, Except.pure, Except.ok.injEq]
  constructor
  · rintro ⟨first, hfirst, rest, hrest, rfl⟩
    exact ⟨first, rest, hfirst, hrest, rfl⟩
  · rintro ⟨first, rest, hfirst, hrest, rfl⟩
    exact ⟨first, hfirst, rest, hrest, rfl⟩

/-- The results on a list stand beside its members. -/
theorem forall₂_of_collect {α β ε : Type} {f : α → Except ε β} {as : List α} {bs : List β}
    (h : collect f as = .ok bs) : List.Forall₂ (fun a b => f a = .ok b) as bs := by
  induction as generalizing bs with
  | nil =>
    obtain rfl : [] = bs := by simpa [collect] using h
    exact .nil
  | cons a as ih =>
    obtain ⟨c, cs, hc, hcs, rfl⟩ := collect_cons_eq_ok.1 h
    exact .cons hc (ih hcs)

/-- What things that stand beside each other have in common. -/
theorem map_eq_map_of_forall₂ {α β γ : Type} {R : α → β → Prop} {as : List α} {bs : List β}
    {f : α → γ} {g : β → γ} (h : List.Forall₂ R as bs) (hR : ∀ a b, R a b → g b = f a) :
    bs.map g = as.map f := by
  induction h with
  | nil => rfl
  | cons hab _ ih => rw [List.map_cons, List.map_cons, hR _ _ hab, ih]

/-- Whatever stands on the right has something beside it on the left. -/
theorem exists_of_mem_forall₂ {α β : Type} {R : α → β → Prop} {as : List α} {bs : List β}
    (h : List.Forall₂ R as bs) {b : β} (hb : b ∈ bs) : ∃ a ∈ as, R a b := by
  induction h with
  | nil => simp at hb
  | @cons a c as bs hab _ ih =>
    rcases List.mem_cons.1 hb with rfl | hb
    · exact ⟨a, List.mem_cons_self, hab⟩
    · obtain ⟨a', ha, hr⟩ := ih hb
      exact ⟨a', List.mem_cons_of_mem _ ha, hr⟩

/-! ## Properties that carry over -/

/-- A property of texts with a list of what they hold, that carries over to texts put one after the
other and holds of an empty line. -/
structure Additive {β : Type} (Q : List β → Text → Prop) : Prop where
  nil : Q [] []
  append : ∀ {as bs : List β} {a b : Text}, Q as a → Q bs b → Q (as ++ bs) (a ++ b)
  empty : Q [] ['\n']

namespace Additive

variable {α β ε : Type} {Q : List β → Text → Prop} (hQ : Additive Q) {f : α → Except ε Text}
  {given : α → List β}

include hQ

/-- Texts collected from a list, each followed by the same text. -/
theorem flatMap_collect {glue : Text} {as : List α} {ts : List Text} (h : collect f as = .ok ts)
    (hf : ∀ a ∈ as, ∀ t, f a = .ok t → Q (given a) (t ++ glue)) :
    Q (as.flatMap given) (ts.flatMap (· ++ glue)) := by
  induction as generalizing ts with
  | nil =>
    obtain rfl : [] = ts := by simpa [collect] using h
    exact hQ.nil
  | cons a as ih =>
    obtain ⟨t, us, ht, hus, rfl⟩ := collect_cons_eq_ok.1 h
    exact hQ.append (hf a List.mem_cons_self t ht)
      (ih hus fun b hb => hf b (List.mem_cons_of_mem _ hb))

/-- Texts collected from a list, with an empty line between neighbours. -/
theorem join_collect {as : List α} {ts : List Text} (h : collect f as = .ok ts)
    (hf : ∀ a ∈ as, ∀ t, f a = .ok t → Q (given a) t) :
    Q (as.flatMap given) (Text.join ['\n'] ts) := by
  induction as generalizing ts with
  | nil =>
    obtain rfl : [] = ts := by simpa [collect] using h
    exact hQ.nil
  | cons a as ih =>
    obtain ⟨t, us, ht, hus, rfl⟩ := collect_cons_eq_ok.1 h
    have hfirst := hf a List.mem_cons_self t ht
    have hrest := ih hus fun b hb => hf b (List.mem_cons_of_mem _ hb)
    cases us with
    | nil => simpa [Text.join] using hQ.append hfirst hrest
    | cons u us => simpa [Text.join] using hQ.append (hQ.append hfirst hQ.empty) hrest

theorem gap (shown : Bool) : Q [] (if shown then ['\n'] else []) := by
  split
  · exact hQ.empty
  · exact hQ.nil

end Additive

/-! ## Texts of whole lines -/

/-- The text consists of lines with the property, and has the given ones among them. -/
def Consists (P : Text → Prop) (given : List Text) (t : Text) : Prop :=
  ∃ ls, t = Text.unlines .lf ls ∧ (∀ l ∈ ls, P l) ∧ ∀ l ∈ given, l ∈ ls

namespace Consists

variable {P : Text → Prop}

theorem nil : Consists P [] [] := ⟨[], rfl, by simp, by simp⟩

theorem line {l : Text} (h : P l) : Consists P [l] (l ++ ['\n']) :=
  ⟨[l], by simp [Text.LineEnding.text], by simpa using h, by simp⟩

theorem weaken {as bs : List Text} {t : Text} (h : Consists P as t) (hb : ∀ l ∈ bs, l ∈ as) :
    Consists P bs t := by
  obtain ⟨ls, rfl, hl, hls⟩ := h
  exact ⟨ls, rfl, hl, fun l hm => hls l (hb l hm)⟩

/-- A line that is not among the given ones. -/
theorem other {l : Text} (h : P l) : Consists P [] (l ++ ['\n']) := (line h).weaken (by simp)

theorem append {as bs : List Text} {a b : Text} (ha : Consists P as a) (hb : Consists P bs b) :
    Consists P (as ++ bs) (a ++ b) := by
  obtain ⟨ls, rfl, hl, hls⟩ := ha
  obtain ⟨ms, rfl, hm, hms⟩ := hb
  refine ⟨ls ++ ms, by simp, fun l h => ?_, fun l h => ?_⟩
  · rcases List.mem_append.1 h with h | h
    · exact hl l h
    · exact hm l h
  · rcases List.mem_append.1 h with h | h
    · exact List.mem_append_left _ (hls l h)
    · exact List.mem_append_right _ (hms l h)

theorem additive (h : P []) : Additive (Consists P) where
  nil := nil
  append := append
  empty := other h

end Consists

/-! ## Sections -/

/-- Blanks and tabs only. -/
def IsIndent (t : Text) : Prop := ∀ c ∈ t, c = ' ' ∨ c = '\t'

theorem IsIndent.blank {t : Text} (h : IsIndent t) : Text.Blank t := by
  intro c hc
  rcases h c hc with rfl | rfl <;> decide

namespace Sources

/-- The header of the section generated for another one, without its line feed. -/
def headerLine (s : Sources) (part : Part) (name variant : Text) : Text :=
  '[' :: ((s.graph part).nameFor name variant ++ [']'])

/-- **The lines between credit and rule.** -/
inductive BlockLine (s : Sources) (variants : List Text) : Text → Prop
  | empty : BlockLine s variants []
  | banner {variant : Text} : variant ∈ variants →
    BlockLine s variants (commentLine (variantBanner variant).opening)
  | header {part : Part} {variant : Text} {e : Text × Body} : variant ∈ variants →
    e ∈ (s.graph part).reached → BlockLine s variants (s.headerLine part e.1 variant)
  /-- A control line of the section that another one stands in for. -/
  | control {part : Part} {e : Text × Body} {line : Text} : e ∈ (s.graph part).reached →
    .control line ∈ e.2 → BlockLine s variants line
  /-- An assignment that takes the place of one of that section. -/
  | assigned {part : Part} {e : Text × Body} {place : Place} {ps : Pairs}
    {k v k' v' : Text} : e ∈ (s.graph part).reached → .content ps ∈ e.2 → (k, v) ∈ ps →
    place.variant ∈ variants → IsIndent place.indent →
    s.assignment part place k v = .ok (some (k', v')) →
    BlockLine s variants (place.indent ++ k' ++ [' ', '=', ' '] ++ v')

variable {s : Sources} {variants : List Text} {part : Part} {variant : Text}

/-- The lines of a part are those of the assignments that take the place of its own. -/
theorem write_eq_ok {place : Place} {ps : Pairs} {t : Text} : s.write part place ps = .ok t ↔
    ∃ new, s.assignments part place ps = .ok new ∧
      t = new.flatMap fun q => assignmentLine place.indent q.1 q.2 := by
  rw [write, bind_eq_ok]
  simp only [pure, Except.pure, Except.ok.injEq, eq_comm]

theorem isIndent_indentAfter (control : Text) : IsIndent (indentAfter control) := by
  have hb : IsIndent (control.takeWhile fun c => c == ' ' || c == '\t') := by
    intro c hc
    simpa using List.mem_takeWhile_imp hc
  unfold indentAfter
  dsimp only
  split
  · exact hb
  · intro c hc
    rcases List.mem_append.1 hc with hc | hc
    · exact hb c hc
    · exact .inr (List.mem_singleton.1 hc)

section Section

variable {e : Text × Body} (he : e ∈ (s.graph part).reached) (hv : variant ∈ variants)

include he

/-- The assignments of a part. -/
theorem consists_assignments {place : Place} {ps all new : Pairs} (hp : .content all ∈ e.2)
    (hsub : ∀ p ∈ ps, p ∈ all) (hvar : place.variant ∈ variants)
    (hi : IsIndent place.indent) (h : s.assignments part place ps = .ok new) :
    Consists (s.BlockLine variants) []
      (new.flatMap fun (key, value) => assignmentLine place.indent key value) := by
  induction ps generalizing new with
  | nil =>
    obtain rfl : [] = new := by simpa [assignments] using h
    exact .nil
  | cons p ps ih =>
    obtain ⟨k, v⟩ := p
    obtain ⟨first, hfirst, h⟩ := bind_eq_ok.1 h
    obtain ⟨rest, hrest, h⟩ := bind_eq_ok.1 h
    obtain rfl := Except.ok.inj h
    have hr := ih (fun q hq => hsub q (List.mem_cons_of_mem _ hq)) hrest
    cases first with
    | none => exact hr
    | some q =>
      obtain ⟨k', v'⟩ := q
      exact (Consists.other (.assigned he hp (hsub _ List.mem_cons_self) hvar hi hfirst)).append hr

include hv

/-- The entries that follow a place. -/
theorem consists_textOf {place : Place} {b : Body} {t : Text} (hb : ∀ x ∈ b, x ∈ e.2)
    (hvar : place.variant = variant) (hi : IsIndent place.indent)
    (h : textOf (s.write part) (layoutFrom place b) = .ok t) :
    Consists (s.BlockLine variants) [] t := by
  -- Induction on the entries; a control line sets the indent of the place for what follows it.
  induction b generalizing place t with
  | nil =>
    obtain rfl : [] = t := by simpa [layoutFrom, textOf] using h
    exact .nil
  | cons x b ih =>
    have hb' : ∀ y ∈ b, y ∈ e.2 := fun y hy => hb y (List.mem_cons_of_mem _ hy)
    have hx := hb x List.mem_cons_self
    cases x with
    | control line =>
      obtain ⟨first, rest, hfirst, hrest, rfl⟩ := textOf_cons_eq_ok.1 h
      obtain rfl := Except.ok.inj hfirst
      refine (Consists.other (.control he hx)).append (ih hb' ?_ ?_ hrest)
      · exact hvar
      · exact isIndent_indentAfter line
    | content ps =>
      obtain ⟨first, rest, hfirst, hrest, rfl⟩ := textOf_cons_eq_ok.1 h
      obtain ⟨new, hnew, rfl⟩ := write_eq_ok.1 hfirst
      refine (consists_assignments he hx (fun _ hp => hp) (hvar ▸ hv) hi hnew).append
        (ih hb' ?_ ?_ hrest)
      · exact hvar
      · exact hi

/-- **A generated section** is its header and lines that stand in for those of another one. -/
theorem consists_sectionText {t : Text} (h : s.sectionText part variant e = .ok t) :
    Consists (s.BlockLine variants) [s.headerLine part e.1 variant] t := by
  obtain ⟨text, htext, h⟩ := bind_eq_ok.1 h
  obtain rfl := Except.ok.inj h
  have hheader : headerOf ((s.graph part).nameFor e.1 variant) =
      s.headerLine part e.1 variant ++ ['\n'] := by
    simp [headerOf, headerLine]
  rw [hheader]
  exact ((Consists.line (.header hv he)).append
    (consists_textOf he hv (fun _ hx => hx) rfl (by simp [IsIndent]) htext)).weaken (by simp)

end Section

/-! ## Variants -/

/-- What all sections that one graph generates give, in order. -/
def gathered {β : Type} (s : Sources) (given : Part → Text → Text × Body → List β) (part : Part)
    (variant : Text) : List β :=
  (s.graph part).reached.flatMap (given part variant)

/-- What all sections generated for a variant give, in order. -/
def allGathered {β : Type} (s : Sources) (given : Part → Text → Text × Body → List β)
    (variant : Text) : List β :=
  s.gathered given .blend variant ++ s.gathered given .others variant ++
    s.gathered given .resources variant

theorem variantText_eq : s.variantText variant =
    s.sectionsText .blend variant >>= fun blend =>
    (if !s.others.isEmpty then s.sectionsText .others variant else .ok []) >>= fun others =>
    (if !s.resources.isEmpty then s.sections .resources variant else .ok []) >>= fun resources =>
    .ok ((if !s.blend.isEmpty || !s.others.isEmpty || !s.resources.isEmpty then ['\n'] else []) ++
      blend ++ (if !s.others.isEmpty then ['\n'] else []) ++ others ++
      (if !s.resources.isEmpty then ['\n'] else []) ++ Text.join ['\n'] resources) := by
  unfold variantText
  cases s.others.isEmpty <;> cases s.resources.isEmpty <;> rfl

theorem reached_eq_nil {g : CallGraph} (h : ¬ (!g.isEmpty) = true) : g.reached = [] :=
  List.isEmpty_iff.1 (show g.reached.isEmpty = true by simpa [CallGraph.isEmpty] using h)

/-- **The sections of every graph** can be generated if those for a variant can. -/
theorem exists_sections_of_variantText {t : Text} (h : s.variantText variant = .ok t)
    (part : Part) : ∃ ts, s.sections part variant = .ok ts := by
  rw [variantText_eq] at h
  obtain ⟨blend, hblend, h⟩ := bind_eq_ok.1 h
  obtain ⟨others, hothers, h⟩ := bind_eq_ok.1 h
  obtain ⟨resources, hresources, -⟩ := bind_eq_ok.1 h
  have written {part : Part} {u : Text} (h : s.sectionsText part variant = .ok u) :
      ∃ ts, s.sections part variant = .ok ts :=
    have ⟨ts, hts, _⟩ := bind_eq_ok.1 h
    ⟨ts, hts⟩
  have nothing {part : Part} (h : ¬ (!(s.graph part).isEmpty) = true) :
      ∃ ts, s.sections part variant = .ok ts :=
    ⟨[], by rw [sections, reached_eq_nil h]; rfl⟩
  cases part with
  | blend => exact written hblend
  | others =>
    split at hothers
    · exact written hothers
    · next h => exact nothing h
  | resources =>
    split at hresources
    · exact ⟨_, hresources⟩
    · next h => exact nothing h

/-- **The sections of every graph** can be generated for every variant of a block. -/
theorem exists_sections_of_block {title : Option Text} {block : Text}
    (h : s.block variants title = .ok block) (hv : variant ∈ variants) :
    ∃ texts : Part → List Text, ∀ part, s.sections part variant = .ok (texts part) := by
  obtain ⟨parts, hparts, -⟩ := bind_eq_ok.1 h
  obtain ⟨t, ht⟩ : ∃ t, s.variantText variant = .ok t := by
    obtain ⟨u, -, hu⟩ := exists_of_mem_forall₂ (forall₂_of_collect hparts).flip hv
    cases ht : s.variantText variant with
    | error fault => simp [ht, Except.map] at hu
    | ok t => exact ⟨t, rfl⟩
  choose texts htexts using fun part => exists_sections_of_variantText ht part
  exact ⟨texts, htexts⟩

section Composition

variable {β : Type} {Q : List β → Text → Prop} (hQ : Additive Q)
  {given : Part → Text → Text × Body → List β}
  (hsection : ∀ part, ∀ v ∈ variants, ∀ e ∈ (s.graph part).reached, ∀ t,
    s.sectionText part v e = .ok t → Q (given part v e) t)
  (hv : variant ∈ variants)

include hQ hsection hv

theorem of_sectionsText {t : Text} (h : s.sectionsText part variant = .ok t) :
    Q (s.gathered given part variant) t := by
  obtain ⟨ts, hts, h⟩ := bind_eq_ok.1 h
  obtain rfl := Except.ok.inj h
  refine hQ.flatMap_collect hts fun e he t ht => ?_
  simpa using hQ.append (hsection part variant hv e he t ht) hQ.empty

omit hsection hv in
/-- The sections of one graph, where it has any. -/
theorem of_shown {α : Type} (text : List α → Text) {write : Except Fault (List α)} {ts : List α}
    (hnil : text [] = []) (hw : ∀ us, write = .ok us → Q (s.gathered given part variant) (text us))
    (h : (if (!(s.graph part).isEmpty) = true then write else .ok []) = .ok ts) :
    Q (s.gathered given part variant) (text ts) := by
  split at h
  · exact hw ts h
  · next he =>
    obtain rfl := Except.ok.inj h
    rw [hnil, gathered, reached_eq_nil he]
    exact hQ.nil

/-- The sections for a variant, after the end of the line of its banner. -/
theorem exists_of_variantText (hne : s.blend.isEmpty = false) {t : Text}
    (h : s.variantText variant = .ok t) :
    ∃ u, t = '\n' :: u ∧ Q (s.allGathered given variant) u := by
  rw [variantText_eq] at h
  obtain ⟨blend, hblend, h⟩ := bind_eq_ok.1 h
  obtain ⟨others, hothers, h⟩ := bind_eq_ok.1 h
  obtain ⟨resources, hresources, h⟩ := bind_eq_ok.1 h
  obtain rfl := Except.ok.inj h
  have hb := of_sectionsText hQ hsection hv hblend
  have ho : Q (s.gathered given .others variant) others :=
    of_shown hQ id rfl (fun _ hu => of_sectionsText hQ hsection hv hu) hothers
  have hr : Q (s.gathered given .resources variant) (Text.join ['\n'] resources) :=
    of_shown hQ (Text.join ['\n']) rfl
      (fun _ hu => hQ.join_collect hu (hsection .resources variant hv)) hresources
  refine ⟨_, ?_, hQ.append (hQ.append hb (hQ.append (hQ.gap (!s.others.isEmpty)) ho))
    (hQ.append (hQ.gap (!s.resources.isEmpty)) hr)⟩
  simp [hne]

/-- The part of a block for a variant, after two line feeds. -/
theorem exists_of_variantPart
    (hbanner : ∀ v ∈ variants, Q [] (commentLine (variantBanner v).opening ++ ['\n']))
    (hne : s.blend.isEmpty = false) {t : Text}
    (h : (s.variantText variant).map (variantPart variant) = .ok t) :
    ∃ u, t = ['\n', '\n'] ++ u ∧ Q (s.allGathered given variant) u := by
  cases ht : s.variantText variant with
  | error fault => simp [ht, Except.map] at h
  | ok text =>
    rw [ht] at h
    obtain rfl := Except.ok.inj h
    obtain ⟨u, rfl, hu⟩ := exists_of_variantText hQ hsection hv hne ht
    refine ⟨commentLine (variantBanner variant).opening ++ ['\n'] ++ u, ?_, ?_⟩
    · simp [variantPart]
    · simpa using hQ.append (hbanner variant hv) hu

omit hv in
/-- **What carries over** from generated sections, banners and empty lines to all that stands
between credit and rule, after two line feeds. -/
theorem exists_of_variantParts
    (hbanner : ∀ v ∈ variants, Q [] (commentLine (variantBanner v).opening ++ ['\n']))
    (hne : s.blend.isEmpty = false) {parts : List Text} (h : s.variantParts variants = .ok parts) :
    ∃ u, parts.flatten ++ ['\n', '\n'] = ['\n', '\n'] ++ u ∧
      Q (variants.flatMap (s.allGathered given)) u := by
  have key : ∀ (vs : List Text) (ps : List Text), (∀ v ∈ vs, v ∈ variants) →
      collect (fun v => (s.variantText v).map (variantPart v)) vs = .ok ps →
      ∃ u, ps.flatten ++ ['\n', '\n'] = ['\n', '\n'] ++ u ∧
        Q (vs.flatMap (s.allGathered given)) u := by
    intro vs
    induction vs with
    | nil =>
      intro ps _ hc
      obtain rfl : [] = ps := by simpa [collect] using hc
      exact ⟨[], rfl, hQ.nil⟩
    | cons v vs ih =>
      intro ps hsub hc
      obtain ⟨t, us, ht, hus, rfl⟩ := collect_cons_eq_ok.1 hc
      obtain ⟨u, rfl, hu⟩ :=
        exists_of_variantPart hQ hsection (hsub v List.mem_cons_self) hbanner hne ht
      obtain ⟨w, hw, hcw⟩ := ih us (fun x hx => hsub x (List.mem_cons_of_mem _ hx)) hus
      have hgap : Q [] ['\n', '\n'] := hQ.append hQ.empty hQ.empty
      exact ⟨u ++ (['\n', '\n'] ++ w), by simp [hw], hQ.append hu (hQ.append hgap hcw)⟩
  exact key variants parts (fun _ hv => hv) h

end Composition

/-! ## The lines of a block -/

/-- The headers of the sections that one graph generates. -/
def headers (s : Sources) (part : Part) (variant : Text) : List Text :=
  (s.graph part).reached.flatMap fun e => [s.headerLine part e.1 variant]

/-- The headers of all sections generated for a variant. -/
def allHeaders (s : Sources) (variant : Text) : List Text :=
  s.headers .blend variant ++ s.headers .others variant ++ s.headers .resources variant

/-- **Between credit and rule** stand whole lines, after two line feeds. -/
theorem exists_lines (hne : s.blend.isEmpty = false) {parts : List Text}
    (h : s.variantParts variants = .ok parts) :
    ∃ ls, parts.flatten ++ ['\n', '\n'] = ['\n', '\n'] ++ Text.unlines .lf ls ∧
      (∀ l ∈ ls, s.BlockLine variants l) ∧
      ∀ variant ∈ variants, ∀ l ∈ s.allHeaders variant, l ∈ ls := by
  obtain ⟨u, hu, ls, rfl, hl, hg⟩ := exists_of_variantParts (Consists.additive .empty)
    (fun part v hv e he t ht => consists_sectionText he hv ht)
    (fun v hv => Consists.other (.banner hv)) hne h
  exact ⟨ls, hu, hl, fun v hv l hm => hg l (List.mem_flatMap.2 ⟨v, hv, hm⟩)⟩

end Sources

end Reskin.Remap
