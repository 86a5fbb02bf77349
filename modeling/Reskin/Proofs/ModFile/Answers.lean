import Reskin.Proofs.ModFile.Unfixed

/-!
# Answers

A file keeps a document, three graphs, buffer files and variants from one operation to the next. None
of these shows in an answer: two files with the same text, folder, characters, variants and managed
resources answer alike, whatever was done to them before and however it ended, since every operation
reads the document again where it is missing and builds each graph anew before it looks at it.

There is one exception. The text of a block is asked of the character that is known before the
document is read. Where reading would tell another one than is assumed, a file that is read and one
that is not may answer differently, and do if no character is assumed.

## Main definitions

* `ModFile.SameTask`: files with the same text and the same to be done
* `ModFile.Alike`, `ModFile.Agrees`: the relation between such files that every operation keeps,
  and operations that answer the same and keep it
* `ModFile.AssumesRight`, `ModFile.KnowAlike`: texts that tell no other character than is assumed,
  and files that know of the same one

## Main results

* `ModFile.agrees_buildFrom`: graphs built for the same task are the same
* `ModFile.fixText_noCharacter_iff`: when the text of a block fails for want of a character
* `ModFile.agrees_of_sameTask`: the answers of two files with the same task
-/

namespace Reskin

open Ini (Document)

namespace ModFile

variable {f g : ModFile} {d d' : Disk}

/-! ## The same task -/

/-- Two files with the same text, loaded, and the same to be done with it. -/
structure SameTask (f g : ModFile) : Prop where
  isLoaded : f.loaded.isSome = true
  loaded : g.loaded = f.loaded
  folder : g.folder = f.folder
  characters : g.characters = f.characters
  assumed : g.assumed = f.assumed
  requested : g.requested = f.requested
  managed : g.managed = f.managed

/-- Two files with the same task, whose documents are current. Their graphs may hold anything. -/
structure Alike (f g : ModFile) : Prop extends SameTask f g where
  current : f.IsCurrent ∧ g.IsCurrent
  styles : SameStyles f g

/-- Two answers are the same, and the files that are left are alike. -/
def Agrees {α : Type} (R : ModFile → ModFile → Prop) (a b : α × ModFile) : Prop :=
  b.1 = a.1 ∧ R a.2 b.2

namespace SameTask

theorem refl (hl : f.loaded.isSome = true) : SameTask f f := ⟨hl, rfl, rfl, rfl, rfl, rfl, rfl⟩

variable (h : SameTask f g)

include h

theorem symm : SameTask g f :=
  ⟨h.loaded ▸ h.isLoaded, h.loaded.symm, h.folder.symm, h.characters.symm, h.assumed.symm,
    h.requested.symm, h.managed.symm⟩

theorem trans {k : ModFile} (h' : SameTask g k) : SameTask f k :=
  ⟨h.isLoaded, h'.loaded.trans h.loaded, h'.folder.trans h.folder,
    h'.characters.trans h.characters, h'.assumed.trans h.assumed, h'.requested.trans h.requested,
    h'.managed.trans h.managed⟩

theorem text : g.text = f.text := by
  rw [ModFile.text, ModFile.text, h.loaded]

theorem document : g.document = f.document := by
  rw [ModFile.document, ModFile.document, h.text, h.characters, h.assumed]

/-- **Reachable files** with the same task are alike. -/
theorem alike (hf : Reachable f) (hg : Reachable g) : Alike f g :=
  { h with
    current := ⟨isCurrent_of_reachable hf, isCurrent_of_reachable hg⟩
    styles := fun part => (hasStyles_of_reachable hg part).trans (hasStyles_of_reachable hf part).symm }

end SameTask

/-! ## Operations that keep the task -/

section Keeping

variable (hl : f.loaded.isSome = true)

include hl

theorem sameTask_withDocument : SameTask f f.withDocument := by
  rw [ModFile.withDocument_eq]
  exact ⟨hl, rfl, rfl, rfl, rfl, rfl, rfl⟩

theorem sameTask_buildFrom (doc : Document) (root : Text) :
    SameTask f (f.buildFrom doc root).2 := by
  obtain ⟨_, _, _, _, _, h⟩ := f.exists_buildFrom_eq doc root
  rw [h]
  exact ⟨hl, rfl, rfl, rfl, rfl, rfl, rfl⟩

/-- **Preparing a file** keeps its task. -/
theorem sameTask_of_prepares (h : Prepares d f g) : SameTask f g := by
  have hread {k : ModFile} (hk : f.ensureParsed d = .ok k) : SameTask f k := by
    obtain rfl := Except.ok.inj (hk.symm.trans (ensureParsed_of_load (load_of_loaded hl d)))
    exact sameTask_withDocument hl
  cases h with
  | stay => exact .refl hl
  | read hk => exact hread hk
  | build doc root hk =>
    have hk := hread hk
    exact hk.trans (sameTask_buildFrom hk.symm.isLoaded doc root)

/-- The text of a block is told without a change to the task. -/
theorem sameTask_fixText (d : Disk) : SameTask f (f.fixText d).2 :=
  sameTask_of_prepares hl (prepares_fixText f d)

end Keeping

/-! ## Reading -/

/-- Reading a current file gives it the document of its text, whether it has been read or not. -/
theorem IsCurrent.withDocument_eq (hf : f.IsCurrent) :
    f.withDocument = { f with parsed := some f.document } := by
  cases hp : f.parsed with
  | none => simp [withDocument, hp]
  | some doc => rw [withDocument_of_parsed hp, ← (hf doc hp).2, ← hp]

theorem isCurrent_withDocument (hf : f.IsCurrent) (hl : f.loaded.isSome = true) :
    f.withDocument.IsCurrent := by
  rw [hf.withDocument_eq]
  rintro doc ⟨⟩
  exact ⟨hl, rfl⟩

namespace Alike

variable (h : Alike f g)

include h

theorem isLoaded_right : g.loaded.isSome = true := h.loaded ▸ h.isLoaded

theorem ensureParsed (d d' : Disk) :
    f.ensureParsed d = .ok f.withDocument ∧ g.ensureParsed d' = .ok g.withDocument :=
  ⟨ensureParsed_of_load (load_of_loaded h.isLoaded d),
    ensureParsed_of_load (load_of_loaded h.isLoaded_right d')⟩

theorem parsed_withDocument :
    f.withDocument.parsed = some f.document ∧ g.withDocument.parsed = some f.document := by
  rw [h.current.1.withDocument_eq, h.current.2.withDocument_eq, h.document]
  exact ⟨rfl, rfl⟩

theorem withDocument : Alike f.withDocument g.withDocument := by
  have hcurrent := And.intro (isCurrent_withDocument h.current.1 h.isLoaded)
    (isCurrent_withDocument h.current.2 h.isLoaded_right)
  rw [h.current.1.withDocument_eq, h.current.2.withDocument_eq] at hcurrent ⊢
  exact ⟨⟨h.isLoaded, h.loaded, h.folder, h.characters, h.assumed, h.requested, h.managed⟩, hcurrent,
    h.styles⟩

/-- Another text for both. -/
theorem setText (text : Text) : Alike (f.setText text) (g.setText text) :=
  ⟨⟨rfl, rfl, h.folder, h.characters, h.assumed, h.requested, h.managed⟩,
    ⟨isCurrent_of_parsed rfl, isCurrent_of_parsed rfl⟩,
    fun part => ((sameStyles_setText g text part).trans (h.styles part)).trans
      (sameStyles_setText f text part).symm⟩

/-- Other graphs for both, of the same styles. -/
theorem withGraphs {blend others resources blend' others' resources' : CallGraph}
    (hblend : blend'.style = blend.style) (hothers : others'.style = others.style)
    (hresources : resources'.style = resources.style) (buffers buffers' : Table Buffers)
    (toFix toFix' : VariantSet) :
    Alike { f with blend, others, resources, buffers, toFix }
      { g with
        blend := blend', others := others', resources := resources', buffers := buffers'
        toFix := toFix' } :=
  ⟨⟨h.isLoaded, h.loaded, h.folder, h.characters, h.assumed, h.requested, h.managed⟩, h.current,
    fun
      | .blend => hblend
      | .others => hothers
      | .resources => hresources⟩

theorem withVariantsChosen : Alike f.withVariantsChosen g.withVariantsChosen :=
  ⟨⟨h.isLoaded, h.loaded, h.folder, h.characters, h.assumed, h.requested, h.managed⟩, h.current,
    fun
      | .blend => h.styles .blend
      | .others => h.styles .others
      | .resources => h.styles .resources⟩

end Alike

/-! ## Operations -/

theorem agrees_ask (h : Alike f g) (question : Document → Bool) (d d' : Disk) :
    Agrees Alike (f.ask question d) (g.ask question d') := by
  obtain ⟨hf, hg⟩ := h.ensureParsed d d'
  obtain ⟨hpf, hpg⟩ := h.parsed_withDocument
  simp only [ask, hf, hg, hpf, hpg]
  exact ⟨rfl, h.withDocument⟩

theorem agrees_undo (h : Alike f g) (d d' : Disk) : Agrees Alike (f.undo d) (g.undo d') := by
  obtain ⟨hf, hg⟩ := h.ensureParsed d d'
  have hread := h.withDocument
  simp only [undo, hf, hg, hread.folder, hread.text]
  cases Remap.erase f.withDocument.folder f.withDocument.text with
  | error fault => exact ⟨rfl, hread⟩
  | ok e =>
    refine ⟨rfl, ?_⟩
    dsimp only
    split
    · exact hread
    · exact (hread.setText e.text).withDocument

/-- Files whose graphs are the same, and what is collected from them. -/
structure SameGraphs (f g : ModFile) : Prop where
  graph (part : Remap.Part) : g.graph part = f.graph part
  buffers : g.buffers = f.buffers
  toFix : g.toFix = f.toFix

theorem SameGraphs.sources (h : SameGraphs f g) (c : Character) : g.sources c = f.sources c := by
  have hblend : g.blend = f.blend := h.graph .blend
  have hothers : g.others = f.others := h.graph .others
  have hresources : g.resources = f.resources := h.graph .resources
  rw [ModFile.sources, ModFile.sources, hblend, hothers, hresources, h.buffers]

/-- A graph is built from its roots, whatever it has held. -/
theorem build_congr {g g' : CallGraph} (h : g'.style = g.style) (roots : List Text)
    (bodies : Ini.Bodies) : g'.build roots bodies = g.build roots bodies := by
  rw [CallGraph.build, CallGraph.build, h]

theorem availableCharacter_congr (hp : g.parsed = f.parsed) (ha : g.assumed = f.assumed) :
    g.availableCharacter = f.availableCharacter := by
  rw [availableCharacter, availableCharacter, character, character, hp, ha]

/-- Variants are chosen, and buffer files collected, from the graphs alone. -/
theorem sameGraphs_withVariantsChosen (hgraph : ∀ part, g.graph part = f.graph part)
    (hc : g.availableCharacter = f.availableCharacter) (hr : g.requested = f.requested)
    (hfolder : g.folder = f.folder) : SameGraphs f.withVariantsChosen g.withVariantsChosen := by
  have hblend : g.blend = f.blend := hgraph .blend
  have hothers : g.others = f.others := hgraph .others
  have hresources : g.resources = f.resources := hgraph .resources
  have htoFix : g.withVariantsChosen.toFix = f.withVariantsChosen.toFix := by
    rw [withVariantsChosen, withVariantsChosen, hc, hr, hblend, hothers, hresources]
  have hensured (part : Remap.Part) (k : ModFile) : k.withVariantsChosen.graph part =
      (k.graph part).ensureNames k.withVariantsChosen.toFix.toList := by
    cases part <;> rfl
  have hbuffers (k : ModFile) : k.withVariantsChosen.buffers = k.resources.reached.map fun e =>
      (e.1, Buffers.ofBody k.folder e.2 k.withVariantsChosen.toFix.toList Naming.bufferFile) := rfl
  exact ⟨fun part => by rw [hensured, hensured, hgraph, htoFix],
    by rw [hbuffers, hbuffers, hresources, hfolder, htoFix], htoFix⟩

/-- **Graphs built for the same task** come equally far, and are the same if they are finished. -/
theorem agrees_buildFrom (h : Alike f g) (hp : g.parsed = f.parsed) (doc : Document) (root : Text) :
    Agrees Alike (f.buildFrom doc root) (g.buildFrom doc root) ∧
      ((f.buildFrom doc root).1 = .ok () →
        SameGraphs (f.buildFrom doc root).2 (g.buildFrom doc root).2) := by
  have hc := availableCharacter_congr hp h.assumed
  have hblend (roots : List Text) := build_congr (h.styles .blend) roots doc.bodies
  have hothers (roots : List Text) := build_congr (h.styles .others) roots doc.bodies
  have hresources (roots : List Text) := build_congr (h.styles .resources) roots doc.bodies
  obtain ⟨x, hx⟩ : ∃ x, f.buildFrom doc root = x := ⟨_, rfl⟩
  rw [hx]
  cases buildFrom_eq_iff.1 hx with
  | noBlend hb =>
    rw [buildFrom_eq_iff.2 (.noBlend ((hblend _).trans hb))]
    exact ⟨⟨rfl, h.withGraphs rfl (h.styles .others) (h.styles .resources) _ _ _ _⟩, by simp⟩
  | noOthers hb ho =>
    rw [buildFrom_eq_iff.2 (.noOthers ((hblend _).trans hb) (hc ▸ (hothers _).trans ho))]
    exact ⟨⟨rfl, h.withGraphs rfl rfl (h.styles .resources) _ _ _ _⟩, by simp⟩
  | noResources hb ho hr =>
    rw [buildFrom_eq_iff.2 (.noResources ((hblend _).trans hb) (hc ▸ (hothers _).trans ho)
      (h.managed ▸ (hresources _).trans hr))]
    exact ⟨⟨rfl, h.withGraphs rfl rfl rfl _ _ _ _⟩, by simp⟩
  | @all blend others resources hb ho hr =>
    rw [buildFrom_eq_iff.2 (.all ((hblend _).trans hb) (hc ▸ (hothers _).trans ho)
      (h.managed ▸ (hresources _).trans hr))]
    have hgraph (part : Remap.Part) : { g with blend, others, resources }.graph part =
        { f with blend, others, resources }.graph part := by
      cases part <;> rfl
    exact ⟨⟨rfl, (h.withGraphs rfl rfl rfl f.buffers g.buffers f.toFix g.toFix).withVariantsChosen⟩,
      fun _ => sameGraphs_withVariantsChosen hgraph hc h.requested h.folder⟩

theorem agrees_buildGraphs (h : Alike f g) (d d' : Disk) :
    Agrees Alike (f.buildGraphs d) (g.buildGraphs d') ∧
      ((f.buildGraphs d).1 = .ok true → SameGraphs (f.buildGraphs d).2 (g.buildGraphs d').2) := by
  obtain ⟨hf, hg⟩ := h.ensureParsed d d'
  obtain ⟨hpf, hpg⟩ := h.parsed_withDocument
  rw [buildGraphs_eq hf hpf, buildGraphs_eq hg hpg]
  cases f.document.root with
  | none => exact ⟨⟨rfl, h.withDocument⟩, by simp⟩
  | some root =>
    obtain ⟨⟨hresult, halike⟩, hsame⟩ :=
      agrees_buildFrom h.withDocument (hpg.trans hpf.symm) f.document root
    refine ⟨⟨congrArg (Except.map fun _ => true) hresult, halike⟩, fun hok => hsame ?_⟩
    cases hb : (f.withDocument.buildFrom f.document root).1 with
    | error fault => simp [hb, Except.map] at hok
    | ok u => rfl

/-- Graphs that can be built are built exactly if the text has a root section. -/
theorem IsCurrent.buildGraphs_eq_ok (hf : f.IsCurrent) (hl : f.loaded.isSome = true) {built : Bool}
    (h : (f.buildGraphs d).1 = .ok built) : f.document.root.isSome = built := by
  have hparsed : f.withDocument.parsed = some f.document := by rw [hf.withDocument_eq]
  rw [buildGraphs_eq (ensureParsed_of_load (load_of_loaded hl d)) hparsed] at h
  cases hroot : f.document.root with
  | none => simpa [hroot] using h
  | some root =>
    rw [hroot] at h
    cases hb : (f.withDocument.buildFrom f.document root).1 with
    | error fault => simp [hb, Except.map] at h
    | ok u => simpa [hb, Except.map] using h

/-- **The text of a block** is the same for the same character. -/
theorem agrees_fixText (h : Alike f g) (hc : g.availableCharacter = f.availableCharacter)
    (d d' : Disk) : Agrees Alike (f.fixText d) (g.fixText d') ∧
      (f.document.root.isSome = true → (∃ block, (f.fixText d).1 = .ok block) →
        SameGraphs (f.fixText d).2 (g.fixText d').2) := by
  obtain ⟨⟨hresult, halike⟩, hsame⟩ := agrees_buildGraphs h d d'
  have hroot (built : Bool) (hb : (f.buildGraphs d).1 = .ok built) :
      f.document.root.isSome = built := h.current.1.buildGraphs_eq_ok h.isLoaded hb
  simp only [fixText, hc]
  cases f.availableCharacter with
  | none => exact ⟨⟨rfl, h⟩, by simp⟩
  | some c =>
    dsimp only
    rcases hb : f.buildGraphs d with ⟨result, k⟩
    rcases hb' : g.buildGraphs d' with ⟨result', k'⟩
    rw [hb, hb'] at hresult halike hsame
    rw [hb] at hroot
    obtain rfl : result = result' := hresult.symm
    cases result with
    | error fault => exact ⟨⟨rfl, halike⟩, by simp⟩
    | ok built =>
      cases built with
      | false => exact ⟨⟨rfl, halike⟩, fun hr => by simp [hroot false rfl] at hr⟩
      | true =>
        have hgraphs : SameGraphs k k' := hsame rfl
        exact ⟨⟨by simp only [hgraphs.sources, hgraphs.toFix], halike⟩, fun _ _ => hgraphs⟩

theorem agrees_apply (h : Alike f g) (d d' : Disk) : Agrees Alike (f.apply d) (g.apply d') := by
  obtain ⟨hf, hg⟩ := h.ensureParsed d d'
  obtain ⟨hpf, hpg⟩ := h.parsed_withDocument
  have hread := h.withDocument
  have hc := availableCharacter_congr (hpg.trans hpf.symm) hread.assumed
  obtain ⟨⟨hresult, halike⟩, hsame⟩ := agrees_fixText hread hc d d'
  rw [document_withDocument] at hsame
  rcases hfix' : g.withDocument.fixText d' with ⟨result, k'⟩
  rw [hfix'] at hresult halike hsame
  obtain ⟨x, hx⟩ : ∃ x, f.apply d = x := ⟨_, rfl⟩
  rw [hx]
  cases (apply_eq_iff hf hpf).1 hx with
  | alreadyFixed hfixed =>
    rw [(apply_eq_iff hg hpg).2 (.alreadyFixed hfixed)]
    exact ⟨rfl, hread⟩
  | noRoot hfixed hroot =>
    rw [(apply_eq_iff hg hpg).2 (.noRoot hfixed hroot)]
    exact ⟨rfl, hread⟩
  | failed hfixed hroot hfix =>
    rw [hfix] at hresult halike
    obtain rfl : result = _ := hresult
    rw [(apply_eq_iff hg hpg).2 (.failed hfixed hroot hfix')]
    exact ⟨rfl, halike⟩
  | @applied root block k hfixed hroot hfix =>
    rw [hfix] at hresult halike hsame
    obtain rfl : result = _ := hresult
    rw [(apply_eq_iff hg hpg).2 (.applied hfixed hroot hfix')]
    have hgraphs : SameGraphs k k' := hsame (by simp [hroot]) ⟨block, rfl⟩
    have htext : k'.text = k.text := halike.text
    rw [hgraphs.toFix, htext]
    exact ⟨rfl, (halike.setText _).withDocument⟩

/-! ## The character that is known -/

/-- The text tells no other character than is assumed. -/
def AssumesRight (f : ModFile) : Prop := f.document.character.or f.assumed = f.assumed

/-- The character that is known to a current file is that of its text only once it is read. -/
theorem IsCurrent.availableCharacter_eq (hf : f.IsCurrent) : f.availableCharacter =
    if f.parsed.isSome then f.document.character.or f.assumed else f.assumed := by
  rw [availableCharacter, character]
  cases hp : f.parsed with
  | none => simp
  | some doc => simp [(hf doc hp).2]

/-- What keeps graphs from being built is a section that is missing. -/
theorem missingSection_of_buildGraphs {fault : Fault} (hl : f.loaded.isSome = true)
    (h : (f.buildGraphs d).1 = .error fault) : ∃ n, fault = .missingSection n := by
  obtain ⟨doc, hdoc⟩ := Option.isSome_iff_exists.1 (parsed_withDocument_isSome f)
  rw [buildGraphs_eq (ensureParsed_of_load (load_of_loaded hl d)) hdoc] at h
  cases hroot : doc.root with
  | none => simp [hroot] at h
  | some root =>
    obtain ⟨x, hx⟩ : ∃ x, f.withDocument.buildFrom doc root = x := ⟨_, rfl⟩
    simp only [hroot, hx] at h
    cases buildFrom_eq_iff.1 hx with
    | noBlend => exact ⟨_, (Except.error.inj h).symm⟩
    | noOthers => exact ⟨_, (Except.error.inj h).symm⟩
    | noResources => exact ⟨_, (Except.error.inj h).symm⟩
    | all => cases h

/-- **A block fails for want of a character** exactly if none is known before the text is read. -/
theorem fixText_noCharacter_iff (hl : f.loaded.isSome = true) :
    (f.fixText d).1 = .error .noCharacter ↔ f.availableCharacter = none := by
  constructor
  · intro h
    by_contra hc
    obtain ⟨c, hc⟩ := Option.ne_none_iff_exists'.1 hc
    rcases hb : f.buildGraphs d with ⟨fault | _ | _, k⟩
    · obtain ⟨n, rfl⟩ := missingSection_of_buildGraphs hl (congrArg Prod.fst hb)
      simp [fixText, hc, hb] at h
    · simp [fixText, hc, hb] at h
    · obtain ⟨b, rfl⟩ := exists_building hb
      have hnames (part : Remap.Part) : ((b.built.sources c).graph part).NamesByStyle := by
        rw [graph_sources]
        exact b.namesByStyle_graph part
      obtain ⟨block, hblock⟩ := Remap.Sources.exists_block hnames (by simp [sources])
        b.built.toFix.toList (some c.title)
      simp [fixText, hc, hb, hblock] at h
  · intro hc
    rw [fixText, hc]

/-- Whether both files are read, or it makes no difference to the character that is known. -/
def KnowAlike (f g : ModFile) : Prop := g.parsed.isSome = f.parsed.isSome ∨ f.AssumesRight

theorem Alike.availableCharacter_eq (h : Alike f g) (hk : KnowAlike f g) :
    g.availableCharacter = f.availableCharacter := by
  rw [h.current.1.availableCharacter_eq, h.current.2.availableCharacter_eq, h.document, h.assumed]
  rcases hk with hp | (hright : f.document.character.or f.assumed = f.assumed)
  · rw [hp]
  · simp [hright]

/-- If no character is assumed, one file knows of one and the other does not unless both are read
or the text tells none. -/
theorem Alike.knowAlike_of_none (h : Alike f g) (hnone : f.assumed = none)
    (hc : g.availableCharacter = none ↔ f.availableCharacter = none) : KnowAlike f g := by
  rw [h.current.1.availableCharacter_eq, h.current.2.availableCharacter_eq, h.document, h.assumed,
    hnone] at hc
  rw [KnowAlike, AssumesRight, hnone]
  cases hf : f.parsed.isSome <;> cases hg : g.parsed.isSome <;> simp_all

/-! ## Answers -/

/-- **The answers of two files with the same task** are the same, and they have the same text
afterwards, whatever operations they come from and wherever these have failed. The text of a block
alone depends on more: on whether the files have been read. It is the same if both or neither have,
or if the text tells no other character than is assumed, and only then if none is assumed. -/
theorem agrees_of_sameTask (hf : Reachable f) (hg : Reachable g) (h : SameTask f g)
    (d d' : Disk) :
    Agrees SameTask (f.isMod d) (g.isMod d') ∧ Agrees SameTask (f.isFixed d) (g.isFixed d') ∧
      Agrees SameTask (f.buildGraphs d) (g.buildGraphs d') ∧
      Agrees SameTask (f.apply d) (g.apply d') ∧ Agrees SameTask (f.undo d) (g.undo d') ∧
      SameTask (f.fixText d).2 (g.fixText d').2 ∧
      (KnowAlike f g → (g.fixText d').1 = (f.fixText d).1) ∧
      (f.assumed = none → (g.fixText d').1 = (f.fixText d).1 → KnowAlike f g) := by
  have halike := h.alike hf hg
  have weaken {α : Type} {a b : α × ModFile} (hab : Agrees Alike a b) : Agrees SameTask a b :=
    ⟨hab.1, hab.2.toSameTask⟩
  refine ⟨weaken (agrees_ask halike _ d d'), weaken (agrees_ask halike _ d d'),
    weaken (agrees_buildGraphs halike d d').1, weaken (agrees_apply halike d d'),
    weaken (agrees_undo halike d d'), ?_, fun hk => ?_, fun hnone heq => ?_⟩
  · exact (sameTask_fixText h.isLoaded d).symm.trans
      (h.trans (sameTask_fixText halike.isLoaded_right d'))
  · exact (agrees_fixText halike (halike.availableCharacter_eq hk) d d').1.1
  · refine halike.knowAlike_of_none hnone ?_
    rw [← fixText_noCharacter_iff (d := d') halike.isLoaded_right, heq,
      fixText_noCharacter_iff h.isLoaded]

/-- The file with the blend override, after content could not be added to another text of it. -/
def revertedFile : ModFile := (((raidenFile blendText).setText []).apply .empty).2.setText blendText

/-- Content is added to it as if nothing had happened. -/
theorem agrees_of_sameTask_blend : SameTask (raidenFile blendText) revertedFile ∧
    (revertedFile.apply .empty).1 = .ok (.applied (blendApplication .empty).built.toFix) ∧
    (revertedFile.fixText .empty).1 = ((raidenFile blendText).fixText .empty).1 := by
  have hf := reachable_raidenFile blendText
  have hg : Reachable revertedFile :=
    .step (d := .empty) (.step (d := .empty) (.step (d := .empty) hf (.setText [])) .apply)
      (.setText blendText)
  have htask : SameTask (raidenFile blendText) revertedFile := ⟨rfl, rfl, rfl, rfl, rfl, rfl, rfl⟩
  obtain ⟨-, -, -, happly, -, -, hblock, -⟩ := agrees_of_sameTask hf hg htask .empty .empty
  refine ⟨htask, ?_, hblock (.inl rfl)⟩
  rw [happly.1, (blendApplication .empty).apply_eq]

/-- A mod file in memory whose text tells the character. -/
def tellingFile : ModFile := (ofText blendText).withCharacters [raiden]

/-- The stages of an application to the blend override, for the character that it tells. -/
def tellingApplication (d : Disk) : Application tellingFile d :=
  .ofWalks 1 "TextureOverrideRaidenBlend".toList raiden blendBodies [] [] [blendPart]

/-- **A file that has not been read** does not know the character of its text, and fails to tell
the block that the same file tells once it is asked whether it can be remapped. -/
theorem fixText_unread : Reachable tellingFile ∧ Reachable (tellingFile.isMod .empty).2 ∧
    SameTask tellingFile (tellingFile.isMod .empty).2 ∧
    (tellingFile.fixText .empty).1 = .error .noCharacter ∧
    ((tellingFile.isMod .empty).2.fixText .empty).1 = .ok (tellingApplication .empty).block := by
  have hf : Reachable tellingFile := .step (d := .empty) (.ofText _) (.withCharacters _)
  exact ⟨hf, .step hf .isMod, ⟨rfl, rfl, rfl, rfl, rfl, rfl, rfl⟩, rfl,
    congrArg Prod.fst (tellingApplication .empty).fixText_eq⟩

end ModFile

end Reskin
