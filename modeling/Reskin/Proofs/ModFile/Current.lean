import Reskin.ModFile

/-!
# Documents that are current

A document is read at most once for each text. Every operation that changes what the document
depends on forgets it, so that in whatever order the operations are run, a document that is kept is
that of the text as it stands.

## Main definitions

* `ModFile.IsCurrent`: files whose document is that of their text
* `ModFile.BuildsTo`, `ModFile.AppliesTo`: what building graphs and adding content come to
* `ModFile.Prepares`, `ModFile.Leaves`: all that an operation can leave, however far it comes
* `ModFile.Step`, `ModFile.Reachable`: the operations on a file, and the files they lead to

## Main results

* `ModFile.ensureParsed_ensureParsed`: reading once is enough
* `ModFile.buildFrom_eq_iff`, `ModFile.apply_eq_iff`: there is nothing else that they can come to
* `ModFile.apply_of_loaded`, `ModFile.undo_of_loaded`: files that do not look at the disk
* `ModFile.prepares_fixText`, `ModFile.leaves_apply`, `ModFile.leaves_undo`: what the operations leave
* `ModFile.isSound_of_step`, `ModFile.isCurrent_of_reachable`: every file is current
-/

namespace Reskin.ModFile

open Ini (Document)

/-! ## Reading -/

/-- The document, where it is read already, is that of the loaded text. -/
def IsCurrent (f : ModFile) : Prop :=
  ∀ doc, f.parsed = some doc → f.loaded.isSome = true ∧ doc = f.document

theorem isCurrent_of_parsed {f : ModFile} (h : f.parsed = none) : f.IsCurrent := by
  simp [IsCurrent, h]

@[simp] theorem text_withDocument (f : ModFile) : f.withDocument.text = f.text := by
  unfold withDocument
  split <;> rfl

@[simp] theorem folder_withDocument (f : ModFile) : f.withDocument.folder = f.folder := by
  unfold withDocument
  split <;> rfl

@[simp] theorem path_withDocument (f : ModFile) : f.withDocument.path = f.path := by
  unfold withDocument
  split <;> rfl

@[simp] theorem loaded_withDocument (f : ModFile) : f.withDocument.loaded = f.loaded := by
  unfold withDocument
  split <;> rfl

@[simp] theorem text_setText (f : ModFile) (t : Text) : (f.setText t).text = t := rfl

theorem parsed_withDocument_isSome (f : ModFile) : f.withDocument.parsed.isSome = true := by
  unfold withDocument
  split
  · next h => simp [h]
  · rfl

theorem parsed_withDocument {f : ModFile} (h : f.parsed = none) :
    f.withDocument.parsed = some f.document := by
  simp [withDocument, h]

theorem withDocument_eq (f : ModFile) :
    f.withDocument = { f with parsed := f.withDocument.parsed } := by
  unfold withDocument
  split <;> rfl

theorem withDocument_of_parsed {f : ModFile} {doc : Document} (h : f.parsed = some doc) :
    f.withDocument = f := by
  simp [withDocument, h]

theorem load_of_loaded {f : ModFile} (h : f.loaded.isSome = true) (d : Disk) : f.load d = .ok f := by
  obtain ⟨t, ht⟩ := Option.isSome_iff_exists.1 h
  simp [load, ht]

/-- Loading forgets a document only where it reads the text anew. -/
theorem load_spec {f g : ModFile} {d : Disk} (h : f.load d = .ok g) :
    g = f ∧ (f.loaded.isSome = true ∨ f.path = none) ∨
      f.loaded = none ∧ ∃ path text, f.path = some path ∧ d.readText path = .ok text ∧
        g = f.setText text := by
  unfold load at h
  split at h
  · next t ht => exact .inl ⟨(Except.ok.inj h).symm, .inl (by simp [ht])⟩
  · next ht =>
    unfold read at h
    split at h
    · next hp => exact .inl ⟨(Except.ok.inj h).symm, .inr hp⟩
    · next path hp =>
      split at h
      · next text hr => exact .inr ⟨ht, path, text, hp, hr, (Except.ok.inj h).symm⟩
      · simp at h

theorem ensureParsed_eq_ok {f g : ModFile} {d : Disk} :
    f.ensureParsed d = .ok g ↔ ∃ f', f.load d = .ok f' ∧ g = f'.withDocument := by
  unfold ensureParsed
  cases f.load d with
  | error fault => simp
  | ok f' => simp [eq_comm]

/-- Reading changes the text and the document of a file only. -/
theorem exists_of_ensureParsed {f g : ModFile} {d : Disk} (h : f.ensureParsed d = .ok g) :
    ∃ loaded parsed, g = { f with loaded, parsed } := by
  obtain ⟨f', hl, rfl⟩ := ensureParsed_eq_ok.1 h
  rw [withDocument_eq]
  rcases load_spec hl with ⟨rfl, -⟩ | ⟨-, path, text, -, -, rfl⟩
  · exact ⟨_, _, rfl⟩
  · exact ⟨_, _, rfl⟩

/-- A file that is loaded is read as it is. -/
theorem ensureParsed_of_load {f : ModFile} {d : Disk} (h : f.load d = .ok f) :
    f.ensureParsed d = .ok f.withDocument :=
  ensureParsed_eq_ok.2 ⟨f, h, rfl⟩

/-- A file that is loaded and read stays as it is. -/
theorem ensureParsed_of_parsed {f : ModFile} {doc : Document} {d : Disk}
    (hl : f.load d = .ok f) (h : f.parsed = some doc) : f.ensureParsed d = .ok f :=
  ensureParsed_eq_ok.2 ⟨f, hl, (withDocument_of_parsed h).symm⟩

theorem exists_parsed_of_ensureParsed {f g : ModFile} {d : Disk} (h : f.ensureParsed d = .ok g) :
    ∃ doc, g.parsed = some doc := by
  obtain ⟨f', -, rfl⟩ := ensureParsed_eq_ok.1 h
  exact Option.isSome_iff_exists.1 (parsed_withDocument_isSome f')

theorem load_withDocument {f : ModFile} {d : Disk} (h : f.load d = .ok f) :
    f.withDocument.load d = .ok f.withDocument := by
  cases hp : f.parsed with
  | some doc => rw [withDocument_of_parsed hp, h]
  | none =>
    have hw : f.withDocument = { f with parsed := some f.document } := by simp [withDocument, hp]
    rcases load_spec h with ⟨-, hl | hpath⟩ | ⟨hl, path, text, -, -, he⟩
    · rw [hw]
      exact load_of_loaded (f := { f with parsed := some f.document }) hl d
    · rw [hw]
      simp only [load, read, hpath]
      split <;> rfl
    · rw [he] at hl
      simp [setText] at hl

theorem load_load {f g : ModFile} {d : Disk} (h : f.load d = .ok g) : g.load d = .ok g := by
  rcases load_spec h with ⟨rfl, -⟩ | ⟨-, path, text, -, -, rfl⟩
  · exact h
  · exact load_of_loaded rfl d

/-- Reading once is enough. -/
theorem ensureParsed_ensureParsed {f g : ModFile} {d : Disk} (h : f.ensureParsed d = .ok g) :
    g.ensureParsed d = .ok g := by
  obtain ⟨f', hl, rfl⟩ := ensureParsed_eq_ok.1 h
  obtain ⟨doc, hdoc⟩ := Option.isSome_iff_exists.1 (parsed_withDocument_isSome f')
  exact ensureParsed_of_parsed (load_withDocument (load_load hl)) hdoc

/-! ## Graphs -/

/-- Two files with the same text, read for the same characters. -/
structure SameReading (f g : ModFile) : Prop where
  path : g.path = f.path
  loaded : g.loaded = f.loaded
  parsed : g.parsed = f.parsed
  characters : g.characters = f.characters ∧ g.assumed = f.assumed

/-- **Building graphs**, by how far it comes. Each graph is built from names that the ones before it
have told, and the variants are chosen after all of them. -/
inductive BuildsTo (f : ModFile) (doc : Document) (root : Text) :
    Except Fault Unit × ModFile → Prop
  | noBlend {missing : Text} {blend : CallGraph} :
      f.blend.build [root] doc.bodies = (some missing, blend) →
      BuildsTo f doc root (.error (.missingSection missing), { f with blend })
  | noOthers {missing : Text} {blend others : CallGraph} :
      f.blend.build [root] doc.bodies = (none, blend) →
      f.others.build (otherRoots f.availableCharacter blend doc) doc.bodies =
        (some missing, others) →
      BuildsTo f doc root (.error (.missingSection missing), { f with blend, others })
  | noResources {missing : Text} {blend others resources : CallGraph} :
      f.blend.build [root] doc.bodies = (none, blend) →
      f.others.build (otherRoots f.availableCharacter blend doc) doc.bodies = (none, others) →
      f.resources.build (resourceRoots f.managed blend) doc.bodies = (some missing, resources) →
      BuildsTo f doc root (.error (.missingSection missing), { f with blend, others, resources })
  | all {blend others resources : CallGraph} :
      f.blend.build [root] doc.bodies = (none, blend) →
      f.others.build (otherRoots f.availableCharacter blend doc) doc.bodies = (none, others) →
      f.resources.build (resourceRoots f.managed blend) doc.bodies = (none, resources) →
      BuildsTo f doc root (.ok (), { f with blend, others, resources }.withVariantsChosen)

theorem buildFrom_eq_iff {f : ModFile} {doc : Document} {root : Text}
    {x : Except Fault Unit × ModFile} : f.buildFrom doc root = x ↔ BuildsTo f doc root x := by
  have hc (blend : CallGraph) : { f with blend }.availableCharacter = f.availableCharacter := rfl
  constructor
  · rintro rfl
    unfold buildFrom
    split
    · next hb => exact .noBlend hb
    next hb =>
    dsimp only
    split
    · next ho => exact .noOthers hb ho
    next ho =>
    split
    · next hr => exact .noResources hb ho hr
    · next hr => exact .all hb ho hr
  · intro h
    cases h with
    | noBlend hb => simp only [buildFrom, hb]
    | noOthers hb ho => simp only [buildFrom, hb, hc, ho]
    | noResources hb ho hr => simp only [buildFrom, hb, hc, ho, hr]
    | all hb ho hr => simp only [buildFrom, hb, hc, ho, hr]

/-- Three graphs built one after the other, and the variants chosen for them. -/
theorem exists_of_buildFrom {f k : ModFile} {doc : Document} {root : Text}
    (h : f.buildFrom doc root = (.ok (), k)) :
    ∃ blend others resources, f.blend.build [root] doc.bodies = (none, blend) ∧
      f.others.build (otherRoots f.availableCharacter blend doc) doc.bodies = (none, others) ∧
      f.resources.build (resourceRoots f.managed blend) doc.bodies = (none, resources) ∧
      k = { f with blend, others, resources }.withVariantsChosen := by
  cases buildFrom_eq_iff.1 h with
  | all hb ho hr => exact ⟨_, _, _, hb, ho, hr, rfl⟩

/-- Building graphs changes the graphs and what is chosen for them only, however far it comes. -/
theorem exists_buildFrom_eq (f : ModFile) (doc : Document) (root : Text) :
    ∃ blend others resources buffers toFix,
      (f.buildFrom doc root).2 = { f with blend, others, resources, buffers, toFix } := by
  obtain ⟨x, hx⟩ : ∃ x, f.buildFrom doc root = x := ⟨_, rfl⟩
  rw [hx]
  cases buildFrom_eq_iff.1 hx with
  | noBlend => exact ⟨_, _, _, _, _, rfl⟩
  | noOthers => exact ⟨_, _, _, _, _, rfl⟩
  | noResources => exact ⟨_, _, _, _, _, rfl⟩
  | all => exact ⟨_, _, _, _, _, rfl⟩

theorem sameReading_buildFrom (f : ModFile) (doc : Document) (root : Text) :
    SameReading f (f.buildFrom doc root).2 := by
  obtain ⟨_, _, _, _, _, h⟩ := f.exists_buildFrom_eq doc root
  rw [h]
  exact ⟨rfl, rfl, rfl, rfl, rfl⟩

/-- Building graphs leaves the text as it is. -/
theorem loaded_of_buildFrom {f k : ModFile} {doc : Document} {root : Text}
    (h : f.buildFrom doc root = (.ok (), k)) : k.loaded = f.loaded := by
  have := (sameReading_buildFrom f doc root).loaded
  rwa [h] at this

/-- A file with a document has its graphs built from the root of the document. -/
theorem buildGraphs_eq {f g : ModFile} {d : Disk} {doc : Document} (hread : f.ensureParsed d = .ok g)
    (hdoc : g.parsed = some doc) : f.buildGraphs d =
      match doc.root with
      | none => (.ok false, g)
      | some root => ((g.buildFrom doc root).1.map fun _ => true, (g.buildFrom doc root).2) := by
  rw [buildGraphs, hread]
  simp only [hdoc]
  cases doc.root with
  | none => rfl
  | some root =>
    dsimp only
    rcases g.buildFrom doc root with ⟨fault | _, k⟩ <;> rfl

/-! ## Added content -/

/-- **Adding content** to a file with a document, by what it comes to. -/
inductive AppliesTo (f : ModFile) (doc : Document) (d : Disk) :
    Except Fault Outcome × ModFile → Prop
  | alreadyFixed : doc.isFixed = true → AppliesTo f doc d (.ok .alreadyFixed, f)
  | noRoot : doc.isFixed = false → doc.root = none → AppliesTo f doc d (.ok .noRoot, f)
  | failed {root : Text} {fault : Fault} {k : ModFile} : doc.isFixed = false →
      doc.root = some root → f.fixText d = (.error fault, k) → AppliesTo f doc d (.error fault, k)
  | applied {root block : Text} {k : ModFile} : doc.isFixed = false → doc.root = some root →
      f.fixText d = (.ok block, k) →
      AppliesTo f doc d
        (.ok (.applied k.toFix), (k.setText (appended k.text block)).withDocument)

theorem apply_eq_iff {f g : ModFile} {d : Disk} {doc : Document} (hread : f.ensureParsed d = .ok g)
    (hdoc : g.parsed = some doc) {x : Except Fault Outcome × ModFile} :
    f.apply d = x ↔ AppliesTo g doc d x := by
  constructor
  · rintro rfl
    unfold apply
    rw [hread]
    simp only [hdoc]
    cases hfixed : doc.isFixed with
    | true => exact .alreadyFixed hfixed
    | false =>
      cases hroot : doc.root with
      | none => exact .noRoot hfixed hroot
      | some root =>
        rcases hfix : g.fixText d with ⟨fault | block, k⟩
        · simpa [hfix] using AppliesTo.failed hfixed hroot hfix
        · simpa [hfix] using AppliesTo.applied hfixed hroot hfix
  · intro h
    rw [apply, hread]
    cases h with
    | alreadyFixed hfixed => simp only [hdoc, hfixed, if_true]
    | noRoot hfixed hroot => simp [hdoc, hfixed, hroot]
    | failed hfixed hroot hfix => simp [hdoc, hfixed, hroot, hfix]
    | applied hfixed hroot hfix => simp [hdoc, hfixed, hroot, hfix]

/-! ## Loaded files -/

section Loaded

variable {f : ModFile} (hl : f.loaded.isSome = true) (d d' : Disk)

include hl

/-- **A file that is loaded** does not look at the disk, whatever is done with it. -/
theorem ensureParsed_of_loaded : f.ensureParsed d' = f.ensureParsed d := by
  rw [ensureParsed_of_load (load_of_loaded hl d'), ensureParsed_of_load (load_of_loaded hl d)]

theorem fixText_of_loaded : f.fixText d' = f.fixText d := by
  rw [fixText, fixText, buildGraphs, buildGraphs, ensureParsed_of_loaded hl d d']

theorem apply_of_loaded : f.apply d' = f.apply d := by
  have hread : f.withDocument.loaded.isSome = true := by rwa [loaded_withDocument]
  rw [apply, apply, ensureParsed_of_load (load_of_loaded hl d'),
    ensureParsed_of_load (load_of_loaded hl d)]
  simp only [fixText_of_loaded hread d d']

theorem undo_of_loaded : f.undo d' = f.undo d := by
  rw [undo, undo, ensureParsed_of_loaded hl d d']

end Loaded

/-! ## What operations leave -/

/-- **How far a file is prepared**: not at all, until its document is read, or through graphs that are
built from a document. -/
inductive Prepares (d : Disk) (f : ModFile) : ModFile → Prop
  | stay : Prepares d f f
  | read {g : ModFile} : f.ensureParsed d = .ok g → Prepares d f g
  | build {g : ModFile} (doc : Document) (root : Text) : f.ensureParsed d = .ok g →
      Prepares d f (g.buildFrom doc root).2

/-- **What an operation leaves**: a file that has been prepared, or one with another text then. -/
inductive Leaves (d : Disk) (f : ModFile) : ModFile → Prop
  | prepared {k : ModFile} : Prepares d f k → Leaves d f k
  | changed {k : ModFile} (text : Text) : Prepares d f k → Leaves d f (k.setText text).withDocument

section Leaving

variable {f g k : ModFile} {d : Disk}

/-- A file that is read already is not read again. -/
theorem Prepares.of_read (hread : f.ensureParsed d = .ok g) (h : Prepares d g k) :
    Prepares d f k := by
  have same {g' : ModFile} (hg : g.ensureParsed d = .ok g') : g = g' :=
    Except.ok.inj ((ensureParsed_ensureParsed hread).symm.trans hg)
  cases h with
  | stay => exact .read hread
  | read hg => exact same hg ▸ .read hread
  | build doc root hg => exact same hg ▸ .build doc root hread

theorem prepares_ask (f : ModFile) (question : Document → Bool) (d : Disk) :
    Prepares d f (f.ask question d).2 := by
  unfold ask
  split
  · exact .stay
  · next g hread => exact .read hread

theorem prepares_buildGraphs (f : ModFile) (d : Disk) : Prepares d f (f.buildGraphs d).2 := by
  cases hread : f.ensureParsed d with
  | error fault =>
    rw [buildGraphs, hread]
    exact .stay
  | ok g =>
    obtain ⟨doc, hdoc⟩ := exists_parsed_of_ensureParsed hread
    rw [buildGraphs_eq hread hdoc]
    cases doc.root with
    | none => exact .read hread
    | some root => exact .build doc root hread

theorem prepares_fixText (f : ModFile) (d : Disk) : Prepares d f (f.fixText d).2 := by
  have hbuilt := prepares_buildGraphs f d
  unfold fixText
  split
  · exact .stay
  split
  · next hb => rwa [hb] at hbuilt
  · next hb => rwa [hb] at hbuilt
  · next hb => rwa [hb] at hbuilt

theorem leaves_apply (f : ModFile) (d : Disk) : Leaves d f (f.apply d).2 := by
  cases hread : f.ensureParsed d with
  | error fault =>
    rw [apply, hread]
    exact .prepared .stay
  | ok g =>
    obtain ⟨doc, hdoc⟩ := exists_parsed_of_ensureParsed hread
    have hfix := (prepares_fixText g d).of_read hread
    obtain ⟨x, hx⟩ : ∃ x, f.apply d = x := ⟨_, rfl⟩
    rw [hx]
    cases (apply_eq_iff hread hdoc).1 hx with
    | alreadyFixed => exact .prepared (.read hread)
    | noRoot => exact .prepared (.read hread)
    | failed _ _ hf => exact .prepared (by rwa [hf] at hfix)
    | applied _ _ hf => exact .changed _ (by rwa [hf] at hfix)

theorem leaves_undo (f : ModFile) (d : Disk) : Leaves d f (f.undo d).2 := by
  unfold undo
  split
  · exact .prepared .stay
  next g hread =>
  split
  · exact .prepared (.read hread)
  · dsimp only
    split
    · exact .prepared (.read hread)
    · exact .changed _ (.read hread)

end Leaving

/-! ## Operations -/

/-- **One operation** on a file, with the disk as it is then. An operation that fails leaves the
state it has come to. -/
inductive Step (d : Disk) (f : ModFile) : ModFile → Prop
  | withCharacters (characters : List Character) : Step d f (f.withCharacters characters)
  | withAssumed (assumed : Option Character) : Step d f (f.withAssumed assumed)
  | withVariants (variants : List Text) : Step d f (f.withVariants variants)
  | withManaged {pattern : Text} {g : ModFile} : f.withManaged pattern = .ok g → Step d f g
  | setText (text : Text) : Step d f (f.setText text)
  | read {g : ModFile} : f.read d = .ok g → Step d f g
  | clear : Step d f f.clear
  | ensureParsed {g : ModFile} : f.ensureParsed d = .ok g → Step d f g
  | isMod : Step d f (f.isMod d).2
  | isFixed : Step d f (f.isFixed d).2
  | buildGraphs : Step d f (f.buildGraphs d).2
  | fixText : Step d f (f.fixText d).2
  | apply : Step d f (f.apply d).2
  | undo : Step d f (f.undo d).2

/-- The files that operations lead to, whatever becomes of the disk meanwhile. -/
inductive Reachable : ModFile → Prop
  | ofText (text : Text) : Reachable (ofText text)
  | ofPath (path : Text) : Reachable (ofPath path)
  | step {d : Disk} {f g : ModFile} : Reachable f → Step d f g → Reachable g

/-- What every operation keeps: the document is current, and there is a text or a place to load it
from. -/
structure IsSound (f : ModFile) : Prop where
  source : f.path.isSome = true ∨ f.loaded.isSome = true
  current : f.IsCurrent

namespace IsSound

variable {f g : ModFile} {d : Disk}

theorem of_parsed (hs : f.path.isSome = true ∨ f.loaded.isSome = true) (h : f.parsed = none) :
    f.IsSound :=
  ⟨hs, isCurrent_of_parsed h⟩

theorem setText (f : ModFile) (text : Text) : (f.setText text).IsSound :=
  of_parsed (.inr rfl) rfl

variable (h : f.IsSound)

include h

theorem of_sameReading (hg : SameReading f g) : g.IsSound := by
  constructor
  · rw [hg.path, hg.loaded]
    exact h.source
  · intro doc hdoc
    rw [hg.parsed] at hdoc
    obtain ⟨hl, rfl⟩ := h.current doc hdoc
    rw [hg.loaded, document, document, text, text, hg.loaded, hg.characters.1, hg.characters.2]
    exact ⟨hl, rfl⟩

theorem withDocument (hl : f.loaded.isSome = true) : f.withDocument.IsSound := by
  cases hp : f.parsed with
  | some doc => rwa [withDocument_of_parsed hp]
  | none =>
    have hw : f.withDocument = { f with parsed := some f.document } := by
      simp [ModFile.withDocument, hp]
    rw [hw]
    refine ⟨h.source, fun doc hdoc => ⟨hl, ?_⟩⟩
    rw [← Option.some.inj hdoc]
    rfl

theorem load (hg : f.load d = .ok g) : g.IsSound ∧ g.loaded.isSome = true := by
  rcases load_spec hg with ⟨rfl, hl | hp⟩ | ⟨-, path, text, -, -, rfl⟩
  · exact ⟨h, hl⟩
  · exact ⟨h, by simpa [hp] using h.source⟩
  · exact ⟨setText f text, rfl⟩

theorem ensureParsed (hg : f.ensureParsed d = .ok g) : g.IsSound := by
  obtain ⟨f', hl, rfl⟩ := ensureParsed_eq_ok.1 hg
  exact (h.load hl).1.withDocument (h.load hl).2

theorem read (hg : f.read d = .ok g) : g.IsSound := by
  unfold ModFile.read at hg
  split at hg
  · exact Except.ok.inj hg ▸ h
  · split at hg
    · exact Except.ok.inj hg ▸ setText f _
    · simp at hg

theorem of_prepares (hg : Prepares d f g) : g.IsSound := by
  cases hg with
  | stay => exact h
  | read hread => exact h.ensureParsed hread
  | build doc root hread =>
    exact (h.ensureParsed hread).of_sameReading (sameReading_buildFrom _ doc root)

theorem of_leaves (hg : Leaves d f g) : g.IsSound := by
  cases hg with
  | prepared hk => exact h.of_prepares hk
  | changed text _ => exact (setText _ text).withDocument rfl

end IsSound

/-- **Every operation** keeps a file sound. -/
theorem isSound_of_step {d : Disk} {f g : ModFile} (h : f.IsSound) (hstep : Step d f g) :
    g.IsSound := by
  cases hstep with
  | withCharacters characters => exact .of_parsed h.source rfl
  | withAssumed assumed => exact .of_parsed h.source rfl
  | withVariants variants => exact h.of_sameReading ⟨rfl, rfl, rfl, rfl, rfl⟩
  | withManaged hg =>
    unfold withManaged at hg
    split at hg
    · exact Except.ok.inj hg ▸ h.of_sameReading ⟨rfl, rfl, rfl, rfl, rfl⟩
    · simp at hg
  | setText text => exact .setText f text
  | read hg => exact h.read hg
  | clear =>
    refine .of_parsed ?_ rfl
    cases hp : f.path with
    | some path => exact .inl (by simp [clear, hp])
    | none => exact .inr (by simpa [clear, hp] using h.source)
  | ensureParsed hg => exact h.ensureParsed hg
  | isMod => exact h.of_prepares (prepares_ask f _ d)
  | isFixed => exact h.of_prepares (prepares_ask f _ d)
  | buildGraphs => exact h.of_prepares (prepares_buildGraphs f d)
  | fixText => exact h.of_prepares (prepares_fixText f d)
  | apply => exact h.of_leaves (leaves_apply f d)
  | undo => exact h.of_leaves (leaves_undo f d)

/-- **Whatever the operations are**, the document of a file is that of its text. -/
theorem isCurrent_of_reachable {f : ModFile} (h : Reachable f) : f.IsCurrent := by
  suffices hs : f.IsSound from hs.current
  induction h with
  | ofText text => exact .of_parsed (.inr rfl) rfl
  | ofPath path => exact .of_parsed (.inl rfl) rfl
  | step _ hstep ih => exact isSound_of_step ih hstep

end Reskin.ModFile
