import Reskin.Proofs.ModFile.Apply

/-!
# Histories

A file is opened and then worked on, one operation after the other, while others may change its disk
at any time. Some operations fail: the disk cannot be read, a pattern is refused, a section is
missing. Such histories lead to the reachable files and to no others, so what every operation keeps
holds after every history: a document that is kept is that of the text as it stands.

## Main definitions

* `ModFile.Event`, `ModFile.Event.run`: what can happen to a file and its disk
* `ModFile.IsNew`, `ModFile.after`: files as they are opened, and what a history makes of them

## Main results

* `ModFile.reachable_iff_exists_history`: histories lead to the reachable files
* `ModFile.parsed_after`: the document after a history
-/

namespace Reskin.ModFile

open Ini (Document)

/-- What can happen to a file and its disk. -/
inductive Event where
  /-- The disk is changed behind the back of the file. -/
  | disk (d : Disk)
  | withCharacters (characters : List Character)
  | withAssumed (assumed : Option Character)
  | withVariants (variants : List Text)
  | withManaged (pattern : Text)
  | setText (text : Text)
  | read
  | write
  | clear
  | ensureParsed
  | isMod
  | isFixed
  | buildGraphs
  | fixText
  | apply
  | undo

/-- The file and the disk after an event. Loading, writing and patterns that fail change neither; the
other operations leave the file as far as they have come. -/
def Event.run (s : ModFile × Disk) : Event → ModFile × Disk
  | disk d => (s.1, d)
  | withCharacters characters => (s.1.withCharacters characters, s.2)
  | withAssumed assumed => (s.1.withAssumed assumed, s.2)
  | withVariants variants => (s.1.withVariants variants, s.2)
  | withManaged pattern => ((s.1.withManaged pattern).toOption.getD s.1, s.2)
  | setText text => (s.1.setText text, s.2)
  | read => ((s.1.read s.2).toOption.getD s.1, s.2)
  | write => (s.1, (s.1.write s.2).toOption.getD s.2)
  | clear => (s.1.clear, s.2)
  | ensureParsed => ((s.1.ensureParsed s.2).toOption.getD s.1, s.2)
  | isMod => ((s.1.isMod s.2).2, s.2)
  | isFixed => ((s.1.isFixed s.2).2, s.2)
  | buildGraphs => ((s.1.buildGraphs s.2).2, s.2)
  | fixText => ((s.1.fixText s.2).2, s.2)
  | apply => ((s.1.apply s.2).2, s.2)
  | undo => ((s.1.undo s.2).2, s.2)

/-- A file as it is opened. -/
inductive IsNew : ModFile → Prop
  | ofText (text : Text) : IsNew (ofText text)
  | ofPath (path : Text) : IsNew (ofPath path)

/-- The file and the disk after a history. -/
def after (s : ModFile × Disk) (history : List Event) : ModFile × Disk := history.foldl Event.run s

theorem after_append (s : ModFile × Disk) (h h' : List Event) :
    after s (h ++ h') = after (after s h) h' := List.foldl_append

/-! ## Reachable files -/

theorem IsNew.reachable {f : ModFile} (h : IsNew f) : Reachable f := by
  cases h with
  | ofText text => exact .ofText text
  | ofPath path => exact .ofPath path

/-- An event is an operation on the file, or leaves it as it is. -/
theorem Event.step_run (e : Event) (s : ModFile × Disk) :
    Step s.2 s.1 (e.run s).1 ∨ (e.run s).1 = s.1 := by
  cases e with
  | disk d => exact .inr rfl
  | withCharacters characters => exact .inl (.withCharacters characters)
  | withAssumed assumed => exact .inl (.withAssumed assumed)
  | withVariants variants => exact .inl (.withVariants variants)
  | withManaged pattern =>
    simp only [run]
    cases h : s.1.withManaged pattern with
    | error fault => exact .inr rfl
    | ok g => exact .inl (.withManaged h)
  | setText text => exact .inl (.setText text)
  | read =>
    simp only [run]
    cases h : s.1.read s.2 with
    | error fault => exact .inr rfl
    | ok g => exact .inl (.read h)
  | write => exact .inr rfl
  | clear => exact .inl .clear
  | ensureParsed =>
    simp only [run]
    cases h : s.1.ensureParsed s.2 with
    | error fault => exact .inr rfl
    | ok g => exact .inl (.ensureParsed h)
  | isMod => exact .inl .isMod
  | isFixed => exact .inl .isFixed
  | buildGraphs => exact .inl .buildGraphs
  | fixText => exact .inl .fixText
  | apply => exact .inl .apply
  | undo => exact .inl .undo

/-- Every operation is an event. -/
theorem Step.exists_event {d : Disk} {f g : ModFile} (h : Step d f g) :
    ∃ e : Event, e.run (f, d) = (g, d) := by
  cases h with
  | withCharacters characters => exact ⟨.withCharacters characters, rfl⟩
  | withAssumed assumed => exact ⟨.withAssumed assumed, rfl⟩
  | withVariants variants => exact ⟨.withVariants variants, rfl⟩
  | @withManaged pattern g hg =>
    exact ⟨.withManaged pattern, by simp [Event.run, hg, Except.toOption]⟩
  | setText text => exact ⟨.setText text, rfl⟩
  | read hg => exact ⟨.read, by simp [Event.run, hg, Except.toOption]⟩
  | clear => exact ⟨.clear, rfl⟩
  | ensureParsed hg => exact ⟨.ensureParsed, by simp [Event.run, hg, Except.toOption]⟩
  | isMod => exact ⟨.isMod, rfl⟩
  | isFixed => exact ⟨.isFixed, rfl⟩
  | buildGraphs => exact ⟨.buildGraphs, rfl⟩
  | fixText => exact ⟨.fixText, rfl⟩
  | apply => exact ⟨.apply, rfl⟩
  | undo => exact ⟨.undo, rfl⟩

theorem reachable_after {s : ModFile × Disk} (h : Reachable s.1) (history : List Event) :
    Reachable (after s history).1 := by
  induction history generalizing s with
  | nil => exact h
  | cons e history ih =>
    apply ih
    rcases e.step_run s with hstep | hsame
    · exact .step h hstep
    · rwa [hsame]

/-- **Histories lead to the reachable files** and to no others. -/
theorem reachable_iff_exists_history {f : ModFile} :
    Reachable f ↔ ∃ start d history, IsNew start ∧ (after (start, d) history).1 = f := by
  constructor
  · intro h
    induction h with
    | ofText text => exact ⟨_, .empty, [], .ofText text, rfl⟩
    | ofPath path => exact ⟨_, .empty, [], .ofPath path, rfl⟩
    | @step d f g _ hstep ih =>
      obtain ⟨start, d₀, history, hnew, rfl⟩ := ih
      obtain ⟨e, he⟩ := hstep.exists_event
      refine ⟨start, d₀, history ++ [.disk d, e], hnew, ?_⟩
      rw [after_append]
      exact congrArg Prod.fst he
  · rintro ⟨start, d, history, hnew, rfl⟩
    exact reachable_after hnew.reachable history

/-! ## Documents -/

/-- **The document after a history**, where one is kept, is that of the text as it stands, for the
characters as they are. -/
theorem parsed_after {start f : ModFile} {d d' : Disk} {history : List Event} {doc : Document}
    (hnew : IsNew start) (hf : after (start, d) history = (f, d')) (hdoc : f.parsed = some doc) :
    ∃ text, f.loaded = some text ∧ doc = Document.ofText f.characters f.assumed text := by
  have hreach : Reachable (after (start, d) history).1 := reachable_after hnew.reachable history
  rw [hf] at hreach
  obtain ⟨hloaded, rfl⟩ := isCurrent_of_reachable hreach doc hdoc
  obtain ⟨text, htext⟩ := Option.isSome_iff_exists.1 hloaded
  refine ⟨text, htext, ?_⟩
  rw [document, ModFile.text, htext, Option.getD_some]

/-- The path of a file that is missing at first. -/
def lostPath : Text := "a.ini".toList

/-- The file is missing, then there and read, then lost again; its text is set anew and written, and
it is read once more for other characters. -/
def lostHistory : List Event :=
  [.isMod, .withManaged "(".toList, .disk ⟨[([lostPath], .file blendText.utf8)]⟩, .isFixed,
    .disk .empty, .read, .setText "[Constants]".toList, .isMod, .write, .withCharacters [raiden],
    .ensureParsed]

/-- The document is that of the text that was set last. -/
theorem parsed_after_lost : ∃ f d doc, after (ofPath lostPath, .empty) lostHistory = (f, d) ∧
    f.parsed = some doc ∧ doc = Document.ofText [raiden] none "[Constants]".toList := by
  have hafter : after (ofPath lostPath, .empty) lostHistory = (_, _) := rfl
  obtain ⟨text, hloaded, hdoc⟩ := parsed_after (.ofPath lostPath) hafter rfl
  obtain rfl : "[Constants]".toList = text := Option.some.inj hloaded
  exact ⟨_, _, _, rfl, rfl, hdoc⟩

end Reskin.ModFile
