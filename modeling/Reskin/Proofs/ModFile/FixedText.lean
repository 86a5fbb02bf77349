import Reskin.Proofs.Ini.BlankEnd
import Reskin.Proofs.ModFile.Apply

/-!
# Texts with generated content

What a text becomes when generated content is added to it depends on what the text says, on the text
up to its blank end, and on its line ending. A text that ends in data says the same without its
blank end, and if that end does not hold its first line break, it becomes the same as well.

## Main definitions

* `ModFile.fixedText`: what a text becomes
* `ModFile.Settled`: texts with a blank end that does not matter

## Main results

* `ModFile.Application.exists_of_agrees`: documents that say the same give the same block
* `ModFile.fixedText_trimEnd`: a settled text and the same without its blank end
-/

namespace Reskin

open Ini (Document EndsInData)

namespace ModFile

/-- **What a text becomes** in a file of the same characters, variants and resources; `none` if
nothing is added to it. -/
def fixedText (f : ModFile) (t : Text) : Option Text :=
  match (f.setText t).apply .empty with
  | (.ok (.applied _), g) => some g.text
  | _ => none

variable {f : ModFile} {t t' n : Text} {d : Disk}

/-- The disk does not matter where a text is loaded. -/
def Application.onDisk (a : Application (f.setText t) d) (d' : Disk) :
    Application (f.setText t) d' :=
  { a with ensureParsed_eq := a.ensureParsed_eq }

theorem fixedText_eq_some_iff (d : Disk) :
    f.fixedText t = some n ↔ ∃ a : Application (f.setText t) d, a.text = n := by
  unfold fixedText
  constructor
  · intro h
    split at h
    · next variants g happly =>
      obtain ⟨a, rfl, -⟩ := exists_application happly
      obtain rfl : a.text = n := by simpa using h
      exact ⟨a.onDisk d, rfl⟩
    · simp at h
  · rintro ⟨a, rfl⟩
    rw [(a.onDisk .empty).apply_eq]
    exact congrArg some (a.onDisk .empty).text_result

/-! ## Documents that say the same -/

theorem otherRoots_of_agrees {doc doc' : Document} (h : doc'.Agrees doc) (c : Option Character)
    (blend : CallGraph) : otherRoots c blend doc' = otherRoots c blend doc := by
  have key (doc : Document) (p : Text → Ini.Body → Bool) :
      (doc.sections.filter fun s => p s.name s.body).map (·.name) =
        (doc.bodies.filter fun b => p b.1 b.2).map (·.1) := by
    rw [Document.bodies, List.filter_map, List.map_map]
    rfl
  cases c with
  | none => rfl
  | some c =>
    have hkey := key doc fun n b => !blend.has n && hasKnownId c b
    have hkey' := key doc' fun n b => !blend.has n && hasKnownId c b
    rw [h.bodies] at hkey'
    exact hkey'.trans hkey.symm

/-- Graphs built from another document that says the same, in a file with another text. -/
theorem buildFrom_of_agrees {f k : ModFile} {doc doc' : Document} {root : Text}
    (h : doc'.Agrees doc) (hb : f.buildFrom doc root = (.ok (), k)) (loaded : Option Text)
    (parsed : Option Document)
    (hc : { f with loaded, parsed }.availableCharacter = f.availableCharacter) :
    { f with loaded, parsed }.buildFrom doc' root = (.ok (), { k with loaded, parsed }) := by
  obtain ⟨blend, others, resources, hblend, hothers, hresources, rfl⟩ := exists_of_buildFrom hb
  have hblended (g : CallGraph) : { f with loaded, parsed, blend := g }.availableCharacter =
      f.availableCharacter := hc
  have hchosen : { f with loaded, parsed, blend, others, resources }.availableCharacter =
      { f with blend, others, resources }.availableCharacter := hc
  simp only [buildFrom, h.bodies, hblend, otherRoots_of_agrees h, hblended, hothers, hresources]
  rw [withVariantsChosen, withVariantsChosen, hchosen]
  rfl

/-- **Documents that say the same** give the same block. -/
theorem Application.exists_of_agrees (a : Application (f.setText t) d)
    (h : (Document.ofText f.characters f.assumed t').Agrees
      (Document.ofText f.characters f.assumed t)) :
    ∃ a' : Application (f.setText t') d, a'.block = a.block := by
  obtain ⟨read, document, root, character, built, block, hread, hparsed, hfixed, hroot, hcharacter,
    hbuild, hblock⟩ := a
  obtain rfl : (f.setText t).withDocument = read := Except.ok.inj hread
  obtain rfl : Document.ofText f.characters f.assumed t = document := Option.some.inj hparsed
  have hc : (f.setText t').withDocument.availableCharacter =
      (f.setText t).withDocument.availableCharacter := by
    exact congrArg (Option.or · f.assumed) h.character
  exact ⟨{
    read := (f.setText t').withDocument
    document := Document.ofText f.characters f.assumed t'
    root, character, block
    built := { built with
      loaded := some t'
      parsed := some (Document.ofText f.characters f.assumed t') }
    ensureParsed_eq := rfl
    parsed_eq := rfl
    isFixed_eq := h.isFixed.trans hfixed
    root_eq := h.root.trans hroot
    character_eq := hc.trans hcharacter
    buildFrom_eq := buildFrom_of_agrees h hbuild _ _ hc
    block_eq := hblock }, rfl⟩

/-! ## Texts without their blank end -/

/-- **Texts with a blank end that does not matter**: there is none, or it holds neither the end of
the first line nor of a header or a control line. -/
def Settled (t : Text) : Prop := Text.trimEnd t = t ∨ '\n' ∈ Text.trimEnd t ∧ EndsInData t

/-- **A settled text** becomes what it becomes without its blank end. -/
theorem fixedText_trimEnd (ht : Settled t) (h : f.fixedText t = some n) :
    f.fixedText (Text.trimEnd t) = some n := by
  rcases ht with he | ⟨hn, hdata⟩
  · rwa [he]
  · obtain ⟨a, rfl⟩ := (fixedText_eq_some_iff .empty).1 h
    obtain ⟨a', hblock⟩ := a.exists_of_agrees (Document.agrees_trimEnd hdata _ _)
    refine (fixedText_eq_some_iff .empty).2 ⟨a', ?_⟩
    have hread {t : Text} (a : Application (f.setText t) .empty) : a.read.text = t := by
      rw [← Except.ok.inj a.ensureParsed_eq]
      rfl
    rw [Application.text, Application.text, hread, hread, hblock, appended_eq, appended_eq, ahead,
      ahead, Text.lineEnding_trimEnd hn, Text.trimEnd_trimEnd]

end ModFile

end Reskin
