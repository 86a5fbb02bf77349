import Reskin.Proofs.ModFile.Variants

/-!
# The ids of a block

The variants of a block are chosen by the ids that whole graphs hold, and the ids are replaced
assignment by assignment, by a look-up of its own. Once a requested variant is supported, the two
cover the same ids: an id that a generated section has in its place is the entry of the old one for
the variant, or the old one if it is not known. It never stays for want of an entry.

## Main results

* `ModFile.Building.exists_sectionText`: a section that is generated, and where it stands
* `ModFile.ids_fixText`: the ids of generated sections
-/

namespace Reskin.ModFile

open Ini (Body Document)
open Remap (Part Sources bind_eq_ok exists_of_mem_forall₂ forall₂_of_collect headerOf layout textOf)

/-- Without a root section nothing is generated. -/
theorem fixText_of_no_root {f f' : ModFile} {d : Disk} {doc : Document} {text : Text}
    (hf : f.IsCurrent) (hdoc : f.parsed = some doc) (hroot : doc.root = none)
    (h : f.fixText d = (.ok text, f')) : text = [] := by
  have hread : f.ensureParsed d = .ok f :=
    ensureParsed_of_parsed (load_of_loaded (hf doc hdoc).1 d) hdoc
  unfold fixText buildGraphs at h
  split at h
  · simp at h
  · simp only [hread, hdoc, hroot, Prod.mk.injEq, Except.ok.injEq] at h
    exact h.1.symm

/-- **A section that is generated** for one of a graph, with its name for the variant, stands in the
block. -/
theorem Building.exists_sectionText {f : ModFile} {d : Disk} (b : Building f d)
    (hstyles : b.read.HasStyles) {c : Character} {block v : Text}
    (hblock : (b.built.sources c).block b.built.toFix.toList (some c.title) = .ok block)
    (hv : v ∈ b.built.toFix.toList) {part : Part} {e : Text × Body}
    (he : e ∈ (b.built.graph part).reached) :
    ∃ u, textOf ((b.built.sources c).write part) (layout v (part.style.rename e.1 v) e.1 e.2) =
        .ok u ∧
      (b.built.sources c).sectionText part v e = .ok (headerOf (part.style.rename e.1 v) ++ u) ∧
      headerOf (part.style.rename e.1 v) ++ u <:+: block := by
  have hname : ((b.built.sources c).graph part).nameFor e.1 v = part.style.rename e.1 v := by
    rw [graph_sources, b.namesByStyle_graph part, b.style_built, hstyles part]
  have he' : e ∈ ((b.built.sources c).graph part).reached := by rwa [graph_sources]
  obtain ⟨texts, htexts⟩ := Sources.exists_sections_of_block hblock hv
  obtain ⟨t, -, ht⟩ := exists_of_mem_forall₂ (forall₂_of_collect (htexts part)).flip he'
  have hinfix := Sources.infix_block b.isEmpty_blend hblock hv he' ht
  obtain ⟨u, hu, htext⟩ := bind_eq_ok.1 ht
  obtain rfl := Except.ok.inj htext
  rw [hname] at hu ht hinfix
  exact ⟨u, hu, ht, hinfix⟩

/-- **The ids of generated sections**, where a requested variant is supported. Without a root
section there are none. Otherwise each section of the graph of the root, and of the graph of other
sections, has a generated one in the text for every variant. Entry by entry its ids are those of the
section it stands in for: replaced by their entries for the variant if they are known, and the same
if they are not. No known id is without an entry. -/
theorem ids_fixText {f f' : ModFile} {d : Disk} (hf : Reachable f) {doc : Document} {text : Text}
    (hdoc : f.parsed = some doc) (h : f.fixText d = (.ok text, f')) {c : Character}
    (hc : f.availableCharacter = some c) (hsome : ∃ w ∈ f.requested, c.Supports f'.HasId w) :
    (doc.root = none → text = []) ∧
      ∀ root, doc.root = some root → ∀ v ∈ f'.toFix.toList, ∀ part, part ≠ .resources →
        ∀ e ∈ (f'.graph part).reached,
          (∃ t us, (f'.sources c).sectionText part v e = .ok t ∧ t <:+: text ∧
            t = headerOf (part.style.rename e.1 v) ++ us.flatten ∧
            List.Forall₂ (c.WritesIds v) e.2 us) ∧
          ∀ (kind : Asset.Kind) id, e.2.Assigns kind.key id →
            c.replace kind id v ≠ .error (.unmapped id v) := by
  have hcurrent := isCurrent_of_reachable hf
  refine ⟨fun hroot => fixText_of_no_root hcurrent hdoc hroot h, fun root hroot => ?_⟩
  obtain ⟨b, c', hread, rfl, hc', hblock⟩ := exists_building_of_fixText hcurrent hdoc hroot h
  obtain rfl : c = c' := Option.some.inj (hc.symm.trans hc')
  intro v hv part hpart e he
  have hsupports : c.Supports b.built.HasId v :=
    ((b.mem_toFix_iff hcurrent (by rw [b.availableCharacter_built, hread, hc]) hsome).1 hv).2
  have hids (kind : Asset.Kind) (id : Text) (hid : e.2.Assigns kind.key id) :
      c.knows kind id = true → c.Replaces kind id v :=
    hsupports.replaces kind id ⟨part, e, he, hid⟩
  refine ⟨?_, fun kind id hid => Character.replace_ne_unmapped (hids kind id hid)⟩
  have hnames (part : Part) : ((b.built.sources c).graph part).NamesByStyle := by
    rw [graph_sources]
    exact b.namesByStyle_graph part
  obtain ⟨u, hu, hsection, hinfix⟩ :=
    b.exists_sectionText (by rw [hread]; exact hasStyles_of_reachable hf) hblock hv he
  obtain ⟨us, rfl, hus⟩ := Sources.forall₂_writesIds hnames rfl hpart hids hu rfl
  exact ⟨_, us, hsection, hinfix, rfl, hus⟩

/-- The section that is generated for an override with an id that is known. -/
theorem ids_fixText_knowing : ∃ us, headerOf "TextureOverrideRaidenRaidenBossRemapBlend".toList ++
      us.flatten <:+: (knowingApplication .empty).block ∧
    List.Forall₂ (knowingRaiden.WritesIds "RaidenBoss".toList)
      [.content [("hash".toList, "111".toList)]] us := by
  have hreached : Reachable (knowingApplication .empty).read :=
    .step reachable_knowingFile (.ensureParsed (knowingApplication .empty).ensureParsed_eq)
  have hrequested : "RaidenBoss".toList ∈ (knowingApplication .empty).read.requested := by decide
  obtain ⟨-, hall⟩ := ids_fixText hreached (knowingApplication .empty).parsed_eq
    (knowingApplication .empty).fixText_eq (knowingApplication .empty).character_eq
    ⟨_, hrequested, supports_knowing _⟩
  have hv : "RaidenBoss".toList ∈ (knowingApplication .empty).built.toFix.toList := by
    decide +kernel
  obtain ⟨⟨t, us, -, hinfix, rfl, hus⟩, -⟩ := hall _ (knowingApplication .empty).root_eq _ hv
    .blend (by decide) _ (List.mem_singleton_self _)
  exact ⟨us, hinfix, hus⟩

end Reskin.ModFile
