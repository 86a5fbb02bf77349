import Reskin.Proofs.Remap.Lines
import Reskin.Proofs.Remap.Missing

/-!
# The resources that erasure records

Of the sections that erasure removes it records the generated resources they refer to, directly or
through the sections they run. What is recorded is declared in the text that a pass reads, with the
files that the section names there; and what is left of the text declares none of it, for no header
that is left has a generated name. So whoever deletes the recorded files deletes none that the text
that is left loads through one of these sections.

## Main definitions

* `Remap.Refers`: the resources that some sections of a document refer to

## Main results

* `Remap.mem_generatedResources`: the resources of a pass, exactly
* `Remap.resources_of_erase`: what is recorded, and that nothing of it is left
-/

namespace Reskin.Remap

open CallGraph (Reaches)
open Ini (Document Line.isHeader Line.sectionName)

/-- Calls lead from one of the names, if it is declared, to a section that loads the resource. -/
def Refers (d : Document) (names : List Text) (resource : Text) : Prop :=
  ∃ r ∈ names, d.bodies.has r = true ∧ ∃ m b, Reaches d.bodies r m ∧
    d.bodies.get? m = some b ∧ resource ∈ b.valuesOf .vb1

section Resources

variable {folder : Text} {d : Document} {names : List Text} {r : Table Buffers}

theorem generatedResources_eq_ok : generatedResources folder d names = .ok r ↔
    ∃ g, (CallGraph.empty .blend).build (names.filter d.bodies.has) d.bodies = (none, g) ∧
      r = (((g.valuesOf .vb1).filter Naming.isGenerated).eraseDups.filterMap fun n =>
        (d.bodies.get? n).map fun b => (n, namedBuffers folder b)) := by
  unfold generatedResources
  dsimp only
  split
  · next n g hb => simp [hb]
  · next g hb => simp [hb, eq_comm]

/-- What the graph of a pass loads is what the names refer to. -/
theorem mem_valuesOf_vb1 {g : CallGraph}
    (h : (CallGraph.empty .blend).build (names.filter d.bodies.has) d.bodies = (none, g))
    {n : Text} : n ∈ g.valuesOf .vb1 ↔ Refers d names n := by
  obtain ⟨hbuilt, hroots, -, -⟩ := CallGraph.build_spec h
  rw [CallGraph.valuesOf, List.mem_flatMap]
  constructor
  · rintro ⟨e, he, hn⟩
    obtain ⟨hb, r, hr, hreach⟩ := CallGraph.reaches_of_build h he
    obtain ⟨hr, hhas⟩ := List.mem_filter.1 hr
    exact ⟨r, hr, hhas, e.1, e.2, hreach, hb, hn⟩
  · rintro ⟨r, hr, hhas, m, b, hreach, hb, hn⟩
    have hm : g.reached.has m = true := CallGraph.has_of_reaches
      ⟨hbuilt.declared, fun e he c hc => .inl (hbuilt.closed e he c hc)⟩
      (hroots r (List.mem_filter.2 ⟨hr, hhas⟩)) hreach
    obtain ⟨b', hb'⟩ := Table.has_iff.1 hm
    obtain rfl : b' = b := Option.some.inj ((hbuilt.declared _ hb').symm.trans hb)
    exact ⟨_, hb', hn⟩

/-- **The resources of a pass** are the generated ones that its names refer to and that are
declared, each with the files it names. -/
theorem mem_generatedResources (h : generatedResources folder d names = .ok r) {n : Text}
    {b : Buffers} : (n, b) ∈ r ↔ Naming.isGenerated n = true ∧ Refers d names n ∧
      ∃ body, d.bodies.get? n = some body ∧ b = namedBuffers folder body := by
  obtain ⟨g, hg, rfl⟩ := generatedResources_eq_ok.1 h
  simp only [List.mem_filterMap, List.mem_eraseDups, List.mem_filter, mem_valuesOf_vb1 hg,
    Option.map_eq_some_iff, Prod.mk.injEq]
  constructor
  · rintro ⟨n, ⟨hrefers, hgen⟩, body, hbody, rfl, rfl⟩
    exact ⟨hgen, hrefers, body, hbody, rfl⟩
  · rintro ⟨hgen, hrefers, body, hbody, rfl⟩
    exact ⟨n, ⟨hrefers, hgen⟩, body, hbody, rfl, rfl⟩

theorem mem_passResources {t : Text} {active : Bool}
    (h : passResources folder t active names = .ok r) {n : Text} {b : Buffers}
    (hm : (n, b) ∈ r) : Naming.isGenerated n = true ∧
      ∃ body, (Document.plain t).bodies.get? n = some body ∧ b = namedBuffers folder body := by
  cases active with
  | true =>
    obtain ⟨hgen, -, hbody⟩ := (mem_generatedResources h).1 hm
    exact ⟨hgen, hbody⟩
  | false =>
    obtain rfl : [] = r := by simpa [passResources] using h
    simp at hm

end Resources

/-- The resources of both passes, those of the first one before those of the second. -/
theorem resources_of_passes {folder t : Text} {e : Erasure} (h : erase folder t = .ok e) :
    ∃ first second, firstResources folder t = .ok first ∧ secondResources folder t = .ok second ∧
      e.resources = second.foldl (fun t r => t.put r.1 r.2) first := by
  rw [erase_eq] at h
  obtain ⟨first, hfirst, h⟩ := bind_eq_ok.1 h
  obtain ⟨second, hsecond, h⟩ := bind_eq_ok.1 h
  refine ⟨first, second, hfirst, hsecond, ?_⟩
  rw [← Except.ok.inj h]
  split <;> rfl

/-- Where no generated section stands outside of fences, the resources are those of the first
pass. -/
theorem resources_of_fences {folder t : Text} {e : Erasure} (h : erase folder t = .ok e)
    (hne : (Fence.cut t).1 ≠ []) (hs : e.sections = []) :
    generatedResources folder (Document.plain t) (fencedNames (Fence.cut t).1) =
      .ok e.resources := by
  obtain ⟨first, second, hfirst, hsecond, hres⟩ := resources_of_passes h
  have hstray : strayNames t = [] := (erase_spec h).2.1.symm.trans hs
  rw [secondResources, hstray] at hsecond
  obtain rfl : [] = second := by simpa [passResources] using hsecond
  rw [firstResources, passResources, if_pos (by simpa using hne)] at hfirst
  rw [hfirst, hres]
  rfl

theorem namedBuffers_spec (folder : Text) (b : Ini.Body) : (namedBuffers folder b).folder = folder ∧
    (namedBuffers folder b).rows.map (fun row => (row.place, row.path)) = b.placed .filename := by
  refine ⟨rfl, ?_⟩
  simp [namedBuffers, Buffers.ofBody, Function.comp_def]

/-- **What erasure records**: generated resources only, declared in the text or in what is left of it
without its fences, with the places and names of the files that the section loads there. What is
left in the end has no header with a generated name, so it declares none of them. -/
theorem resources_of_erase {folder t : Text} {e : Erasure} (h : erase folder t = .ok e) :
    (∀ l ∈ Text.lines e.text, Line.isHeader l = true →
      Naming.isGenerated (Line.sectionName l) = false) ∧
    ∀ n b, (n, b) ∈ e.resources → Naming.isGenerated n = true ∧
      (∃ text body, (text = t ∨ text = (Fence.cut t).2) ∧
        (Document.plain text).bodies.get? n = some body ∧ b.folder = folder ∧
        b.rows.map (fun row => (row.place, row.path)) = body.placed .filename) ∧
      ∀ characters assumed,
        (Document.ofText characters assumed e.text).bodies.has n = false := by
  have hleft (l : Text) (hl : l ∈ Text.lines e.text) (hh : Line.isHeader l = true) :
      Naming.isGenerated (Line.sectionName l) = false :=
    isGenerated_eq_false_of_clean hl (clean_of_erase h l hl) hh
  refine ⟨hleft, fun n b hm => ?_⟩
  obtain ⟨first, second, hfirst, hsecond, hres⟩ := resources_of_passes h
  have hfound : Naming.isGenerated n = true ∧ ∃ text body, (text = t ∨ text = (Fence.cut t).2) ∧
      (Document.plain text).bodies.get? n = some body ∧ b = namedBuffers folder body := by
    rcases Table.mem_foldl_put (hres ▸ hm) with hm | hm
    · obtain ⟨hgen, body, hbody, hb⟩ := mem_passResources hfirst hm
      exact ⟨hgen, t, body, .inl rfl, hbody, hb⟩
    · obtain ⟨hgen, body, hbody, hb⟩ := mem_passResources hsecond hm
      exact ⟨hgen, _, body, .inr rfl, hbody, hb⟩
  obtain ⟨hgen, text, body, htext, hbody, rfl⟩ := hfound
  obtain ⟨hfolder, hrows⟩ := namedBuffers_spec folder body
  refine ⟨hgen, ⟨text, body, htext, hbody, hfolder, hrows⟩, fun characters assumed => ?_⟩
  rw [← Bool.not_eq_true]
  intro hhas
  obtain ⟨l, hl, hh, rfl⟩ := Document.exists_header_of_has hhas
  simp [hleft l hl hh] at hgen

/-- An override of blend weights, and what an earlier run has generated for it without a fence. -/
def loadText : Text :=
  Text.unlines .lf ["[TextureOverrideRaidenBlend]".toList, "vb1 = ResourceRaidenBlend".toList,
    "[TextureOverrideRaidenRaidenBossRemapBlend]".toList,
    "vb1 = ResourceRaidenRaidenBossRemapBlend".toList,
    "[ResourceRaidenRaidenBossRemapBlend]".toList,
    "filename = RaidenRaidenBossRemapBlend.buf".toList]

/-- The generated sections of the text. -/
def loadBodies : Ini.Bodies :=
  [("TextureOverrideRaidenRaidenBossRemapBlend".toList,
      [.content [("vb1".toList, "ResourceRaidenRaidenBossRemapBlend".toList)]]),
    ("ResourceRaidenRaidenBossRemapBlend".toList,
      [.content [("filename".toList, "RaidenRaidenBossRemapBlend.buf".toList)]])]

/-- The resource that the generated override loads is recorded, and not left. -/
theorem resources_of_erase_load :
    ∃ e b, erase "mods".toList loadText = .ok e ∧ e.resources =
        [("ResourceRaidenRaidenBossRemapBlend".toList, b)] ∧
      b.rows.map (fun row => (row.place, row.path)) =
        [(0, "RaidenRaidenBossRemapBlend.buf".toList)] ∧
      e.files = ["mods/RaidenRaidenBossRemapBlend.buf".toList] ∧
      Naming.isGenerated "ResourceRaidenRaidenBossRemapBlend".toList = true ∧
      (Document.plain e.text).bodies.has "ResourceRaidenRaidenBossRemapBlend".toList = false := by
  have hcut : Fence.cut loadText = ([], loadText) := Fence.cut_of_not_mem (by decide +kernel)
  have hnames : strayNames loadText = loadBodies.names := by
    rw [strayNames, hcut]
    decide +kernel
  have hfirst : firstResources "mods".toList loadText = .ok [] := by
    rw [firstResources, hcut]
    rfl
  have hwalk : CallGraph.walkWithin (Document.plain loadText).bodies 2 []
      (loadBodies.names.filter (Document.plain loadText).bodies.has) = some (none, loadBodies) := by
    decide +kernel
  have hsecond : secondResources "mods".toList loadText = .ok
      [("ResourceRaidenRaidenBossRemapBlend".toList, namedBuffers "mods".toList
        [.content [("filename".toList, "RaidenRaidenBossRemapBlend.buf".toList)]])] := by
    rw [secondResources, hnames, hcut]
    refine generatedResources_eq_ok.2 ⟨_, CallGraph.build_eq_of_walkWithin hwalk, ?_⟩
    decide +kernel
  have he := erase_eq "mods".toList loadText
  rw [hfirst, hsecond] at he
  obtain ⟨e, he⟩ : ∃ e, erase "mods".toList loadText = .ok e := ⟨_, he⟩
  obtain ⟨first, second, hf, hs, hres⟩ := resources_of_passes he
  obtain rfl := Except.ok.inj (hf.symm.trans hfirst)
  obtain rfl := Except.ok.inj (hs.symm.trans hsecond)
  have hres : e.resources = _ := hres.trans (by rfl)
  obtain ⟨hgen, -, hleft⟩ := (resources_of_erase he).2 _ _ (by rw [hres]; exact List.mem_cons_self)
  refine ⟨e, _, he, hres, by decide +kernel, ?_, hgen, hleft [] none⟩
  rw [Erasure.files, hres]
  decide +kernel

end Reskin.Remap
