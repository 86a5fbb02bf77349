import Reskin.Proofs.ModFile.Readings

/-!
# What is added to a text

Generated content is written behind the text without its blank end. The heading of the block and
the credit fall into the last section that was there, where they say nothing; and a section that is
generated under a name that is taken is passed over. So the old sections come first and keep their
names and entries. One thing may change: if the last line that is not blank is a control line, then
blanks behind it are gone.

## Main definitions

* `Ini.Kept`: a section that is kept

## Main results

* `Ini.Kept.of_survives`: what survives without the blank end is kept
* `ModFile.readings_ahead`: what is read ahead of a block
* `ModFile.Application.exists_sections_result`: the old sections, and generated ones behind them
* `ModFile.sections_apply`: the sections of a text that content is added to
-/

namespace Reskin

open Ini (Document)
open Naming (blendName fixName resourceName)
open Remap (Copy Sources)

namespace Ini

/-! ## Sections that are kept -/

/-- **A section that is kept** when content is added to a text: it has the same name, the same
assignments between its control lines, and the same control lines. Only if the last line of the text
that is not blank is its last control line, blanks behind that may be gone. -/
structure Kept (t : Text) (s s' : Section) : Prop where
  name : s'.name = s.name
  rows : s'.body.rows.map (·.2) = s.body.rows.map (·.2)
  controls : s'.body.controls = s.body.controls ∨ ∃ cs line, s.body.controls = cs ++ [line] ∧
    s'.body.controls = cs ++ [Text.trimEnd line] ∧ s.ReachesEnd t ∧
    (Text.lines (Text.trimEnd t)).getLast? = some (Text.trimEnd line)

/-- A section that survives without the blank end of the text, and is read again as it was. -/
theorem Kept.of_survives {t : Text} {s s' s'' : Section} (h : Survives (Text.trimEnd t) s s')
    (hend : s'.ReachesEnd (Text.trimEnd t) → s.ReachesEnd t) (hread : s''.reading = s'.reading) :
    Kept t s s'' := by
  obtain ⟨hname, hdense⟩ := Prod.mk.inj hread
  have hrows (b : Body) : b.rows.map (·.2) = (Body.rowsFrom 0 b.dense).map (·.2) :=
    (Body.map_rowsFrom_dense 0 0 b).symm
  refine ⟨hname.trans h.name, ?_, ?_⟩
  · rw [hrows, hrows s.body, hdense]
    rcases h.entries with he | ⟨es, line, he, he', -⟩
    · rw [he]
    · rw [he, he', Body.rowsFrom_append_control]
  · rw [← Body.controls_dense s''.body, ← Body.controls_dense s.body, hdense]
    rcases h.entries with he | ⟨es, line, he, he', hstop, hlast⟩
    · exact .inl (by rw [he])
    · refine .inr ⟨Body.controls es, line, ?_, ?_, hend hstop, hlast⟩
      · rw [he, Body.controls_append]
        rfl
      · rw [he', Body.controls_append]
        rfl

/-- What sections say decides what is kept of them. -/
theorem forall₂_kept_of_map_reading {t : Text} {ss ss' kept : List Section}
    (h : List.Forall₂ (fun s s' => Survives (Text.trimEnd t) s s' ∧
      (s'.ReachesEnd (Text.trimEnd t) → s.ReachesEnd t)) ss ss')
    (he : kept.map Section.reading = ss'.map Section.reading) : List.Forall₂ (Kept t) ss kept := by
  induction h generalizing kept with
  | nil =>
    obtain rfl : kept = [] := by simpa using he
    exact .nil
  | cons hs _ ih =>
    obtain ⟨k, kept, rfl, hk, hkept⟩ := List.map_eq_cons_iff.1 he
    exact .cons (.of_survives hs.1 hs.2 hk) (ih hkept)

/-- Sections that are kept have their names. -/
theorem map_name_of_kept {t : Text} {ss kept : List Section} (h : List.Forall₂ (Kept t) ss kept) :
    kept.map (·.name) = ss.map (·.name) :=
  Remap.map_eq_map_of_forall₂ h fun _ _ hs => hs.name

end Ini

namespace ModFile

/-- **What is read ahead of a block** is what is read without the blank end. -/
theorem readings_ahead (t : Text) :
    Ini.readings (Text.lines (ahead t)) = Ini.readings (Text.lines (Text.trimEnd t)) := by
  obtain ⟨a, l, hal, ha, hl⟩ := Text.exists_whole_append (Text.trimEnd t)
  have hblank := (Text.lineEnding t).blank
  generalize he : Text.lineEnding t = e at hblank
  have hahead : ahead t = a ++ (l ++ e.text ++ (e.text ++ e.text)) := by
    simp [ahead, hal, he]
  have hidle : ∀ b ∈ Text.lines (e.text ++ e.text), Ini.Line.isIdle b = true := fun b hb =>
    Ini.Line.isIdle_of_blank fun c hc =>
      (hblank.append hblank) c ((Text.infix_of_mem_lines hb).subset hc)
  rw [hahead, hal, Text.lines_append ha, Text.lines_append ha, Text.lines_line_append hl,
    List.append_cons, Ini.readings_append_idle _ hidle]
  by_cases hne : l = []
  · have hend : ∀ b ∈ [l ++ e.text], Ini.Line.isIdle b = true := by
      intro b hb
      rw [List.mem_singleton.1 hb, hne]
      exact Ini.Line.isIdle_of_blank hblank
    rw [Ini.readings_append_idle _ hend, hne, Text.lines, List.append_nil]
  · rw [Text.lines_of_not_mem hl hne]
    have hsame : ∀ m ∈ Text.lines a, Ini.Line.Alike m m := fun m _ => .refl m
    exact Ini.readings_of_alike (List.rel_append (List.forall₂_same.2 hsame)
      (.cons (Ini.Line.alike_append_ending e l) .nil))

namespace Application

variable {f : ModFile} {d : Disk} (a : Application f d) (hf : f.IsCurrent)
  (hplain : a.character.HasPlainVariants) (hids : a.character.HasLineIds)

include hf hplain hids

/-- **The sections of the text**: first those that it had, then some of the generated ones. -/
theorem exists_sections_result : ∃ kept added, a.result.document.sections = kept ++ added ∧
    List.Forall₂ (Ini.Kept a.read.text) a.read.document.sections kept ∧
    ∀ x ∈ added, ∃ c ∈ a.built.copies, x.name = a.built.nameOf c := by
  obtain ⟨rs, hread, hrs⟩ := a.readings_text hf hplain hids
  rw [readings_ahead] at hread
  rw [← Ini.map_reading_toSection, ← Ini.map_reading_toSection] at hread
  obtain ⟨old, new, hsections, hold, hnew⟩ := List.map_eq_append_iff.1 hread
  refine ⟨Ini.firstOfEachName old,
    (Ini.firstOfEachName new).filter fun s => decide (s.name ∉ old.map (·.name)), ?_, ?_, ?_⟩
  · show Ini.firstOfEachName
      ((Ini.chunks 0 (Text.lines a.result.text)).map Ini.Chunk.toSection) = _
    rw [text_result, hsections, Ini.firstOfEachName_append]
  · refine Ini.forall₂_kept_of_map_reading (Ini.forall₂_reachesEnd_trimEnd _ _ _) ?_
    exact Ini.map_firstOfEachName (fun _ => rfl) hold
  · intro x hx
    have hmem : x ∈ new := Ini.mem_of_mem_firstOfEachName (List.mem_of_mem_filter hx)
    have hname : x.name ∈ rs.map (·.1) :=
      List.mem_map.2 ⟨x.reading, hnew ▸ List.mem_map_of_mem hmem, rfl⟩
    rw [Sources.map_fst_of_readAs hrs, nameOf_sources] at hname
    obtain ⟨c, hc, he⟩ := List.mem_map.1 hname
    exact ⟨c, hc, by rw [← he, a.trim_nameOf hf hplain hc]⟩

omit hplain hids in
/-- Generated sections stand in for sections of the text. -/
theorem source_mem_names {c : Copy} (hc : c ∈ a.built.copies) :
    c.source ∈ a.read.document.names := by
  obtain ⟨s, hs, he⟩ := List.mem_map.1 (Table.mem_of_get?_eq_some (a.get?_bodies_of_copy hf hc))
  exact List.mem_map.2 ⟨s, hs, congrArg Prod.fst he⟩

omit hf hplain hids in
/-- The name of a generated section. -/
theorem nameOf_copy (hstyles : f.HasStyles) (c : Copy) :
    a.built.nameOf c = blendName c.source c.variant ∨
      a.built.nameOf c = fixName c.source c.variant ∨
      a.built.nameOf c = resourceName c.source c.variant := by
  have hstyle : (a.built.graph c.part).style = c.part.style :=
    a.building.hasStyles_built hstyles c.part
  rw [nameOf_eq, hstyle]
  cases c.part with
  | blend => exact .inl rfl
  | others => exact .inr (.inl rfl)
  | resources => exact .inr (.inr rfl)

end Application

/-- **Content is only added.** The text without its blank end stays in front. Its sections come
first, in their order, and each of them is kept; every further section has a name that is generated
from the name of one of them for a variant that was applied. -/
theorem sections_apply {f f' g : ModFile} {d : Disk} {variants : VariantSet} (hf : Reachable f)
    (hplain : ∀ c, f.MayBelongTo c → c.HasPlainVariants)
    (hids : ∀ c, f.MayBelongTo c → c.HasLineIds) (hload : f.load d = .ok g)
    (h : f.apply d = (.ok (.applied variants), f')) :
    Text.trimEnd g.text <+: f'.text ∧
      ∃ kept added, f'.document.sections = kept ++ added ∧
        List.Forall₂ (Ini.Kept g.text) g.document.sections kept ∧
        ∀ x ∈ added, ∃ n ∈ g.document.names, ∃ v ∈ variants.toList,
          x.name = blendName n v ∨ x.name = fixName n v ∨ x.name = resourceName n v := by
  have hcurrent := isCurrent_of_reachable hf
  obtain ⟨a, rfl, rfl⟩ := exists_application h
  have hc := a.mayBelongTo_character hcurrent
  obtain ⟨kept, added, hsections, hkept, hadded⟩ :=
    a.exists_sections_result hcurrent (hplain _ hc) (hids _ hc)
  have htext := a.text_read hload
  have hread : a.read.document.sections = g.document.sections := by
    rw [document, document, htext]
    rfl
  refine ⟨?_, kept, added, hsections, ?_, fun x hx => ?_⟩
  · rw [a.text_result, Application.text, htext, appended_eq, ahead]
    simp only [List.append_assoc]
    exact List.prefix_append _ _
  · rwa [htext, hread] at hkept
  · obtain ⟨c, hc, hname⟩ := hadded x hx
    have hsource := a.source_mem_names hcurrent hc
    rw [Document.names, hread] at hsource
    have hshape := a.nameOf_copy (hasStyles_of_reachable hf) c
    rw [← hname] at hshape
    exact ⟨c.source, hsource, c.variant, (mem_copies.1 hc).1, hshape⟩

/-- The two sections of the text are kept, and two generated ones stand behind them. -/
theorem sections_apply_weights : ∃ kept added,
    (weightsApplication .empty).result.document.sections = kept ++ added ∧
      kept.map (·.name) = ["TextureOverrideRaidenBlend".toList, "ResourceRaidenBlend".toList] ∧
      added.map (·.name) = ["TextureOverrideRaidenRaidenBossRemapBlend".toList,
        "ResourceRaidenRaidenBossRemapBlend".toList] := by
  have hplain (c : Character) (hc : (raidenFile weightsText).MayBelongTo c) : c.IsPlain :=
    (isPlain_raidenFile weightsText).of_mayBelongTo hc
  obtain ⟨-, kept, added, hsections, hkept, -⟩ := sections_apply (reachable_raidenFile weightsText)
    (fun c hc => (hplain c hc).hasPlainVariants) (fun c hc => (hplain c hc).hasLineIds) rfl
    (weightsApplication .empty).apply_eq
  have hold : kept.map (·.name) =
      ["TextureOverrideRaidenBlend".toList, "ResourceRaidenBlend".toList] := by
    rw [Ini.map_name_of_kept hkept]
    decide +kernel
  refine ⟨kept, added, hsections, hold, ?_⟩
  have hall : (weightsApplication .empty).result.document.sections.map (·.name) =
      kept.map (·.name) ++ added.map (·.name) := by
    rw [hsections, List.map_append]
  rw [hold, document, Application.text_result] at hall
  refine List.append_cancel_left (hall.symm.trans ?_)
  decide +kernel

/-! ## A control line in front of blank lines -/

/-- A blend override with a control line that has a blank behind it, and a blank line. -/
def blankText : Text :=
  Text.unlines .lf ["[TextureOverrideRaidenBlend]".toList, "hash = 111".toList, "endif ".toList, []]

/-- What is generated for the one variant. -/
def blankPart : Text :=
  Text.unlines .lf [[], [], "; ***** RaidenBoss *****".toList,
    "[TextureOverrideRaidenRaidenBossRemapBlend]".toList, "hash = 111".toList, "endif ".toList,
    []]

/-- The stages of an application to the text. -/
def blankApplication (d : Disk) : Application (raidenFile blankText) d :=
  .ofWalks 2 "TextureOverrideRaidenBlend".toList raiden
    (raidenFile blankText).document.bodies [] [] [blankPart]

/-- **A control line ahead of a blank line** loses the blank behind it, although it is not the last
line. -/
theorem sections_apply_blank :
    (∀ c, (raidenFile blankText).MayBelongTo c → c.IsPlain) ∧
      (raidenFile blankText).apply .empty = (.ok (.applied (blankApplication .empty).built.toFix),
        (blankApplication .empty).result) ∧
      (Text.lines blankText).getLast? = some ['\n'] ∧
      (raidenFile blankText).document.sections.head?.map (·.body.controls) =
        some ["endif ".toList] ∧
      (blankApplication .empty).result.document.sections.head?.map (·.body.controls) =
        some ["endif".toList] := by
  refine ⟨fun c hc => (isPlain_raidenFile blankText).of_mayBelongTo hc,
    (blankApplication .empty).apply_eq, by decide +kernel, by decide +kernel, ?_⟩
  rw [document, Application.text_result]
  decide +kernel

end ModFile

end Reskin
