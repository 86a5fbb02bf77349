import Reskin.Proofs.Ini.Readings
import Reskin.Proofs.Remap.Missing

/-!
# Sections that erasure keeps

The second pass works on lines: it drops a generated section from its header up to the next one, and
single lines of boilerplate elsewhere. Seen by sections, it drops those with a generated name and
leaves every other one with the same entries, for boilerplate is made of comments. So where no fence
is cut out, what is left has exactly the sections without a generated name, in the same order.

## Main results

* `Remap.readings_kept`: what the lines say that the second pass keeps
* `Remap.forall₂_sections_erase`: the sections that are left where no fence is cut out
-/

namespace Reskin.Remap

open Ini (Chunk Document Section Survives Line.isHeader Line.isGeneratedHeader Line.isBoilerplate)

/-- Boilerplate is made of comments. -/
theorem isIdle_of_isBoilerplate {line : Text} (h : Line.isBoilerplate line = true) :
    Ini.Line.isIdle line = true := by
  unfold Line.isBoilerplate Ini.Line.afterSemicolon? at h
  split at h
  · simp at h
  next rest hd =>
  obtain ⟨w, hw, hline⟩ := Text.exists_append_trimStart line
  rw [Text.dropStart?_eq_some] at hd
  have htrim : Text.trim line = Text.trim (Text.trimStart line) := by
    conv => lhs; rw [hline, Text.trim_append_blank_left hw]
  rw [Ini.Line.isIdle_congr htrim, hd]
  exact Ini.Line.isIdle_comment _

/-- **Below a header** the second pass keeps nothing if the header is generated, and all but
boilerplate if not. -/
theorem takeWhile_kept (ls : List Text) :
    (sweep true ls).kept.takeWhile (!Line.isHeader ·) = [] ∧
      (sweep false ls).kept.takeWhile (!Line.isHeader ·) =
        (ls.takeWhile (!Line.isHeader ·)).filter (!Line.isBoilerplate ·) := by
  induction ls with
  | nil => exact ⟨rfl, rfl⟩
  | cons l ls ih =>
    rw [sweep, sweep]
    by_cases hh : Line.isHeader l = true
    · rw [if_pos hh, if_pos hh]
      by_cases hg : Line.isGeneratedHeader l = true
      · simp [hh, hg, ih.1]
      · simp [hh, hg]
    · rw [if_neg hh, if_neg hh]
      by_cases hb : Line.isBoilerplate l = true
      · simp [hh, hb, ih.1, ih.2]
      · simp [hh, hb, ih.1, ih.2]

/-- **What the kept lines say** is what the lines say, without the generated sections. -/
theorem readings_kept (removing : Bool) (start : Nat) (ls : List Text) :
    Ini.readings (sweep removing ls).kept =
      ((Ini.chunks start ls).filter (!Line.isGeneratedHeader ·.header)).map Chunk.reading := by
  -- Induction on the lines; a header begins a chunk that is dropped or kept.
  induction ls generalizing removing start with
  | nil => rfl
  | cons l ls ih =>
    rw [sweep, Ini.chunks]
    by_cases hh : Line.isHeader l = true
    · rw [if_pos hh, if_pos hh]
      by_cases hg : Line.isGeneratedHeader l = true
      · rw [if_pos hg, List.filter_cons_of_neg (by simp [hg])]
        exact ih true (start + 1)
      · rw [if_neg hg, List.filter_cons_of_pos (by simp [hg]), List.map_cons,
          Ini.readings_cons_header hh, ih false (start + 1), (takeWhile_kept ls).2]
        congr 1
        refine Prod.ext rfl (Ini.Body.dense_ofLines_congr ?_)
        rw [List.filter_filter]
        refine List.filter_congr fun x _ => ?_
        cases hx : Ini.Line.isIdle x with
        | true => rfl
        | false =>
          have : Line.isBoilerplate x = false := by
            by_contra hb
            rw [isIdle_of_isBoilerplate (by simpa using hb)] at hx
            simp at hx
          simp [this]
    · rw [if_neg hh, if_neg hh]
      cases removing with
      | true => exact ih true (start + 1)
      | false =>
        by_cases hb : Line.isBoilerplate l = true
        · simpa [hb] using ih false (start + 1)
        · simpa [hb, Ini.readings_cons_of_not_header (by simpa using hh)] using
            ih false (start + 1)

/-- Seen by sections, the second pass drops those with a generated name. -/
theorem map_reading_kept (characters : List Character) (assumed : Option Character) (t : Text) :
    ((Document.ofText characters assumed t).sections.filter
        (!Naming.isGenerated ·.name)).map Section.reading =
      (Document.ofText characters assumed
        (sweep false (Text.lines t)).kept.flatten).sections.map Section.reading := by
  have hheaders : (Ini.chunks 0 (Text.lines t)).filter (!Line.isGeneratedHeader ·.header) =
      (Ini.chunks 0 (Text.lines t)).filter (!Naming.isGenerated ·.name) := by
    refine List.filter_congr fun c hc => ?_
    obtain ⟨xs, ys, he, hh, -⟩ := Ini.mem_chunks hc
    have hmem : c.header ∈ Text.lines t := by simp [he]
    rw [Bool.eq_iff_iff, Bool.not_eq_true', Bool.not_eq_true', ← Bool.not_eq_true,
      ← Bool.not_eq_true, Ini.Line.isGeneratedHeader_iff_of_mem_lines hmem hh]
    rfl
  have hkept := readings_kept false 0 (Text.lines t)
  rw [hheaders] at hkept
  unfold Document.ofText Document.ofLines
  simp only
  rw [Text.lines_flatten_of_sublist (kept_sublist _ _),
    ← Ini.firstOfEachName_filter fun n => !Naming.isGenerated n]
  refine Ini.map_firstOfEachName (fun _ => rfl) ?_
  rw [List.filter_map, List.map_map, List.map_map]
  exact hkept.symm

/-- **Erasure keeps every section without a generated name**, in order and with its entries, and no
other one, where no fence is cut out of the text. -/
theorem forall₂_sections_erase {folder t : Text} {e : Erasure} (h : erase folder t = .ok e)
    (hb : e.blocks = 0) (characters : List Character) (assumed : Option Character) :
    List.Forall₂ (Survives e.text)
      ((Document.ofText characters assumed t).sections.filter (!Naming.isGenerated ·.name))
      (Document.ofText characters assumed e.text).sections := by
  obtain ⟨hblocks, -, -, htext⟩ := erase_spec h
  have hcut : Fence.cut t = ([], t) :=
    Fence.cut_eq_self_of_nil (List.length_eq_zero_iff.1 (hblocks ▸ hb))
  refine Ini.forall₂_survives_of_map_reading (map_reading_kept characters assumed t) ?_
  rw [hcut] at htext
  by_cases hu : e.isUnchanged = true
  · obtain ⟨-, hclean⟩ := leavesAlone_iff.1 ⟨e, h, hu⟩
    rw [sweep_of_clean hclean, Text.flatten_lines, htext, if_pos hu]
    exact List.forall₂_same.2 fun s _ => .of_entries rfl (.inl rfl)
  · rw [if_neg hu] at htext
    rw [htext]
    exact Ini.forall₂_sections_trimEnd characters assumed _

/-- A generated section between two others, the second of which has boilerplate in it and ends in a
control line with blanks behind it. -/
def strayText : Text :=
  Text.unlines .lf ["[TextureOverrideRaidenBlend]".toList, "hash = 111".toList,
    "[TextureOverrideRaidenRaidenBossRemapBlend]".toList, "hash = 222".toList,
    "[CommandListEnd]".toList, "; ***** RaidenBoss *****".toList, "if $on  ".toList]

/-- The sections of the text. -/
def strayBodies : Ini.Bodies :=
  [("TextureOverrideRaidenBlend".toList, [.content [("hash".toList, "111".toList)]]),
    ("TextureOverrideRaidenRaidenBossRemapBlend".toList,
      [.content [("hash".toList, "222".toList)]]),
    ("CommandListEnd".toList, [.content [], .control "if $on  ".toList])]

/-- The generated section goes, the two others stay, and the blanks behind the control line go. -/
theorem forall₂_sections_erase_stray :
    ∃ e, erase [] strayText = .ok e ∧ e.blocks = 0 ∧ e.text = Text.unlines .lf
        ["[TextureOverrideRaidenBlend]".toList, "hash = 111".toList, "[CommandListEnd]".toList] ++
        "if $on".toList ∧
      List.Forall₂ (Survives e.text)
        ((Document.plain strayText).sections.filter (!Naming.isGenerated ·.name))
        (Document.plain e.text).sections := by
  have hcut : Fence.cut strayText = ([], strayText) :=
    Fence.cut_eq_self_of_tails (by decide +kernel)
  have hwalk : CallGraph.walkWithin strayBodies 3 [] strayBodies.names =
      some (none, strayBodies) := by decide +kernel
  obtain ⟨e, he⟩ := (exists_erase_iff_of_no_fence [] hcut).2
    fun n => not_lacks_of_walk (by decide +kernel) hwalk n
  obtain ⟨hb, hs, -, ht⟩ := erase_spec he
  rw [hcut] at hb hs ht
  have hchanged : e.isUnchanged = false := by
    rw [Erasure.isUnchanged, hs]
    have : (sweep false (Text.lines strayText)).names.eraseDups ≠ [] := by decide +kernel
    simp [this]
  rw [hchanged] at ht
  refine ⟨e, he, hb, ht.trans (by decide +kernel), ?_⟩
  exact forall₂_sections_erase he hb [] none

end Reskin.Remap
