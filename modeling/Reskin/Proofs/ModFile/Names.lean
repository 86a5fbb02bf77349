import Reskin.Proofs.ModFile.Readings
import Reskin.Proofs.Naming.Resources

/-!
# The names of generated sections

The generated sections of an application to a text without generated content never take the name of
a section of that text. Among themselves they may: the names of two sections, or the names that one
section has in two graphs, may be put together from the same pieces. Then the sections of the block
share a name, and whoever reads the text finds the first of them only. No other reason leads two
generated sections to one name.

## Main definitions

* `ModFile.mouldOf`: the pieces of the name of a generated section

## Main results

* `ModFile.Application.nameOf_eq_iff`: two generated sections share a name exactly if its pieces are
  the same
* `ModFile.names_apply`: the names in the text of an application
-/

namespace Reskin

open Ini (Document)
open Remap (Copy LeavesAlone)

theorem eraseDups_eq_self_iff {ns : List Text} : ns.eraseDups = ns ↔ ns.Nodup := by
  refine ⟨fun h => h ▸ nodup_eraseDups ns, fun h => ?_⟩
  induction ns with
  | nil => rfl
  | cons n ns ih =>
    rw [List.nodup_cons] at h
    have hself : ns.filter (fun m => !m == n) = ns := by
      refine List.filter_eq_self.2 fun m hm => ?_
      have hne : m ≠ n := fun he => h.1 (he ▸ hm)
      simpa using hne
    rw [List.eraseDups_cons, hself, ih h.2]

/-- Names behind other ones that they do not repeat. -/
theorem eraseDups_append_of_disjoint {as bs : List Text} (h : ∀ b ∈ bs, b ∉ as) :
    (as ++ bs).eraseDups = as.eraseDups ++ bs.eraseDups := by
  have hself : bs.removeAll as = bs := by
    rw [List.removeAll, List.filter_eq_self]
    intro b hb
    simpa using h b hb
  rw [List.eraseDups_append, hself]

namespace ModFile

/-- The pieces of the name of a generated section. -/
def mouldOf (f : ModFile) (c : Copy) : Mould :=
  (f.graph c.part).style.mould c.source c.variant

namespace Application

variable {f : ModFile} {d : Disk} (a : Application f d)

/-- The file that results has the generated sections that were built. -/
theorem copies_result : a.result.copies = a.built.copies ∧ a.result.nameOf = a.built.nameOf ∧
    a.result.mouldOf = a.built.mouldOf := by
  obtain ⟨parsed, h⟩ := a.exists_result_eq
  rw [h]
  exact ⟨rfl, rfl, rfl⟩

variable (hf : f.IsCurrent) (hplain : a.character.HasPlainVariants)
  (hclean : ∀ l ∈ Text.lines a.read.text, Remap.Clean l)

include hf hplain hclean

/-- **Two generated sections share a name** exactly if its pieces are the same. -/
theorem nameOf_eq_iff {c c' : Copy} (hc : c ∈ a.built.copies) (hc' : c' ∈ a.built.copies) :
    a.built.nameOf c = a.built.nameOf c' ↔ a.built.mouldOf c = a.built.mouldOf c' := by
  rw [a.nameOf_eq, a.nameOf_eq]
  exact NameStyle.rename_eq_rename_iff (a.isGenerated_source hf hclean hc)
    (a.isGenerated_source hf hclean hc')
    (a.alphanumeric_of_mem_toFix hplain (mem_copies.1 hc).1).1
    (a.alphanumeric_of_mem_toFix hplain (mem_copies.1 hc').1).1

/-- **No two names of generated sections** are the same exactly if no two have the same pieces. -/
theorem nodup_names_iff :
    (a.built.copies.map a.built.nameOf).Nodup ↔ (a.built.copies.map a.built.mouldOf).Nodup := by
  rw [List.Nodup, List.Nodup, List.pairwise_map, List.pairwise_map]
  exact List.Pairwise.iff_of_mem fun hc hc' => not_congr (a.nameOf_eq_iff hf hplain hclean hc hc')

end Application

/-- **The names in the text of an application** to a text without generated content. The headers of
the block are those of the generated sections, and no section of the old text has one of their names.
Two generated sections share a name exactly if it is put together from the same pieces. A document
has every name once; so it has all generated sections, exactly if no two of their names are put
together from the same pieces. -/
theorem names_apply {f f' g : ModFile} {d : Disk} {variants : VariantSet} (hf : f.IsCurrent)
    (hplain : ∀ c, f.MayBelongTo c → c.HasPlainVariants)
    (hids : ∀ c, f.MayBelongTo c → c.HasLineIds) (hload : f.load d = .ok g)
    (halone : LeavesAlone f.folder g.text) (h : f.apply d = (.ok (.applied variants), f')) :
    Ini.headerNames (Text.lines f'.text) =
        Ini.headerNames (Text.lines g.text) ++ f'.copies.map f'.nameOf ∧
      (∀ c ∈ f'.copies, f'.nameOf c ∉ g.document.names) ∧
      f'.document.names = g.document.names ++ (f'.copies.map f'.nameOf).eraseDups ∧
      (∀ c ∈ f'.copies, ∀ c' ∈ f'.copies,
        f'.nameOf c = f'.nameOf c' ↔ f'.mouldOf c = f'.mouldOf c') ∧
      ((f'.copies.map f'.nameOf).Nodup ↔ (f'.copies.map f'.mouldOf).Nodup) ∧
      (f'.document.names = g.document.names ++ f'.copies.map f'.nameOf ↔
        (f'.copies.map f'.mouldOf).Nodup) := by
  obtain ⟨a, rfl, -⟩ := exists_application h
  have hc := a.mayBelongTo_character hf
  obtain ⟨-, hclean⟩ := Remap.leavesAlone_iff.1 halone
  rw [← a.text_read hload] at hclean
  have hheaders := a.headerNames_text hf (hplain _ hc) (hids _ hc)
  have hnodup := a.nodup_names_iff hf (hplain _ hc) hclean
  have hpair {c c' : Copy} (hcopy : c ∈ a.built.copies) (hcopy' : c' ∈ a.built.copies) :=
    a.nameOf_eq_iff hf (hplain _ hc) hclean hcopy hcopy'
  obtain ⟨hcopies, hname, hmould⟩ := a.copies_result
  rw [hcopies, hname, hmould, a.text_result]
  rw [a.text_read hload] at hheaders hclean
  have hnames (k : ModFile) : k.document.names = (Ini.headerNames (Text.lines k.text)).eraseDups :=
    Document.names_ofLines _ _ _
  have hnew : ∀ c ∈ a.built.copies, a.built.nameOf c ∉ Ini.headerNames (Text.lines g.text) :=
    fun c _ => Remap.not_mem_headerNames_of_clean hclean (a.isGenerated_nameOf c)
  have hdocument : a.result.document.names =
      g.document.names ++ (a.built.copies.map a.built.nameOf).eraseDups := by
    rw [hnames, hnames, a.text_result, hheaders, eraseDups_append_of_disjoint]
    intro n hn
    obtain ⟨c, hc, rfl⟩ := List.mem_map.1 hn
    exact hnew c hc
  refine ⟨hheaders, fun c hc => ?_, hdocument, fun c hc c' hc' => hpair hc hc', hnodup, ?_⟩
  · rw [hnames, List.mem_eraseDups]
    exact hnew c hc
  · rw [hdocument, List.append_cancel_left_eq, eraseDups_eq_self_iff, hnodup]

/-- The override and the resource that it loads have generated names of their own. -/
theorem names_apply_weights : (weightsApplication .empty).result.document.names =
    ["TextureOverrideRaidenBlend".toList, "ResourceRaidenBlend".toList,
      "TextureOverrideRaidenRaidenBossRemapBlend".toList,
      "ResourceRaidenRaidenBossRemapBlend".toList] := by
  have hplain (c : Character) (hc : (raidenFile weightsText).MayBelongTo c) : c.IsPlain :=
    (isPlain_raidenFile weightsText).of_mayBelongTo hc
  obtain ⟨-, -, -, -, -, hall⟩ := names_apply (isCurrent_of_parsed rfl)
    (fun c hc => (hplain c hc).hasPlainVariants) (fun c hc => (hplain c hc).hasLineIds) rfl
    (leavesAlone_weightsText _) (weightsApplication .empty).apply_eq
  obtain ⟨hcopies, hname, hmould⟩ := (weightsApplication .empty).copies_result
  rw [hcopies, hname, hmould] at hall
  exact (hall.2 (by decide +kernel)).trans (by decide +kernel)

/-! ## Sections of one name -/

/-- A blend override that runs a section with the same name but for `Blend`. -/
def twiceText : Text :=
  Text.unlines .lf ["[TextureOverrideRaidenBlend]".toList, "run = TextureOverrideRaiden".toList, [],
    "[TextureOverrideRaiden]".toList, "hash = 111".toList]

/-- The sections of the text. -/
def twiceBodies : Ini.Bodies :=
  [("TextureOverrideRaidenBlend".toList,
      [.content [("run".toList, "TextureOverrideRaiden".toList)]]),
    ("TextureOverrideRaiden".toList, [.content [("hash".toList, "111".toList)]])]

/-- What is generated for the one variant. -/
def twicePart : Text :=
  Text.unlines .lf [[], [], "; ***** RaidenBoss *****".toList,
    "[TextureOverrideRaidenRaidenBossRemapBlend]".toList,
    "run = TextureOverrideRaidenRaidenBossRemapBlend".toList, [],
    "[TextureOverrideRaidenRaidenBossRemapBlend]".toList, "hash = 111".toList, []]

/-- The stages of an application to the text. -/
def twiceApplication (d : Disk) : Application (raidenFile twiceText) d :=
  .ofWalks 2 "TextureOverrideRaidenBlend".toList raiden twiceBodies [] [] [twicePart]

/-- The character with a replacement that does not stand on one line. -/
def breaking : Character :=
  { raiden with hashes := [("111".toList,
      [("RaidenBoss".toList, "x\n[TextureOverrideRaidenBlend]".toList)])] }

/-- The file with the blend override, of that character. -/
def breakingFile : ModFile := (ofText blendText).withAssumed (some breaking)

/-- What is generated for the one variant. -/
def breakingPart : Text :=
  Text.unlines .lf [[], [], "; ***** RaidenBoss *****".toList,
    "[TextureOverrideRaidenRaidenBossRemapBlend]".toList,
    "hash = x".toList, "[TextureOverrideRaidenBlend]".toList, []]

/-- The stages of an application to the file. -/
def breakingApplication (d : Disk) : Application breakingFile d :=
  .ofWalks 2 "TextureOverrideRaidenBlend".toList breaking blendBodies [] [] [breakingPart]

/-- **Two sections of one name**: the section that the override runs is generated under the name of
the override, so the document lacks it. And an id that breaks a line brings the header of a section
of the old text into the block. -/
theorem names_apply_twice :
    (LeavesAlone (raidenFile twiceText).folder twiceText ∧
      (∀ c, (raidenFile twiceText).MayBelongTo c → c.HasPlainVariants ∧ c.HasLineIds) ∧
      (raidenFile twiceText).apply .empty =
        (.ok (.applied (twiceApplication .empty).built.toFix), (twiceApplication .empty).result) ∧
      (twiceApplication .empty).result.copies.length = 2 ∧
      Ini.headerNames (Text.lines (twiceApplication .empty).result.text) =
        Ini.headerNames (Text.lines twiceText) ++
          ["TextureOverrideRaidenRaidenBossRemapBlend".toList,
            "TextureOverrideRaidenRaidenBossRemapBlend".toList]) ∧
    LeavesAlone breakingFile.folder blendText ∧
      (∀ c, breakingFile.MayBelongTo c → c.HasPlainVariants) ∧
      breakingFile.apply .empty = (.ok (.applied (breakingApplication .empty).built.toFix),
        (breakingApplication .empty).result) ∧
      Ini.headerNames (Text.lines (breakingApplication .empty).result.text) =
        ["TextureOverrideRaidenBlend".toList, "TextureOverrideRaidenRaidenBossRemapBlend".toList,
          "TextureOverrideRaidenBlend".toList] := by
  refine ⟨⟨Remap.leavesAlone_iff.2 ⟨Remap.Fence.cut_of_not_mem (by decide), by decide +kernel⟩,
    fun c hc => ?_, (twiceApplication .empty).apply_eq, ?_, ?_⟩, leavesAlone_blendText _,
    fun c hc => ?_, (breakingApplication .empty).apply_eq, ?_⟩
  · have hplain := (isPlain_raidenFile twiceText).of_mayBelongTo hc
    exact ⟨hplain.hasPlainVariants, hplain.hasLineIds⟩
  · rw [(twiceApplication .empty).copies_result.1]
    rfl
  · rw [Application.text_result]
    decide +kernel
  · rcases hc with hc | hc
    · simp [breakingFile, withAssumed, ofText, ofSource] at hc
    · obtain rfl : breaking = c := by simpa [breakingFile, withAssumed] using hc
      refine ⟨by decide +kernel, fun kind => ?_⟩
      cases kind <;> decide +kernel
  · rw [Application.text_result]
    decide +kernel

end ModFile

end Reskin
