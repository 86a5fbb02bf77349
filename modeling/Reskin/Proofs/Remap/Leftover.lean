import Reskin.Proofs.Remap.Erasure
import Reskin.Proofs.Remap.Lines
import Reskin.Proofs.Text.Cut

/-!
# What is left of a block without its rule

A block that has lost its rule is no fence. The second pass takes it line by line: the heading, the
credit and the banners of variants are boilerplate, and behind the first banner generated sections
follow, each of which goes up to the next one. Nothing stays but blank lines, however many of the
first lines of the block there are.

## Main definitions

* `Remap.Erasable`: rows of lines of which the second pass leaves blank ones only

## Main results

* `Remap.isBoilerplate_heading`, `Remap.isBoilerplate_banner`, `Remap.isBoilerplate_credit`: the
  comments of a block
* `Remap.blank_of_mem_kept`: what the second pass leaves of erasable lines
* `Remap.Sources.exists_first_lines`: the first lines behind the credit
-/

namespace Reskin.Remap

open Ini (Line.isHeader Line.isGeneratedHeader Line.isBoilerplate)
open Ini.Line (blockDashes between?)

/-! ## The comments of a block -/

theorem between?_append (side t : Text) :
    between? side (side ++ ' ' :: (t ++ ' ' :: side)) = some t := by
  have hstart : Text.dropStart? (side ++ [' ']) (side ++ ' ' :: (t ++ ' ' :: side)) =
      some (t ++ ' ' :: side) := Text.dropStart?_eq_some.2 (by simp)
  rw [between?, hstart, Option.bind_some]
  exact Text.dropEnd?_eq_some.2 rfl

theorem afterSemicolon?_comment (t : Text) :
    Ini.Line.afterSemicolon? (';' :: ' ' :: t) = some t := by
  rw [Ini.Line.afterSemicolon?, Text.trimStart_eq_self (by rintro c ⟨⟩; decide)]
  exact Text.dropStart?_append [';', ' '] t

/-- A side of dashes or stars has no blank at its end. -/
theorem trimEnd_between {side : Text} {c : Char} (hs : side.getLast? = some c)
    (hc : isBlank c = false) (t : Text) : Text.trimEnd (t ++ ' ' :: side) = t ++ ' ' :: side := by
  apply Text.trimEnd_eq_self
  intro d hd
  obtain rfl : c = d := by simpa [List.getLast?_append, List.getLast?_cons, hs] using hd
  exact hc

theorem isBoilerplate_heading {s : Fence.Style} (hs : s ∈ Fence.styles) (title : Text) :
    Line.isBoilerplate (s.heading title) = true := by
  have hline : s.heading title =
      ';' :: ' ' :: (blockDashes ++ ' ' :: ((title ++ s.words) ++ ' ' :: blockDashes)) := by
    simp [Fence.Style.heading, Ini.Line.headingStart, Ini.Line.headingEnd]
  have hwords : ∀ u ∈ Fence.styles, u.words ∈ Ini.Line.titleWords := by decide
  have hends : Text.endsWith s.words (title ++ s.words) = true := by
    rw [Text.endsWith, Text.dropEnd?_eq_some.2 rfl, Option.isSome_some]
  have htrim := trimEnd_between (by decide : blockDashes.getLast? = some '-') (by decide)
    (blockDashes ++ ' ' :: (title ++ s.words))
  rw [List.append_assoc, List.cons_append] at htrim
  have hany : Ini.Line.titleWords.any (Text.endsWith · (title ++ s.words)) = true :=
    List.any_eq_true.2 ⟨_, hwords s hs, hends⟩
  rw [hline, Line.isBoilerplate, afterSemicolon?_comment]
  simp only [htrim, between?_append, hany, Bool.true_or]

theorem isBoilerplate_banner (variant : Text) :
    Line.isBoilerplate (commentLine (variantBanner variant).opening) = true := by
  have hline : commentLine (variantBanner variant).opening =
      ';' :: ' ' :: (Text.rule 5 '*' ++ ' ' :: (variant ++ ' ' :: Text.rule 5 '*')) := by
    simp [commentLine, Banner.opening, Banner.side, variantBanner]
  have htrim := trimEnd_between (by decide : (Text.rule 5 '*').getLast? = some '*') (by decide)
    (Text.rule 5 '*' ++ ' ' :: variant)
  rw [List.append_assoc, List.cons_append] at htrim
  rw [hline, Line.isBoilerplate, afterSemicolon?_comment]
  simp only [htrim, between?_append, Option.isSome_some, Bool.or_true, Bool.true_or]

theorem isBoilerplate_credit {title : Text} (h : '\n' ∉ title) :
    Line.isBoilerplate (credit title) = true := by
  let named : Text := if title = [] then [] else title ++ [' ']
  have hnamed : '\n' ∉ named := by
    unfold named
    split <;> simp [h]
  let r : Text := '.' :: (" When sharing remapped ".toList ++ named ++
    "mods, credit the original mod author".toList)
  have hr : '\n' ∉ r := by simp [r, hnamed]
  have hends : Ini.Line.endsWord r = true := by
    have : isWord '.' = false := by decide
    simp [r, Ini.Line.endsWord, this]
  have hline : credit title = ';' :: ' ' :: (named ++ Ini.Line.creditWords ++ r) := by
    have hwords : "remapped by iniremap. When sharing remapped ".toList =
        Ini.Line.creditWords ++ '.' :: " When sharing remapped ".toList := by decide
    have hstart : "\n; ".toList = ['\n', ';', ' '] := by decide
    simp only [credit, creditLine, hwords, hstart]
    simp [named, r]
  have hvisible : Ini.Line.visible (named ++ Ini.Line.creditWords ++ r) =
      named ++ Ini.Line.creditWords ++ r := by
    apply Ini.Line.visible_eq_self
    rw [List.mem_append, List.mem_append, not_or, not_or]
    exact ⟨⟨hnamed, by decide⟩, hr⟩
  have hcredit := Ini.Line.givesCredit_iff.2 ⟨named, r, rfl, hends⟩
  rw [hline, Line.isBoilerplate, afterSemicolon?_comment]
  simp only [hvisible, hcredit, Bool.or_true, Bool.true_or]

/-! ## Lines that go -/

/-- **Lines that go**, unless they are blank: up to the first header all of them are blank or
boilerplate, and every header is generated. -/
def Erasable : List Text → Prop
  | [] => True
  | l :: ls =>
    if Line.isHeader l then
      Line.isGeneratedHeader l = true ∧
        ∀ m ∈ ls, Line.isHeader m = true → Line.isGeneratedHeader m = true
    else (Text.Blank l ∨ Line.isBoilerplate l = true) ∧ Erasable ls

theorem Erasable.cons {l : Text} {ls : List Text} (hh : Line.isHeader l = false)
    (hl : Text.Blank l ∨ Line.isBoilerplate l = true) (h : Erasable ls) : Erasable (l :: ls) := by
  rw [Erasable, if_neg (by simp [hh])]
  exact ⟨hl, h⟩

/-- Behind a header only headers count. -/
theorem erasable_of_header {l : Text} {ls : List Text} (hl : Line.isHeader l = true)
    (h : ∀ m ∈ l :: ls, Line.isHeader m = true → Line.isGeneratedHeader m = true) :
    Erasable (l :: ls) := by
  rw [Erasable, if_pos hl]
  exact ⟨h l List.mem_cons_self hl, fun m hm => h m (List.mem_cons_of_mem l hm)⟩

/-- The first of lines that go do so too. -/
theorem Erasable.of_append {ls r : List Text} (h : Erasable (ls ++ r)) : Erasable ls := by
  induction ls with
  | nil => trivial
  | cons l ls ih =>
    rw [List.cons_append, Erasable] at h
    rw [Erasable]
    split at h
    · next hh =>
      rw [if_pos hh]
      exact ⟨h.1, fun m hm => h.2 m (List.mem_append_left r hm)⟩
    · next hh =>
      rw [if_neg hh]
      exact ⟨h.1, ih h.2⟩

theorem Erasable.of_sameLines {ls ls' : List Text} (h : Erasable ls')
    (hs : Text.SameLines ls ls') : Erasable ls := by
  have hheader {l l' : Text} (he : Text.trimEnd l = Text.trimEnd l') :
      Line.isHeader l = Line.isHeader l' :=
    Text.eq_of_trimEnd_eq (fun _ hw t => Ini.Line.isHeader_append_blank hw t) he
  have hgenerated {l l' : Text} (he : Text.trimEnd l = Text.trimEnd l') :
      Line.isGeneratedHeader l = Line.isGeneratedHeader l' :=
    Text.eq_of_trimEnd_eq (fun _ hw t => Ini.Line.isGeneratedHeader_append_blank hw t) he
  induction ls' generalizing ls with
  | nil =>
    obtain rfl : ls = [] := List.map_eq_nil_iff.1 hs
    trivial
  | cons l' ls' ih =>
    obtain ⟨l, ls, rfl, he, hs⟩ := List.map_eq_cons_iff.1 hs
    rw [Erasable, ← hheader he, ← hgenerated he] at h
    rw [Erasable]
    split at h
    · next hh =>
      rw [if_pos hh]
      refine ⟨h.1, fun m hm hm' => ?_⟩
      obtain ⟨m', hm'', hem⟩ := Text.SameLines.exists_of_mem hs hm
      rw [← hgenerated hem]
      exact h.2 m' hm'' (by rwa [hheader hem])
    · next hh =>
      rw [if_neg hh]
      refine ⟨h.1.imp (fun hb => ?_) (fun hb => ?_), ih h.2 hs⟩
      · exact Text.blank_of_trimEnd_eq_nil (he.trans (Text.trimEnd_of_blank hb))
      · rwa [Text.eq_of_trimEnd_eq (f := Line.isBoilerplate)
          (fun _ hw t => Ini.Line.isBoilerplate_append_blank hw t) he]

/-- Behind a generated header everything goes while only such headers follow. -/
theorem kept_sweep_of_generated {ls : List Text}
    (h : ∀ l ∈ ls, Line.isHeader l = true → Line.isGeneratedHeader l = true) :
    (sweep true ls).kept = [] := by
  induction ls with
  | nil => rfl
  | cons l ls ih =>
    have ih := ih fun m hm => h m (List.mem_cons_of_mem _ hm)
    rw [sweep]
    by_cases hh : Line.isHeader l = true
    · rw [if_pos hh, if_pos (h l List.mem_cons_self hh)]
      exact ih
    · rw [if_neg hh, if_pos rfl]
      exact ih

/-- **Of erasable lines** the second pass leaves blank ones only. -/
theorem blank_of_mem_kept {ls : List Text} (h : Erasable ls) {l : Text}
    (hl : l ∈ (sweep false ls).kept) : Text.Blank l := by
  induction ls with
  | nil => simp [sweep] at hl
  | cons m ls ih =>
    rw [sweep] at hl
    rw [Erasable] at h
    by_cases hh : Line.isHeader m = true
    · rw [if_pos hh] at h
      rw [if_pos hh, if_pos h.1] at hl
      simp [kept_sweep_of_generated h.2] at hl
    · rw [if_neg hh] at h
      rw [if_neg hh, if_neg (by simp)] at hl
      dsimp only at hl
      by_cases hb : Line.isBoilerplate m = true
      · rw [if_pos hb] at hl
        exact ih h.2 hl
      · rw [if_neg hb] at hl
        rcases List.mem_cons.1 hl with rfl | hl
        · exact h.1.resolve_right hb
        · exact ih h.2 hl

/-! ## The first lines of a block -/

namespace Sources

variable {s : Sources} {variants : List Text} {part : Part} {variant : Text}

/-- A generated section begins with its header. -/
theorem exists_sectionText_eq {e : Text × Ini.Body} {t : Text}
    (h : s.sectionText part variant e = .ok t) :
    ∃ r, t = s.headerLine part e.1 variant ++ '\n' :: r := by
  obtain ⟨text, -, h⟩ := bind_eq_ok.1 h
  obtain rfl := Except.ok.inj h
  exact ⟨text, by simp [headerOf, headerLine]⟩

/-- So do the generated sections of a graph that has any. -/
theorem exists_sectionsText_eq (part : Part) (hne : (s.graph part).isEmpty = false) {t : Text}
    (h : s.sectionsText part variant = .ok t) :
    ∃ e ∈ (s.graph part).reached, ∃ r, t = s.headerLine part e.1 variant ++ '\n' :: r := by
  obtain ⟨e, es, hreached⟩ : ∃ e es, (s.graph part).reached = e :: es :=
    List.exists_cons_of_ne_nil fun hn => by simp [CallGraph.isEmpty, hn] at hne
  obtain ⟨ts, hts, h⟩ := bind_eq_ok.1 h
  obtain rfl := Except.ok.inj h
  rw [sections, hreached] at hts
  obtain ⟨t, us, ht, -, rfl⟩ := collect_cons_eq_ok.1 hts
  obtain ⟨r, rfl⟩ := exists_sectionText_eq ht
  exact ⟨e, by simp [hreached], r ++ '\n' :: us.flatMap (· ++ ['\n']), by simp⟩

/-- The part of a block for a variant begins with the banner of the variant and a header. -/
theorem exists_variantPart_eq (hne : s.blend.isEmpty = false) {t : Text}
    (h : (s.variantText variant).map (variantPart variant) = .ok t) :
    ∃ e ∈ (s.graph .blend).reached, ∃ r, t = ['\n', '\n'] ++
      (commentLine (variantBanner variant).opening ++ '\n' ::
        (s.headerLine .blend e.1 variant ++ '\n' :: r)) := by
  cases htext : s.variantText variant with
  | error fault => simp [htext, Except.map] at h
  | ok text =>
    rw [htext] at h
    obtain rfl := Except.ok.inj h
    rw [variantText_eq] at htext
    obtain ⟨blend, hblend, htext⟩ := bind_eq_ok.1 htext
    obtain ⟨others, -, htext⟩ := bind_eq_ok.1 htext
    obtain ⟨resources, -, htext⟩ := bind_eq_ok.1 htext
    obtain rfl := Except.ok.inj htext
    obtain ⟨e, he, r, rfl⟩ := exists_sectionsText_eq .blend hne hblend
    refine ⟨e, he, r ++ ((if !s.others.isEmpty then ['\n'] else []) ++ others ++
      (if !s.resources.isEmpty then ['\n'] else []) ++ Text.join ['\n'] resources), ?_⟩
    simp [variantPart, hne]

/-- **The first lines behind the credit** and an empty line are a banner and a header, if there are
any. -/
theorem exists_first_lines (hne : s.blend.isEmpty = false) {parts : List Text}
    (h : s.variantParts variants = .ok parts) (hn : ∀ l, s.BlockLine variants l → '\n' ∉ l)
    {ls : List Text} (hls : ∀ l ∈ ls, s.BlockLine variants l)
    (heq : parts.flatten ++ ['\n', '\n'] = ['\n', '\n'] ++ Text.unlines .lf ls) :
    ls = [] ∨ ∃ variant ∈ variants, ∃ e ∈ (s.graph .blend).reached, ∃ rest,
      ls = commentLine (variantBanner variant).opening ::
        s.headerLine .blend e.1 variant :: rest := by
  have hlines := Text.lines_unlines (e := .lf) fun l hl => hn l (hls l hl)
  cases variants with
  | nil =>
    left
    obtain rfl : [] = parts := by simpa [variantParts, collect] using h
    have hnil : Text.unlines .lf ls = [] := by simpa using heq.symm
    rw [hnil] at hlines
    exact List.map_eq_nil_iff.1 hlines.symm
  | cons variant vs =>
    right
    obtain ⟨t, us, ht, -, rfl⟩ := collect_cons_eq_ok.1 h
    obtain ⟨e, he, r, rfl⟩ := exists_variantPart_eq hne ht
    have hbanner := hn _ (.banner List.mem_cons_self)
    have hheader := hn _ (.header List.mem_cons_self he)
    have htext : Text.unlines .lf ls = commentLine (variantBanner variant).opening ++ '\n' ::
        (s.headerLine .blend e.1 variant ++ '\n' :: (r ++ us.flatten ++ ['\n', '\n'])) := by
      simpa using heq.symm
    rw [htext, Text.lines_cons hbanner, Text.lines_cons hheader] at hlines
    obtain ⟨l, ls, rfl, hl, hlines⟩ := List.map_eq_cons_iff.1 hlines.symm
    obtain ⟨l', ls, rfl, hl', -⟩ := List.map_eq_cons_iff.1 hlines
    refine ⟨variant, List.mem_cons_self, e, he, ls, ?_⟩
    rw [List.append_cancel_right hl, List.append_cancel_right hl']

/-- Behind the credit and an empty line all goes, if every header is generated. -/
theorem erasable_of_blockLine (hne : s.blend.isEmpty = false) {parts : List Text}
    (h : s.variantParts variants = .ok parts) (hn : ∀ l, s.BlockLine variants l → '\n' ∉ l)
    {ls : List Text} (hls : ∀ l ∈ ls, s.BlockLine variants l)
    (heq : parts.flatten ++ ['\n', '\n'] = ['\n', '\n'] ++ Text.unlines .lf ls)
    (hgen : ∀ l ∈ ls, Line.isHeader l = true → Line.isGeneratedHeader l = true) :
    Erasable ls := by
  rcases exists_first_lines hne h hn hls heq with rfl | ⟨variant, hv, e, he, rest, rfl⟩
  · trivial
  · have hheader := hn _ (.header hv he)
    refine .cons (Ini.Line.isHeader_comment _) (.inr (isBoilerplate_banner variant)) ?_
    refine erasable_of_header (Ini.Line.isHeader_bracketed fun hm => hheader ?_)
      fun m hm => hgen m (List.mem_cons_of_mem _ hm)
    simp [headerLine, hm]

end Sources

end Reskin.Remap
