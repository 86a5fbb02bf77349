import Reskin.Ini.Body
import Reskin.Proofs.Ini.Pairs
import Reskin.Proofs.Text.Lines

/-!
# What a line is

What a line is does not depend on the blanks at its end: neither on its line ending nor on what else
is trimmed there. A header is one whatever its name, and it is generated exactly if its name carries
a mark of generated names.

## Main definitions

* `Ini.Line.assignment?`: the assignment on a line

## Main results

* `Ini.Line.isHeader_append_blank` and its like: blanks at the end of a line do not count
* `Ini.Line.isGeneratedHeader_iff`: generated headers are those with a generated name
* `Ini.Line.exists_of_assignment?`: where key and value of an assignment stand
-/

namespace Reskin

/-- The twenty-five blanks. -/
def blankPoints : List Nat :=
  [0x9, 0xA, 0xB, 0xC, 0xD, 0x20, 0x85, 0xA0, 0x1680, 0x2000, 0x2001, 0x2002, 0x2003, 0x2004,
   0x2005, 0x2006, 0x2007, 0x2008, 0x2009, 0x200A, 0x2028, 0x2029, 0x202F, 0x205F, 0x3000]

theorem mem_blankPoints {c : Char} (h : isBlank c = true) : c.toNat ∈ blankPoints := by
  simp only [isBlank, Bool.or_eq_true, Bool.and_eq_true, decide_eq_true_eq, beq_iff_eq] at h
  simp only [blankPoints, List.mem_cons, List.not_mem_nil, or_false]
  omega

/-- No blank is a word character. -/
theorem isWord_eq_false_of_isBlank {c : Char} (h : isBlank c = true) : isWord c = false := by
  have key : ∀ n ∈ blankPoints, isWord (Char.ofNat n) = false := by decide +kernel
  simpa using key c.toNat (mem_blankPoints h)

end Reskin

namespace Reskin.Ini.Line

open Text (Blank)

/-! ## Blanks at the end of a line -/

theorem visible_prefix_self (x : Text) : visible x <+: x := List.takeWhile_prefix _

section Blanks

variable {w : Text} (hw : Blank w)

include hw

theorem endsWord_append_blank (r : Text) : endsWord (r ++ w) = endsWord r := by
  cases r with
  | cons c r => rfl
  | nil =>
    cases w with
    | nil => rfl
    | cons c w => simp [endsWord, isWord_eq_false_of_isBlank (hw c List.mem_cons_self)]

/-- Blanks at the end of a text are blanks at the end of its first line. -/
theorem exists_visible_append (x : Text) : ∃ v, Blank v ∧ visible (x ++ w) = visible x ++ v := by
  unfold visible
  rw [List.takeWhile_append]
  split
  · next h =>
    refine ⟨w.takeWhile (· ≠ '\n'), fun c hc => hw c ((List.takeWhile_prefix _).subset hc), ?_⟩
    rw [(List.takeWhile_prefix _).eq_of_length h]
  · exact ⟨[], by simp [Blank], by simp⟩

theorem isHeader_append_blank (l : Text) : isHeader (l ++ w) = isHeader l := by
  have heq (l : Text) : isHeader l = (afterBracket? l).any fun r => (visible r).contains ']' := by
    unfold isHeader
    cases afterBracket? l <;> rfl
  rw [heq, heq]
  refine Text.apply_dropStart?_trimStart_append (·.any fun rest => (visible rest).contains ']')
    hw (by simp : ['['] ≠ []) (fun rest => ?_) (fun r hr => ?_) l
  · obtain ⟨v, hv, he⟩ := exists_visible_append hw rest
    have : ']' ∉ v := hv.not_mem (by decide)
    simp [he, this]
  · have : ']' ∉ visible r := fun hm => hr.not_mem (by decide) ((visible_prefix_self r).subset hm)
    simp [this]

theorem isHeader_of_blank : isHeader w = false := isHeader_append_blank hw []

theorem sectionName_append_blank (l : Text) : sectionName (l ++ w) = sectionName l := by
  unfold sectionName
  by_cases h : ']' ∈ l
  · obtain ⟨x, y, rfl, hy⟩ := Text.exists_last_of_mem h
    have : ']' ∉ y ++ w := by
      rw [List.mem_append, not_or]
      exact ⟨hy, hw.not_mem (by decide)⟩
    rw [List.append_assoc, List.cons_append, Text.splitLast_append x this,
      Text.splitLast_append x hy]
  · have hlw : ']' ∉ l ++ w := by
      rw [List.mem_append, not_or]
      exact ⟨h, hw.not_mem (by decide)⟩
    rw [Text.splitLast_of_not_mem h, Text.splitLast_of_not_mem hlw]
    by_cases hb : '[' ∈ l
    · obtain ⟨x, y, rfl, hx⟩ := List.eq_append_cons_of_mem hb
      rw [List.append_assoc, List.cons_append, Text.splitFirst_append hx,
        Text.splitFirst_append hx]
      exact Text.trim_append_of_blank hw y
    · have hblw : '[' ∉ l ++ w := by
        rw [List.mem_append, not_or]
        exact ⟨hb, hw.not_mem (by decide)⟩
      rw [Text.splitFirst_eq_none_iff.2 hb, Text.splitFirst_eq_none_iff.2 hblw]
      exact Text.trim_append_of_blank hw l

end Blanks

/-- A closing bracket after a mark: the mark lies before some closing bracket. -/
theorem closedAfter_iff {mark rest : Text} :
    closedAfter mark rest = true ↔ ∃ a b, visible rest = a ++ ']' :: b ∧ mark <:+: a := by
  unfold closedAfter
  constructor
  · intro h
    split at h
    · next tail ht =>
      obtain ⟨l, hl⟩ := Text.exists_of_after?_eq_some ht
      obtain ⟨x, y, rfl, -⟩ := List.eq_append_cons_of_mem (List.contains_iff_mem.1 h)
      exact ⟨l ++ mark ++ x, y, by simp [hl], List.infix_append _ _ _⟩
    · simp at h
  · rintro ⟨a, b, he, l, r, rfl⟩
    have he' : visible rest = l ++ mark ++ (r ++ ']' :: b) := by simp [he]
    cases ht : Text.after? mark (visible rest) with
    | none => exact absurd ⟨l, _, he'.symm⟩ (Text.after?_eq_none_iff.1 ht)
    | some tail =>
      have := Text.suffix_of_after? (he' ▸ ht)
      exact List.contains_iff_mem.2 (this.subset (by simp))

theorem closedAfter_append_blank {w : Text} (hw : Blank w) (mark rest : Text) :
    closedAfter mark (rest ++ w) = closedAfter mark rest := by
  obtain ⟨v, hv, he⟩ := exists_visible_append hw rest
  rw [Bool.eq_iff_iff, closedAfter_iff, closedAfter_iff, he]
  constructor
  · rintro ⟨a, b, hab, hm⟩
    obtain ⟨b', hb', -⟩ := Text.exists_of_append_blank hv (by decide) hab
    exact ⟨a, b', hb', hm⟩
  · rintro ⟨a, b, hab, hm⟩
    exact ⟨a, b ++ v, by simp [hab], hm⟩

theorem closedAfter_of_blank {r : Text} (hr : Blank r) (mark : Text) :
    closedAfter mark r = false := by
  rw [Bool.eq_false_iff, ne_eq, closedAfter_iff]
  rintro ⟨a, b, hab, -⟩
  have : ']' ∈ visible r := by simp [hab]
  exact hr.not_mem (by decide) ((visible_prefix_self r).subset this)

theorem isGeneratedHeader_append_blank {w : Text} (hw : Blank w) (l : Text) :
    isGeneratedHeader (l ++ w) = isGeneratedHeader l := by
  have heq (l : Text) : isGeneratedHeader l = (afterBracket? l).any fun rest =>
      closedAfter Naming.remapBlendMark rest || closedAfter Naming.remapFixMark rest := by
    unfold isGeneratedHeader
    cases afterBracket? l <;> rfl
  rw [heq, heq]
  refine Text.apply_dropStart?_trimStart_append (·.any fun rest =>
      closedAfter Naming.remapBlendMark rest || closedAfter Naming.remapFixMark rest)
    hw (by simp : ['['] ≠ []) (fun rest => ?_) (fun r hr => ?_) l
  · simp [closedAfter_append_blank hw]
  · simp [closedAfter_of_blank hr]

theorem isOverrideHeader_append_blank {w : Text} (hw : Blank w) (mark l : Text) :
    isOverrideHeader mark (l ++ w) = isOverrideHeader mark l := by
  have heq (l : Text) : isOverrideHeader mark l = ((afterBracket? l).bind fun rest =>
      Text.dropStart? textureOverride (Text.trimStart rest)).any (closedAfter mark) := by
    unfold isOverrideHeader
    cases (afterBracket? l).bind fun rest =>
      Text.dropStart? textureOverride (Text.trimStart rest) <;> rfl
  rw [heq, heq]
  refine Text.apply_dropStart?_trimStart_append (fun o => (o.bind fun rest =>
    Text.dropStart? textureOverride (Text.trimStart rest)).any (closedAfter mark)) hw
    (by simp : ['['] ≠ []) (fun rest => ?_) (fun r hr => ?_) l
  · exact Text.apply_dropStart?_trimStart_append (·.any (closedAfter mark)) hw (by decide)
      (closedAfter_append_blank hw mark) (fun r hr => closedAfter_of_blank hr mark) rest
  · have hword : Text.dropStart? textureOverride (Text.trimStart r) = none := by
      rw [Text.trimStart_of_blank hr]
      rfl
    simp only [Option.bind_some, Option.bind_none, hword]

/-- What the opening line of a block begins with. -/
def headingStart : Text := ';' :: ' ' :: blockDashes ++ [' ']

/-- What a heading ends in, with the given word before the dashes. -/
def headingEnd (word : Text) : Text := word ++ ' ' :: blockDashes

theorem isBlockHeading_eq (line : Text) :
    isBlockHeading line = match Text.dropStart? headingStart (Text.trimStart line) with
      | some rest => titleWords.any fun word => Text.holds (headingEnd word) (visible rest)
      | none => false := by
  have : headingStart = [';', ' '] ++ (blockDashes ++ [' ']) := rfl
  rw [this, Text.dropStart?_append_start, isBlockHeading, afterSemicolon?]
  cases (Text.dropStart? [';', ' '] (Text.trimStart line)).bind fun rest =>
    Text.dropStart? (blockDashes ++ [' ']) rest with
  | none => rfl
  | some rest => simp [headingEnd]

theorem getLast?_headingEnd (word : Text) : (headingEnd word).getLast? = some '-' := by
  have : headingEnd word = (word ++ ' ' :: Text.rule 14 '-') ++ ['-'] := by
    rw [List.append_assoc]
    rfl
  rw [this, List.getLast?_concat]

theorem isBlockHeading_append_blank {w : Text} (hw : Blank w) (l : Text) :
    isBlockHeading (l ++ w) = isBlockHeading l := by
  rw [isBlockHeading_eq, isBlockHeading_eq]
  refine Text.apply_dropStart?_trimStart_append (fun
    | some rest => titleWords.any fun word => Text.holds (headingEnd word) (visible rest)
    | none => false) hw (by simp [headingStart] : headingStart ≠ [])
    (fun rest => ?_) (fun r hr => ?_) l
  · obtain ⟨v, hv, he⟩ := exists_visible_append hw rest
    have hold (word : Text) : Text.holds (headingEnd word) (visible rest ++ v) =
        Text.holds (headingEnd word) (visible rest) := by
      rw [Bool.eq_iff_iff, Text.holds_iff_infix, Text.holds_iff_infix,
        Text.infix_append_blank_iff (getLast?_headingEnd word) (by decide) hv]
    simp only [he, hold]
  · have hold (word : Text) : Text.holds (headingEnd word) (visible r) = false := by
      rw [Bool.eq_false_iff, ne_eq, Text.holds_iff_infix]
      intro hm
      have hmem : '-' ∈ headingEnd word := List.mem_of_getLast? (getLast?_headingEnd word)
      exact hr.not_mem (by decide) ((visible_prefix_self r).subset (hm.subset hmem))
    simp [hold]

theorem givesCredit_iff {t : Text} :
    givesCredit t = true ↔ ∃ l r, t = l ++ creditWords ++ r ∧ endsWord r = true := by
  induction t with
  | nil =>
    have : creditWords ≠ [] := by decide
    simp [givesCredit, this]
  | cons c t ih =>
    rw [givesCredit, Bool.or_eq_true, ih]
    constructor
    · rintro (h | ⟨l, r, rfl, hr⟩)
      · split at h
        · next rest hd => exact ⟨[], rest, by simpa using Text.dropStart?_eq_some.1 hd, h⟩
        · simp at h
      · exact ⟨c :: l, r, by simp, hr⟩
    · rintro ⟨l, r, he, hr⟩
      cases l with
      | nil =>
        left
        rw [Text.dropStart?_eq_some.2 (show c :: t = creditWords ++ r by simpa using he)]
        exact hr
      | cons d l => exact .inr ⟨l, r, by simpa using (List.cons.inj he).2, hr⟩

theorem givesCredit_append_blank {w : Text} (hw : Blank w) (t : Text) :
    givesCredit (t ++ w) = givesCredit t := by
  have hc : creditWords = "remapped by iniremap".toList.dropLast ++ ['p'] := by decide
  rw [Bool.eq_iff_iff, givesCredit_iff, givesCredit_iff]
  constructor
  · rintro ⟨l, r, he, hr⟩
    rw [hc, ← List.append_assoc, List.append_assoc, List.singleton_append] at he
    obtain ⟨r', rfl, rfl⟩ := Text.exists_of_append_blank hw (by decide) he
    exact ⟨l, r', by simp [hc], by rwa [endsWord_append_blank hw] at hr⟩
  · rintro ⟨l, r, rfl, hr⟩
    exact ⟨l, r ++ w, by simp, by rwa [endsWord_append_blank hw]⟩

theorem givesCredit_of_blank {w : Text} (hw : Blank w) : givesCredit w = false :=
  givesCredit_append_blank hw []

/-- **Blanks at the end of a line** do not make it boilerplate, nor keep it from being so. -/
theorem isBoilerplate_append_blank {w : Text} (hw : Blank w) (l : Text) :
    isBoilerplate (l ++ w) = isBoilerplate l := by
  unfold isBoilerplate afterSemicolon?
  rcases Text.dropStart?_trimStart_append_blank hw (by simp : [';', ' '] ≠ []) l with
    h | ⟨h, r, hr, h'⟩
  · rw [h]
    cases Text.dropStart? [';', ' '] (Text.trimStart l) with
    | none => rfl
    | some rest =>
      obtain ⟨v, hv, he⟩ := exists_visible_append hw rest
      simp only [Option.map_some, Text.trimEnd_append_of_blank hw, he, givesCredit_append_blank hv]
  · have hv : Blank (visible r) := fun c hc => hr c ((visible_prefix_self r).subset hc)
    have dashes : between? blockDashes [] = none := by decide
    have stars : between? (Text.rule 5 '*') [] = none := by decide
    rw [h, h']
    simp [Text.trimEnd_of_blank hr, dashes, stars, givesCredit_of_blank hv]

/-! ## Headers -/

section Headers

variable {l : Text} (hl : '\n' ∉ l)

include hl

theorem visible_eq_self : visible l = l := by
  rw [visible, List.takeWhile_eq_self_iff]
  intro c hc
  simpa using fun he : c = '\n' => hl (he ▸ hc)

/-- A header is a name between an opening bracket that only blanks precede and a last closing
bracket. -/
theorem isHeader_iff :
    isHeader l = true ↔ ∃ w n r, l = w ++ '[' :: (n ++ ']' :: r) ∧ Blank w ∧ ']' ∉ r := by
  unfold isHeader afterBracket?
  constructor
  · intro h
    split at h
    · next rest hd =>
      obtain ⟨w, hw, he⟩ := Text.exists_append_trimStart l
      rw [Text.dropStart?_eq_some.1 hd] at he
      have hrest : '\n' ∉ rest := fun hm => hl (by simp [he, hm])
      rw [visible_eq_self hrest, List.contains_iff_mem] at h
      obtain ⟨n, r, rfl, hr⟩ := Text.exists_last_of_mem h
      exact ⟨w, n, r, he, hw, hr⟩
    · simp at h
  · rintro ⟨w, n, r, rfl, hw, -⟩
    have hrest : '\n' ∉ n ++ ']' :: r := fun hm => hl (by
      rw [List.mem_append, List.mem_cons]
      exact .inr (.inr hm))
    rw [Text.trimStart_append_of_blank hw]
    have : Text.trimStart ('[' :: (n ++ ']' :: r)) = ['['] ++ (n ++ ']' :: r) := rfl
    rw [this, Text.dropStart?_append]
    simp [visible_eq_self hrest]

end Headers

theorem sectionName_header {w n r : Text} (hw : Blank w) (hr : ']' ∉ r) :
    sectionName (w ++ '[' :: (n ++ ']' :: r)) = Text.trim n := by
  have : w ++ '[' :: (n ++ ']' :: r) = (w ++ '[' :: n) ++ ']' :: r := by simp
  simp only [sectionName, this, Text.splitLast_append _ hr,
    Text.splitFirst_append (hw.not_mem (c := '[') (by decide))]

/-- The section name of a header lies in the header. -/
theorem sectionName_infix_self {l : Text} (hl : '\n' ∉ l) (h : isHeader l = true) :
    sectionName l <:+: l := by
  obtain ⟨w, n, r, rfl, hw, hr⟩ := (isHeader_iff hl).1 h
  rw [sectionName_header hw hr]
  exact (Text.trim_infix_self n).trans ⟨w ++ ['['], ']' :: r, by simp⟩

/-- It lies in the line of a text that it stands in, ahead of the line feed. -/
theorem sectionName_of_mem_lines {t header : Text} (hl : header ∈ Text.lines t)
    (h : isHeader header = true) : sectionName header <:+: header ∧ '\n' ∉ sectionName header := by
  obtain ⟨l, hn, he⟩ := Text.exists_of_mem_lines hl
  have hsame : isHeader header = isHeader l ∧ sectionName header = sectionName l ∧
      l <:+: header := by
    rcases he with rfl | rfl
    · exact ⟨rfl, rfl, List.infix_rfl⟩
    · have hb : Blank ['\n'] := Text.LineEnding.blank .lf
      exact ⟨isHeader_append_blank hb l, sectionName_append_blank hb l,
        (List.prefix_append _ _).isInfix⟩
  obtain ⟨h1, h2, h3⟩ := hsame
  have hi := sectionName_infix_self hn (h1 ▸ h)
  rw [h2]
  exact ⟨hi.trans h3, fun hm => hn (hi.subset hm)⟩

/-- **Generated headers**: the name of the section carries a mark of generated names. -/
theorem isGeneratedHeader_iff {l : Text} (hl : '\n' ∉ l) (h : isHeader l = true) :
    isGeneratedHeader l = true ↔ Naming.isGenerated (sectionName l) = true := by
  obtain ⟨w, n, r, rfl, hw, hr⟩ := (isHeader_iff hl).1 h
  have hrest : '\n' ∉ n ++ ']' :: r := fun hm => hl (by
    rw [List.mem_append, List.mem_cons]
    exact .inr (.inr hm))
  have hd : afterBracket? (w ++ '[' :: (n ++ ']' :: r)) = some (n ++ ']' :: r) := by
    rw [afterBracket?, Text.trimStart_append_of_blank hw]
    exact Text.dropStart?_append ['['] _
  have closed (mark : Text) (hm : Text.trim mark = mark) :
      closedAfter mark (n ++ ']' :: r) = true ↔ Text.holds mark (Text.trim n) = true := by
    rw [closedAfter_iff, visible_eq_self hrest, Text.holds_iff_infix, Text.infix_trim_iff hm]
    constructor
    · rintro ⟨a, b, he, hi⟩
      obtain ⟨b', hb'⟩ : ∃ b', n = a ++ b' := by
        by_cases hmem : ']' ∈ b
        · obtain ⟨x, y, rfl, hy⟩ := Text.exists_last_of_mem hmem
          have : n ++ ']' :: r = (a ++ ']' :: x) ++ ']' :: y := by simp [he]
          exact ⟨']' :: x, (Text.last_unique this hr hy).1⟩
        · exact ⟨[], by simpa using (Text.last_unique he hr hmem).1⟩
      exact hb' ▸ List.infix_append_of_infix_left hi
    · intro hi
      exact ⟨n, r, rfl, hi⟩
  rw [isGeneratedHeader, hd, sectionName_header hw hr, Naming.isGenerated, Bool.or_eq_true,
    Bool.or_eq_true, closed _ (by decide +kernel), closed _ (by decide +kernel)]

/-- The same for a line as it stands in a text, with the line feed that ends it. -/
theorem isGeneratedHeader_iff_of_mem_lines {t line : Text} (hl : line ∈ Text.lines t)
    (h : isHeader line = true) :
    isGeneratedHeader line = true ↔ Naming.isGenerated (sectionName line) = true := by
  obtain ⟨l, hn, rfl | rfl⟩ := Text.exists_of_mem_lines hl
  · exact isGeneratedHeader_iff hn h
  · have hb : Blank ['\n'] := Text.LineEnding.blank .lf
    rw [isHeader_append_blank hb] at h
    rw [isGeneratedHeader_append_blank hb, sectionName_append_blank hb]
    exact isGeneratedHeader_iff hn h

/-- A name in brackets is a header. -/
theorem isHeader_bracketed {n : Text} (hn : '\n' ∉ n) : isHeader ('[' :: (n ++ [']'])) = true :=
  (isHeader_iff (by simp [hn])).2 ⟨[], n, [], rfl, by simp [Blank], by simp⟩

theorem sectionName_bracketed (n : Text) : sectionName ('[' :: (n ++ [']'])) = Text.trim n :=
  sectionName_header (w := []) (r := []) (by simp [Blank]) (by simp)

/-- A line that begins with something other than a bracket is no header. -/
theorem isHeader_eq_false {l : Text} (h : (Text.trimStart l).head? ≠ some '[') :
    isHeader l = false := by
  unfold isHeader afterBracket?
  cases hd : Text.dropStart? ['['] (Text.trimStart l) with
  | none => rfl
  | some rest =>
    rw [Text.dropStart?_eq_some.1 hd] at h
    simp at h

/-- A header begins with a bracket, blanks aside, and has a closing one. -/
theorem isHeader_iff_head {l : Text} (hl : '\n' ∉ l) :
    isHeader l = true ↔ (Text.trimStart l).head? = some '[' ∧ ']' ∈ l := by
  rw [isHeader_iff hl]
  constructor
  · rintro ⟨w, n, r, rfl, hw, -⟩
    exact ⟨by rw [Text.trimStart_append_of_blank hw]; rfl, by simp⟩
  · rintro ⟨hh, hm⟩
    obtain ⟨w, hw, he⟩ := Text.exists_append_trimStart l
    obtain ⟨rest, hrest⟩ : ∃ rest, Text.trimStart l = '[' :: rest := by
      cases ht : Text.trimStart l with
      | nil => simp [ht] at hh
      | cons c rest =>
        rw [ht, List.head?_cons, Option.some.injEq] at hh
        exact ⟨rest, by rw [hh]⟩
    rw [hrest] at he
    have : ']' ∈ rest := by
      rw [he, List.mem_append, List.mem_cons] at hm
      exact (hm.resolve_left (hw.not_mem (by decide))).resolve_left (by decide)
    obtain ⟨n, r, rfl, hr⟩ := Text.exists_last_of_mem this
    exact ⟨w, n, r, he, hw, hr⟩

theorem isHeader_comment (x : Text) : isHeader (';' :: x) = false := by
  apply isHeader_eq_false
  rw [Text.trimStart_eq_self (by simp; decide)]
  simp

/-! ## Assignments -/

/-- The key and the value that a line assigns, if it is a data line with an assignment. -/
def assignment? (line : Text) : Option (Text × Text) :=
  match LineKind.ofLine line with
  | .control _ => none
  | .data d => ((Pairs.ofLine 0 d).toOption).join

theorem withoutBreak_append (line : Text) : ∃ w, Blank w ∧ line = withoutBreak line ++ w := by
  refine ⟨(line.reverse.takeWhile fun c => c == '\r' || c == '\n').reverse, fun c hc => ?_, ?_⟩
  · have := List.mem_takeWhile_imp (List.mem_reverse.1 hc)
    rw [Bool.or_eq_true, beq_iff_eq, beq_iff_eq] at this
    rcases this with rfl | rfl <;> decide
  · rw [withoutBreak, ← List.reverse_append, List.takeWhile_append_dropWhile, List.reverse_reverse]

theorem newline_not_mem_withoutBreak {t line : Text} (h : line ∈ Text.lines t) :
    '\n' ∉ withoutBreak line := by
  obtain ⟨l, hl, he⟩ := Text.exists_of_mem_lines h
  intro hm
  rcases he with rfl | rfl
  · obtain ⟨w, -, hw⟩ := withoutBreak_append line
    exact hl (hw ▸ List.mem_append_left _ hm)
  · have : withoutBreak (l ++ ['\n']) = withoutBreak l := by simp [withoutBreak]
    obtain ⟨w, -, hw⟩ := withoutBreak_append l
    exact hl (hw ▸ List.mem_append_left _ (this ▸ hm))

/-- Whether a line begins with a word, blanks aside. -/
def opensWith (line word : Text) : Bool :=
  match Text.dropStart? word (Text.trimStart line) with
  | some rest => endsWord rest
  | none => false

theorem isControl_eq (line : Text) : isControl line = controlWords.any (opensWith line) := rfl

theorem opensWith_append_blank {w : Text} (hw : Blank w) (l : Text) {word : Text}
    (hne : word ≠ []) (hb : ∀ c ∈ word, isBlank c = false) :
    opensWith (l ++ w) word = opensWith l word := by
  unfold opensWith
  rcases Text.dropStart?_trimStart_append_blank hw hne l with h | ⟨h, r, hr, h'⟩
  · rw [h]
    cases Text.dropStart? word (Text.trimStart l) with
    | none => rfl
    | some rest => exact endsWord_append_blank hw rest
  · exfalso
    rcases List.eq_nil_or_concat word with rfl | ⟨m, c, rfl⟩
    · exact hne rfl
    · rw [List.concat_eq_append] at *
      have hc : isBlank c = false := hb c (by simp)
      have he := Text.dropStart?_eq_some.1 h'
      by_cases hl : Text.trimStart l = []
      · rw [Text.trimStart_of_blank ((Text.blank_of_trimStart_eq_nil hl).append hw)] at he
        simp at he
      · rw [Text.trimStart_append_of_ne_nil hl, List.append_assoc, List.singleton_append] at he
        obtain ⟨y, hy, -⟩ := Text.exists_of_append_blank hw hc he
        have : Text.dropStart? (m ++ [c]) (Text.trimStart l) = some y :=
          Text.dropStart?_eq_some.2 (by simp [hy])
        simp [this] at h

theorem isControl_append_blank {w : Text} (hw : Blank w) (l : Text) :
    isControl (l ++ w) = isControl l := by
  have hwords : ∀ word ∈ controlWords, word ≠ [] ∧ word.all (!isBlank ·) = true := by decide
  rw [isControl_eq, isControl_eq, Bool.eq_iff_iff, List.any_eq_true, List.any_eq_true]
  refine exists_congr fun word => and_congr_right fun h => ?_
  rw [opensWith_append_blank hw l (hwords word h).1 (by simpa using (hwords word h).2)]

theorem isControl_of_blank {w : Text} (hw : Blank w) : isControl w = false :=
  isControl_append_blank hw []

/-- The kind of a line does not depend on the break that ends it. -/
theorem isControl_withoutBreak (line : Text) : isControl (withoutBreak line) = isControl line := by
  obtain ⟨w, hw, h⟩ := withoutBreak_append line
  conv => rhs; rw [h, isControl_append_blank hw]

theorem trim_withoutBreak (line : Text) : Text.trim (withoutBreak line) = Text.trim line := by
  obtain ⟨w, hw, h⟩ := withoutBreak_append line
  conv => rhs; rw [h, Text.trim_append_of_blank hw]

theorem eq_withoutBreak_of_control {line c : Text} (h : LineKind.ofLine line = .control c) :
    c = withoutBreak line ∧ isControl c = true := by
  unfold LineKind.ofLine at h
  simp only at h
  split at h
  · next hc =>
    obtain rfl : withoutBreak line = c := by simpa using h
    exact ⟨rfl, hc⟩
  · simp at h

theorem isHeader_withoutBreak (line : Text) : isHeader (withoutBreak line) = isHeader line := by
  obtain ⟨w, hw, h⟩ := withoutBreak_append line
  conv => rhs; rw [h, isHeader_append_blank hw]

theorem assignment?_eq_none_of_isControl {line : Text} (h : isControl line = true) :
    assignment? line = none := by
  simp [assignment?, LineKind.ofLine, isControl_withoutBreak, h]

/-- Text around the equals sign of an assignment, and what is made of it. -/
theorem exists_of_ofLine {n : Nat} {line k v : Text}
    (h : Pairs.ofLine n line = .ok (some (k, v))) :
    ∃ a b, line = a ++ '=' :: b ∧ '=' ∉ a ∧ k = Text.trim a ∧ v = Text.trim b ∧ k ≠ [] := by
  cases Pairs.ofLine_eq_ok_iff.1 h with
  | @assignment a b _ ha hkey => exact ⟨a, b, rfl, ha, rfl, rfl, mt Text.trim_eq_nil_iff.1 hkey⟩

/-- The same for a line that is read without the break that ends it. -/
theorem exists_of_assignment?_withoutBreak {line k v : Text}
    (h : assignment? line = some (k, v)) : ∃ a b, withoutBreak line = a ++ '=' :: b ∧ '=' ∉ a ∧
      k = Text.trim a ∧ v = Text.trim b ∧ k ≠ [] := by
  unfold assignment? LineKind.ofLine at h
  simp only at h
  split at h
  · simp at h
  next d hd =>
  cases ho : Pairs.ofLine 0 d with
  | error fault => simp [ho, Except.toOption] at h
  | ok r =>
    rw [ho] at h
    obtain rfl : r = some (k, v) := by simpa [Except.toOption] using h
    split at hd
    · simp at hd
    obtain rfl : withoutBreak line = d := by simpa using hd
    exact exists_of_ofLine ho

/-- **Where key and value stand**: on either side of the first equals sign, blanks aside. -/
theorem exists_of_assignment? {line k v : Text} (h : assignment? line = some (k, v)) :
    ∃ a b, line = a ++ '=' :: b ∧ '=' ∉ a ∧ k = Text.trim a ∧ v = Text.trim b ∧ k ≠ [] := by
  obtain ⟨a, b, he, ha, rfl, rfl, hne⟩ := exists_of_assignment?_withoutBreak h
  obtain ⟨w, hw, hline⟩ := withoutBreak_append line
  refine ⟨a, b ++ w, ?_, ha, rfl, (Text.trim_append_of_blank hw b).symm, hne⟩
  conv => lhs; rw [hline, he]
  simp

/-- Key and value lie in the line that assigns them. -/
theorem infix_of_assignment? {line k v : Text} (h : assignment? line = some (k, v)) :
    k <:+: withoutBreak line ∧ v <:+: withoutBreak line := by
  obtain ⟨a, b, he, -, rfl, rfl, -⟩ := exists_of_assignment?_withoutBreak h
  exact ⟨(Text.trim_infix_self a).trans ⟨[], '=' :: b, by simp [he]⟩,
    (Text.trim_infix_self b).trans ⟨a ++ ['='], [], by simp [he]⟩⟩

/-- What a line assigns does not depend on the blanks at its end. -/
theorem assignment?_append_blank {w : Text} (hw : Blank w) (l : Text) :
    assignment? (l ++ w) = assignment? l := by
  have htrim : Text.trim (withoutBreak (l ++ w)) = Text.trim (withoutBreak l) := by
    rw [trim_withoutBreak, trim_withoutBreak, Text.trim_append_of_blank hw]
  simp only [assignment?, LineKind.ofLine, isControl_withoutBreak, isControl_append_blank hw]
  by_cases hc : isControl l = true
  · simp only [hc, if_true]
  · simp only [hc, Bool.false_eq_true, if_false, Pairs.ofLine, htrim]

theorem withoutBreak_infix_self (line : Text) : withoutBreak line <:+: line := by
  obtain ⟨w, -, h⟩ := withoutBreak_append line
  exact ⟨[], w, by simpa using h.symm⟩

end Reskin.Ini.Line
