import Reskin.Proofs.ModFile.Block
import Reskin.Proofs.Remap.Erasure

/-!
# Adding and removing generated content

For plain characters and a text free of fences, removal takes back what was added: the block is the
only fence, and all that it runs is declared in it. The text is the same again up to its blank end,
and text that has since been written behind the block stays.

## Main definitions

* `ModFile.MayFollow`: what may be written behind a block
* `ModFile.Confined`: lines that declare and run only sections of a block

## Main results

* `ModFile.clean_ahead`, `ModFile.after?_ahead`: nothing is taken ahead of a block
* `ModFile.exists_body_of_confined`: calls do not leave confined lines
* `ModFile.cut_fenceOf`: the block is the only fence
* `ModFile.exists_body_of_declared`: whatever the block runs is declared in it
* `ModFile.undo_apply`: removal takes back what was added
-/

namespace Reskin

open Ini (Document Line.isHeader Line.sectionName)
open Remap (Clean Inert LeavesAlone blockRule blockStyle)
open Remap.Fence (FenceFree RuleFree)

namespace Ini.Line

theorem bare_append (line : Text) : ∃ w, Text.Blank w ∧ line = Text.bare line ++ w := by
  have hn : Text.Blank ['\n'] := Text.LineEnding.blank .lf
  have hrn : Text.Blank ['\r', '\n'] := Text.LineEnding.blank .crlf
  unfold Text.bare
  split
  · next r h => exact ⟨_, hrn, by simpa using congrArg List.reverse h⟩
  · next r _ h => exact ⟨_, hn, by simpa using congrArg List.reverse h⟩
  · exact ⟨[], by simp [Text.Blank], by simp⟩

theorem isHeader_bare (line : Text) : isHeader (Text.bare line) = isHeader line := by
  obtain ⟨w, hw, h⟩ := bare_append line
  conv => rhs; rw [h, isHeader_append_blank hw]

theorem sectionName_bare (line : Text) : sectionName (Text.bare line) = sectionName line := by
  obtain ⟨w, hw, h⟩ := bare_append line
  conv => rhs; rw [h, sectionName_append_blank hw]

end Ini.Line

/-- The names inside a fence are those of its headers. -/
theorem mem_fencedNames_singleton {fence name : Text} : name ∈ Remap.fencedNames [fence] ↔
    ∃ l ∈ Text.lines fence, Line.isHeader l = true ∧ Line.sectionName l = name := by
  simp [Remap.fencedNames, Text.bareLines, Ini.Line.isHeader_bare, Ini.Line.sectionName_bare,
    and_assoc]

namespace ModFile

/-! ## Removal -/

section Removal

variable {k k' u : ModFile} {d : Disk} {r : Remap.Erasure} (hk : k.load d = .ok k')

include hk

theorem undo_eq_of_erase (h : Remap.erase k'.folder k'.text = .ok r) :
    k.undo d = (.ok r, if r.isUnchanged then k'.withDocument
      else (k'.withDocument.setText r.text).withDocument) := by
  unfold undo
  rw [ensureParsed_eq_ok.2 ⟨k', hk, rfl⟩]
  simp only [text_withDocument, folder_withDocument, h]

theorem exists_undo_of_erase (h : Remap.erase k'.folder k'.text = .ok r) :
    ∃ u, k.undo d = (.ok r, u) ∧ u.text = r.text := by
  refine ⟨_, undo_eq_of_erase hk h, ?_⟩
  split
  · next hu => rw [(Remap.isUnchanged_iff_text_eq h).1 hu, text_withDocument]
  · rw [text_withDocument]
    rfl

theorem undo_eq_of_erase_error {fault : Fault}
    (h : Remap.erase k'.folder k'.text = .error fault) :
    k.undo d = (.error fault, k'.withDocument) := by
  unfold undo
  rw [ensureParsed_eq_ok.2 ⟨k', hk, rfl⟩]
  simp only [text_withDocument, folder_withDocument, h]

/-- What removal answers is what erasure makes of the text. -/
theorem erase_of_undo (h : k.undo d = (.ok r, u)) :
    Remap.erase k'.folder k'.text = .ok r ∧ u.text = r.text := by
  cases he : Remap.erase k'.folder k'.text with
  | error fault => simp [undo_eq_of_erase_error hk he] at h
  | ok r' =>
    obtain ⟨u', hu, ht⟩ := exists_undo_of_erase hk he
    rw [hu] at h
    obtain ⟨rfl, rfl⟩ : r' = r ∧ u' = u := by simpa using h
    exact ⟨rfl, ht⟩

theorem erase_of_undo_error {fault : Fault} (h : k.undo d = (.error fault, u)) :
    Remap.erase k'.folder k'.text = .error fault := by
  cases he : Remap.erase k'.folder k'.text with
  | ok r =>
    obtain ⟨u', hu, -⟩ := exists_undo_of_erase hk he
    simp [hu] at h
  | error fault' =>
    rw [undo_eq_of_erase_error hk he] at h
    exact congrArg Prod.fst h

/-- Removal succeeds exactly if erasure does. -/
theorem exists_undo_iff :
    (∃ r u, k.undo d = (.ok r, u)) ↔ ∃ r, Remap.erase k'.folder k'.text = .ok r := by
  constructor
  · rintro ⟨r, u, hu⟩
    exact ⟨r, (erase_of_undo hk hu).1⟩
  · rintro ⟨r, hr⟩
    obtain ⟨u, hu, -⟩ := exists_undo_of_erase hk hr
    exact ⟨r, u, hu⟩

end Removal

/-! ## Ahead of the block -/

section Ahead

variable {t : Text}

theorem ahead_eq (t : Text) : ∃ w, Text.Blank w ∧ ahead t = Text.trimEnd t ++ w := by
  have he := (Text.lineEnding t).blank
  exact ⟨_, (he.append he).append he, by simp [ahead]⟩

theorem trimEnd_ahead (t : Text) : Text.trimEnd (ahead t) = Text.trimEnd t := by
  obtain ⟨w, hw, he⟩ := ahead_eq t
  rw [he, Text.trimEnd_append_of_blank hw, Text.trimEnd_trimEnd]

theorem ahead_ne_nil (t : Text) : ahead t ≠ [] := by
  unfold ahead
  cases Text.lineEnding t <;> simp [Text.LineEnding.text]

/-- **Ahead of a block** the lines of a text that is left alone stay clean. -/
theorem clean_ahead (h : ∀ l ∈ Text.lines t, Clean l) : ∀ l ∈ Text.lines (ahead t), Clean l :=
  Remap.clean_of_trimEnd_eq (trimEnd_ahead t) h

/-- A heading ahead of a block is one of the text. -/
theorem holdsHeading_of_ahead {s : Remap.Fence.Style} (hs : s ∈ Remap.Fence.styles) {title : Text}
    (hn : '\n' ∉ title) (h : s.heading title <:+: ahead t) : Remap.Fence.HoldsHeading s t := by
  obtain ⟨w, hw, he⟩ := ahead_eq t
  rw [he, Text.infix_append_blank_iff (Remap.Fence.getLast?_heading s title) (by decide) hw] at h
  exact (Remap.Fence.holdsHeading_iff hs).2 ⟨title, hn, h.trans (Text.trimEnd_infix_self t)⟩

/-- **No fence begins ahead of a block** in a text without headings, whatever follows. -/
theorem after?_ahead (h : FenceFree t) (x : Text) {p q : Text} (he : ahead t = p ++ q)
    (hq : q ≠ []) : Remap.Fence.after? (q ++ x) = none := by
  cases ha : Remap.Fence.after? (q ++ x) with
  | none => rfl
  | some rest =>
    have hw : Text.Whole q := (he ▸ whole_ahead t).of_append
    obtain ⟨s, hs, title, r, hn, rfl, -⟩ := Remap.Fence.exists_heading_of_after? hw hq ha
    exact absurd (holdsHeading_of_ahead hs hn ⟨p, r, by simp [he]⟩) (h.noHeading s hs)

end Ahead

/-! ## Behind the block -/

/-- **What may be written behind a block**: nothing, or text that begins on a new line, is left
alone by erasure, and has a header as its first line that is not blank. -/
def MayFollow (folder s : Text) : Prop :=
  s = [] ∨ (∃ e : Text.LineEnding, e.text <+: s) ∧
    ((Text.lines s).find? (Text.trim · ≠ [])).any Line.isHeader = true ∧ LeavesAlone folder s

section Behind

variable {folder s : Text} (h : MayFollow folder s)

include h

theorem MayFollow.cut_eq : Remap.Fence.cut s = ([], s) := by
  rcases h with rfl | ⟨-, -, h⟩
  · exact Remap.Fence.cut_nil
  · exact (Remap.leavesAlone_iff.1 h).1

theorem MayFollow.clean : ∀ l ∈ Text.lines s, Clean l := by
  rcases h with rfl | ⟨-, -, h⟩
  · simp [Text.lines]
  · exact (Remap.leavesAlone_iff.1 h).2

theorem MayFollow.head?_ne : s.head? ≠ some '-' := by
  rcases h with rfl | ⟨⟨e, r, rfl⟩, -, -⟩
  · simp
  · cases e <;> simp [Text.LineEnding.text]

/-- A rule and what follows it: the rule has a line of its own, and up to the first header all other
lines are blank. -/
theorem MayFollow.lines_rule {rule : Text} (hr : '\n' ∉ rule) (hne : rule ≠ []) :
    ∃ w ls, Text.Blank w ∧ Text.lines (rule ++ s) = (rule ++ w) :: ls ∧
      (∀ l ∈ ls, l ∈ Text.lines s) ∧ ∀ l ∈ ls.takeWhile (!Line.isHeader ·), Text.Blank l := by
  rcases h with rfl | ⟨⟨e, r, rfl⟩, hfirst, -⟩
  · exact ⟨[], [], by simp [Text.Blank], by simp [Text.lines_of_not_mem hr hne], by simp, by simp⟩
  · have hlines : Text.lines (e.text ++ r) = e.text :: Text.lines r := by
      simpa using Text.lines_line_append (l := []) (by simp) e r
    have hrule : Text.lines (rule ++ (e.text ++ r)) = (rule ++ e.text) :: Text.lines r := by
      simpa using Text.lines_line_append hr e r
    refine ⟨e.text, Text.lines r, e.blank, hrule, fun l hl => by simp [hlines, hl], ?_⟩
    have hblank : Text.trim e.text = [] := by cases e <;> decide
    rw [hlines, List.find?_cons_of_neg (by simp [hblank])] at hfirst
    generalize Text.lines r = ls at hfirst
    induction ls with
    | nil => simp
    | cons l ls ih =>
      by_cases hl : Text.trim l = []
      · rw [List.find?_cons_of_neg (by simp [hl])] at hfirst
        intro x hx
        rw [List.takeWhile_cons] at hx
        split at hx
        · rcases List.mem_cons.1 hx with rfl | hx
          · exact Text.trim_eq_nil_iff.1 hl
          · exact ih hfirst x hx
        · simp at hx
      · rw [List.find?_cons_of_pos (by simpa using hl)] at hfirst
        have : Line.isHeader l = true := by simpa using hfirst
        simp [this]

end Behind

/-! ## Confined lines -/

/-- A line that declares and runs only sections with the property. -/
def Confined (S : Text → Prop) (l : Text) : Prop :=
  (Line.isHeader l = true → S (Line.sectionName l)) ∧
    ∀ k v, Ini.Line.assignment? l = some (k, v) →
      Text.eqCaseless k Ini.Key.run.text = true → S v

section Confined

variable {S : Text → Prop}

/-- Blanks at the end of a line do not count. -/
theorem Confined.of_trimEnd_eq {l l' : Text} (he : Text.trimEnd l' = Text.trimEnd l)
    (h : Confined S l') : Confined S l := by
  have hheader : Line.isHeader l' = Line.isHeader l :=
    Text.eq_of_trimEnd_eq (fun _ hw t => Ini.Line.isHeader_append_blank hw t) he
  have hname : Line.sectionName l' = Line.sectionName l :=
    Text.eq_of_trimEnd_eq (fun _ hw t => Ini.Line.sectionName_append_blank hw t) he
  have hassign : Ini.Line.assignment? l' = Ini.Line.assignment? l :=
    Text.eq_of_trimEnd_eq (fun _ hw t => Ini.Line.assignment?_append_blank hw t) he
  rwa [Confined, ← hheader, ← hname, ← hassign]

theorem confined_comment {y w : Text} (hno : '=' ∉ y) (hw : Text.Blank w) :
    Confined S (';' :: y ++ w) := by
  have hh : Line.isHeader (';' :: y ++ w) = false := Ini.Line.isHeader_comment _
  have hassign := Remap.assignment?_eq_none hw (l := ';' :: y) (by simp [hno])
  rw [Confined, hh, hassign]
  simp

theorem confined_of_blank {w : Text} (hw : Text.Blank w) : Confined S w := by
  have hassign := Remap.assignment?_eq_none hw (l := []) (by simp)
  rw [List.nil_append] at hassign
  rw [Confined, Ini.Line.isHeader_of_blank hw, hassign]
  simp

theorem Confined.of_inert {l w : Text} (h : Inert S l) (hw : Text.Blank w) :
    Confined S (l ++ w) := by
  rw [Confined, Ini.Line.isHeader_append_blank hw, Ini.Line.sectionName_append_blank hw]
  exact ⟨h.header, h.call w hw⟩

/-- **Calls do not leave confined lines**: a section that they declare runs only sections with the
property, if it is not declared elsewhere and blank lines follow it up to the next header. -/
theorem exists_body_of_confined {before middle after : List Text}
    (hmiddle : ∀ l ∈ middle, Confined S l) {l : Text} (hl : l ∈ middle)
    (hh : Line.isHeader l = true)
    (hbefore : ∀ m ∈ before, Line.isHeader m = true → Line.sectionName m ≠ Line.sectionName l)
    (hafter : ∀ m ∈ after, Line.isHeader m = true → Line.sectionName m ≠ Line.sectionName l)
    (hblank : ∀ m ∈ after.takeWhile (!Line.isHeader ·), Text.Blank m) :
    ∃ b, (Document.ofLines [] none (before ++ middle ++ after)).bodies.get?
        (Line.sectionName l) = some b ∧ ∀ c ∈ b.callees, S c := by
  obtain ⟨lines, hget, hin⟩ := Document.exists_body_of_middle [] none hl hh hbefore hafter
  refine ⟨_, hget, fun c hc => ?_⟩
  obtain ⟨line, hline, k, hassign, hk⟩ := Ini.Body.exists_line_of_mem_callees hc
  have hconfined : Confined S line := by
    rcases (hin line hline).2 with hm | hm
    · exact hmiddle line hm
    · exact confined_of_blank (hblank line hm)
  exact hconfined.2 k c hassign hk

end Confined

/-! ## The block as a fence -/

/-- A block in the line ending of a text: a heading, inert lines and the rule. -/
def fenceOf (e : Text.LineEnding) (title : Text) (ls : List Text) : Text :=
  blockStyle.heading (title ++ [' ']) ++ e.text ++ (Text.unlines e ls ++ blockRule title)

theorem not_mem_title {title : Text} (htitle : ∀ c ∈ title, c.isAlphanum = true ∨ c = ' ')
    {c : Char} (hc : c.isAlphanum = false) (hs : c ≠ ' ') : c ∉ title ++ [' '] := by
  rw [List.mem_append, List.mem_singleton, not_or]
  refine ⟨fun hm => ?_, hs⟩
  rcases htitle c hm with h | h
  · simp [h] at hc
  · exact hs h

/-- The heading of a block closes no fence. -/
theorem quiet_heading {title : Text} (htitle : ∀ c ∈ title, c.isAlphanum = true ∨ c = ' ') :
    Remap.Quiet (blockStyle.heading (title ++ [' '])) :=
  ⟨Remap.Fence.newline_not_mem_heading Remap.blockStyle_mem
      (not_mem_title htitle (by decide) (by decide)),
    Remap.Fence.not_shortestRule_infix_heading Remap.blockStyle_mem
      (not_mem_title htitle (by decide) (by decide))⟩

section Fence

variable {e : Text.LineEnding} {title : Text} {ls : List Text} {S : Text → Prop}
  (htitle : ∀ c ∈ title, c.isAlphanum = true ∨ c = ' ') (hls : ∀ l ∈ ls, Inert S l)

include hls

theorem lines_unlines_of_inert (t : Text) :
    Text.lines (Text.unlines e ls ++ t) = ls.map (· ++ e.text) ++ Text.lines t :=
  Text.lines_unlines_append (fun l hl => (hls l hl).quiet.newline) e t

/-- Inert lines close no fence. -/
theorem not_closing_infix_unlines : ¬ blockStyle.closing <:+: Text.unlines e ls :=
  Remap.not_shortestRule_infix_unlines (fun l hl => (hls l hl).quiet) e

include htitle

/-- **The block is one fence**, whatever follows it that does not prolong its rule. -/
theorem after?_fenceOf {rest : Text} (hrest : rest.head? ≠ some '-') :
    Remap.Fence.after? (fenceOf e title ls ++ rest) = some rest := by
  have h := Remap.Fence.after?_block (e := e) (n := title.length + 38) Remap.blockStyle_mem
    (not_mem_title htitle (by decide) (by decide))
    (not_mem_title htitle (by decide) (by decide)) (Text.whole_unlines e ls)
    (not_closing_infix_unlines hls) (by simp [blockStyle]) hrest
  rw [← h, fenceOf, blockRule]
  simp only [List.append_assoc]

/-- The block is the only fence. -/
theorem cut_fenceOf {folder t s : Text} (hfree : FenceFree t) (hs : MayFollow folder s) :
    Remap.Fence.cut (ahead t ++ (fenceOf e title ls ++ s)) =
      ([fenceOf e title ls], ahead t ++ s) := by
  have hne : fenceOf e title ls ≠ [] := by simp [fenceOf, Remap.Fence.heading_ne_nil]
  rw [Remap.Fence.cut_append fun p q he hq => after?_ahead hfree _ he hq,
    Remap.Fence.cut_of_after? hne (after?_fenceOf htitle hls hs.head?_ne), hs.cut_eq]

theorem lines_fenceOf (t : Text) : Text.lines (fenceOf e title ls ++ t) =
    (blockStyle.heading (title ++ [' ']) ++ e.text) :: (ls.map (· ++ e.text) ++
      Text.lines (blockRule title ++ t)) := by
  have := Text.lines_line_append (quiet_heading htitle).newline e
    (Text.unlines e ls ++ (blockRule title ++ t))
  rw [lines_unlines_of_inert hls] at this
  simpa [fenceOf] using this

theorem lines_fenceOf_self : Text.lines (fenceOf e title ls) =
    (blockStyle.heading (title ++ [' ']) ++ e.text) ::
      (ls.map (· ++ e.text) ++ [blockRule title]) := by
  rw [← List.append_nil (fenceOf e title ls), lines_fenceOf htitle hls, List.append_nil,
    Text.lines_of_not_mem (Remap.newline_not_mem_blockRule title) (by simp [blockRule])]

/-- **The lines of the block**, whatever blanks end its rule, declare and run sections of the block
only. -/
theorem confined_of_mem_block {w : Text} (hw : Text.Blank w) {l : Text}
    (hl : l ∈ (blockStyle.heading (title ++ [' ']) ++ e.text) ::
      (ls.map (· ++ e.text) ++ [blockRule title ++ w])) : Confined S l := by
  rw [List.mem_cons, List.mem_append, List.mem_singleton] at hl
  rcases hl with rfl | hl | rfl
  · refine confined_comment ?_ e.blank
    have hdash : '=' ∉ Ini.Line.blockDashes := by decide
    have hwords : '=' ∉ blockStyle.words := by decide
    have htitle := not_mem_title htitle (c := '=') (by decide) (by decide)
    rw [List.mem_append, not_or] at htitle
    simp [Ini.Line.headingEnd, hdash, hwords, htitle.1]
  · obtain ⟨m, hm, rfl⟩ := List.mem_map.1 hl
    exact .of_inert (hls m hm) e.blank
  · have hno : '=' ∉ ' ' :: Text.rule (title.length + 38) '-' := by
      simp [Text.rule, List.mem_replicate]
    exact confined_comment hno hw

theorem confined_of_mem_lines_fenceOf {l : Text} (hl : l ∈ Text.lines (fenceOf e title ls)) :
    Confined S l := by
  rw [lines_fenceOf_self htitle hls, ← List.append_nil (blockRule title)] at hl
  exact confined_of_mem_block htitle hls (by simp [Text.Blank]) hl

/-- The names of the headers in the fence are declared. -/
theorem of_mem_fencedNames {name : Text} (h : name ∈ Remap.fencedNames [fenceOf e title ls]) :
    S name := by
  obtain ⟨line, hline, hh, rfl⟩ := mem_fencedNames_singleton.1 h
  exact (confined_of_mem_lines_fenceOf htitle hls hline).1 hh

/-- Every header between heading and rule is one of the fence. -/
theorem mem_fencedNames_of_mem {l : Text} (hl : l ∈ ls) (hh : Line.isHeader l = true) :
    Line.sectionName l ∈ Remap.fencedNames [fenceOf e title ls] := by
  refine mem_fencedNames_singleton.2 ⟨l ++ e.text, ?_, ?_, Ini.Line.sectionName_append_blank e.blank l⟩
  · rw [lines_fenceOf_self htitle hls]
    exact List.mem_cons_of_mem _ (List.mem_append_left _ (List.mem_map.2 ⟨l, hl, rfl⟩))
  · rw [Ini.Line.isHeader_append_blank e.blank, hh]

/-- **Whatever the block runs is declared in it**, between clean lines and what may follow. -/
theorem exists_body_of_declared {folder pre s : Text} (hpre : Text.Whole pre)
    (hclean : ∀ l ∈ Text.lines pre, Clean l) (hs : MayFollow folder s)
    (hgen : ∀ n, S n → Naming.isGenerated n = true)
    (hhead : ∀ n, S n → ∃ l ∈ ls, Line.isHeader l = true ∧ Line.sectionName l = n) {n : Text}
    (hn : S n) : ∃ b, (Document.plain (pre ++ (fenceOf e title ls ++ s))).bodies.get? n = some b ∧
      ∀ c ∈ b.callees, S c := by
  obtain ⟨l, hl, hh, rfl⟩ := hhead n hn
  obtain ⟨w, after, hw, hlines, hafter, hblank⟩ :=
    hs.lines_rule (Remap.newline_not_mem_blockRule title) (by simp [blockRule])
  have htext : Text.lines (pre ++ (fenceOf e title ls ++ s)) = Text.lines pre ++
      (blockStyle.heading (title ++ [' ']) ++ e.text) ::
        (ls.map (· ++ e.text) ++ [blockRule title ++ w]) ++ after := by
    rw [Text.lines_append hpre, lines_fenceOf htitle hls, hlines]
    simp
  have hname : Line.sectionName (l ++ e.text) = Line.sectionName l :=
    Ini.Line.sectionName_append_blank e.blank l
  have hother {t : Text} (x : Text) (hx : x ∈ Text.lines t) (hc : Clean x)
      (hxh : Line.isHeader x = true) : Line.sectionName x ≠ Line.sectionName (l ++ e.text) :=
    hname ▸ Remap.sectionName_ne_of_clean hx hc hxh (hgen _ hn)
  rw [← hname, Document.plain, Document.ofText, htext]
  refine exists_body_of_confined (fun x hx => confined_of_mem_block htitle hls hw hx)
    (List.mem_cons_of_mem _ (List.mem_append_left _ (List.mem_map.2 ⟨l, hl, rfl⟩)))
    (by rw [Ini.Line.isHeader_append_blank e.blank, hh])
    (fun x hx => hother x hx (hclean x hx))
    (fun x hx => hother x (hafter x hx) (hs.clean x (hafter x hx))) hblank

end Fence

/-! ## The round trip -/

namespace Application

variable {f : ModFile} {d : Disk} (a : Application f d)

theorem read_eq {g : ModFile} (h : f.load d = .ok g) : a.read = g.withDocument := by
  obtain ⟨g', hl, he⟩ := ensureParsed_eq_ok.1 a.ensureParsed_eq
  rw [h] at hl
  rw [he, Except.ok.inj hl]

theorem text_read {g : ModFile} (h : f.load d = .ok g) : a.read.text = g.text := by
  rw [a.read_eq h, text_withDocument]

variable (hf : f.IsCurrent) (hp : f.IsPlain)

include hf hp

/-- The text that results ends in a fence of inert lines, with a header for every name that the
block declares. -/
theorem exists_fence (hrule : RuleFree a.read.text) : ∃ ls, a.text = ahead a.read.text ++
      fenceOf (Text.lineEnding a.read.text) a.character.title ls ∧
    (∀ l ∈ ls, Inert a.Declares l) ∧
    (∀ n, a.Declares n → ∃ l ∈ ls, Line.isHeader l = true ∧ Line.sectionName l = n) ∧
    Remap.Erasable ls := by
  obtain ⟨ls, hblock, hinert, hhead, herasable⟩ := a.exists_block_lines hf hp hrule
  refine ⟨ls, ?_, hinert, hhead, herasable⟩
  have hh := Remap.Fence.newline_not_mem_heading Remap.blockStyle_mem
    (newline_not_mem_title a.character)
  have hlines : a.block = Text.unlines .lf (blockStyle.heading (a.character.title ++ [' ']) :: ls) ++
      blockRule a.character.title := by
    simp [hblock, Text.LineEnding.text]
  rw [Application.text, appended_eq, hlines, Text.withEnding_unlines_append
    (by simpa [hh] using fun l hl => (hinert l hl).quiet.newline)
    (Remap.newline_not_mem_blockRule _)]
  simp [fenceOf]

/-- **Erasure of the block**: the fence goes, all else stays. -/
theorem exists_erase (hfree : FenceFree a.read.text)
    (hclean : ∀ l ∈ Text.lines a.read.text, Clean l) {folder s : Text}
    (hs : MayFollow folder s) (folder' : Text) :
    ∃ r, Remap.erase folder' (a.text ++ s) =
      .ok ⟨Text.trimEnd (ahead a.read.text ++ s), 1, [], 0, r⟩ := by
  obtain ⟨ls, htext, hinert, hhead, -⟩ := a.exists_fence hf hp hfree.noRule
  have htitle := a.plain_title hf hp
  have hcut : Remap.Fence.cut (a.text ++ s) =
      ([fenceOf (Text.lineEnding a.read.text) a.character.title ls], ahead a.read.text ++ s) := by
    rw [htext, List.append_assoc, cut_fenceOf htitle hinert hfree hs]
  refine Remap.exists_erase_of_fence hcut (fun l hl => ?_) (fun n hn => ?_)
    (fun n hn => of_mem_fencedNames htitle hinert hn)
  · rw [Text.lines_append (whole_ahead _)] at hl
    rcases List.mem_append.1 hl with hl | hl
    · exact clean_ahead hclean l hl
    · exact hs.clean l hl
  · rw [htext, List.append_assoc]
    exact exists_body_of_declared htitle hinert (whole_ahead _) (clean_ahead hclean) hs
      (fun _ => a.isGenerated_of_declares hf hp hfree.noRule) hhead hn

end Application

/-- **Removal takes back what was added**, together with the blank end of the text, and leaves what
has been written behind the block. -/
theorem undo_apply {f f' g : ModFile} {d : Disk} {variants : VariantSet} (hf : f.IsCurrent)
    (hp : f.IsPlain) (hload : f.load d = .ok g) (halone : LeavesAlone f.folder g.text)
    (hfree : FenceFree g.text) (h : f.apply d = (.ok (.applied variants), f')) (s : Text)
    (hs : MayFollow f.folder s) (k k' : ModFile) (d' : Disk) (hk : k.load d' = .ok k')
    (hk' : k'.text = f'.text ++ s) :
    ∃ e u, k.undo d' = (.ok e, u) ∧ e.blocks = 1 ∧ e.sections = [] ∧ e.comments = 0 ∧
      e.text = Text.trimEnd (ahead g.text ++ s) ∧ u.text = e.text ∧
      (s = [] → e.text = Text.trimEnd g.text) := by
  obtain ⟨a, rfl, -⟩ := exists_application h
  rw [← a.text_read hload] at hfree halone ⊢
  obtain ⟨-, hclean⟩ := Remap.leavesAlone_iff.1 halone
  rw [a.text_result] at hk'
  obtain ⟨r, hr⟩ := a.exists_erase hf hp hfree hclean hs k'.folder
  rw [← hk'] at hr
  obtain ⟨u, hu, ht⟩ := exists_undo_of_erase hk hr
  refine ⟨_, u, hu, rfl, rfl, rfl, rfl, ht, ?_⟩
  rintro rfl
  rw [List.append_nil, trimEnd_ahead]

theorem isPlain_raidenFile (text : Text) : (raidenFile text).IsPlain := by
  constructor
  · simp [raidenFile, withAssumed, ofText, ofSource]
  · rintro c ⟨⟩
    decide +kernel

theorem reachable_raidenFile (text : Text) : Reachable (raidenFile text) :=
  .step (d := .empty) (.ofText text) (.withAssumed _)

theorem hasPlainVariants_of_raidenFile (text : Text) (c : Character)
    (hc : (raidenFile text).MayBelongTo c) : c.HasPlainVariants :=
  ((isPlain_raidenFile text).of_mayBelongTo hc).hasPlainVariants

/-- The file that an application has read: it is reached, and what is known of its character. -/
theorem Application.reachable_read {text : Text} {d : Disk} (a : Application (raidenFile text) d) :
    Reachable a.read ∧ ∀ c, a.read.MayBelongTo c → c.IsPlain := by
  refine ⟨.step (reachable_raidenFile text) (.ensureParsed a.ensureParsed_eq), fun c hc => ?_⟩
  exact (isPlain_raidenFile text).of_mayBelongTo
    ((mayBelongTo_of_ensureParsed a.ensureParsed_eq c).1 hc)

theorem leavesAlone_blendText (folder : Text) : LeavesAlone folder blendText :=
  Remap.leavesAlone_iff.2 ⟨Remap.Fence.cut_of_not_mem (by decide), by decide +kernel⟩

/-- A section behind the block of the blend override. -/
def constantsText : Text :=
  Text.unlines .lf [[], "[Constants]".toList, "global $active = 0".toList]

theorem mayFollow_constantsText (folder : Text) : MayFollow folder constantsText :=
  .inr ⟨⟨.lf, by decide⟩, by decide +kernel,
    Remap.leavesAlone_iff.2 ⟨Remap.Fence.cut_of_not_mem (by decide), by decide +kernel⟩⟩

/-- The blend override stays, and so does the section that has been written behind its block. -/
theorem undo_apply_blend : ∃ e u,
    (ofText ((blendApplication .empty).result.text ++ constantsText)).undo .empty = (.ok e, u) ∧
      e.blocks = 1 ∧ u.text = Text.unlines .lf ["[TextureOverrideRaidenBlend]".toList,
        "hash = 111".toList, [], [], [], "[Constants]".toList] ++ "global $active = 0".toList := by
  have hcurrent : (raidenFile blendText).IsCurrent := isCurrent_of_parsed rfl
  have hfree : FenceFree blendText := Remap.Fence.fenceFree_of_not_mem (by decide)
  obtain ⟨e, u, hu, hb, -, -, he, ht, -⟩ := undo_apply hcurrent (isPlain_raidenFile blendText) rfl
    (leavesAlone_blendText _) hfree (blendApplication .empty).apply_eq constantsText
    (mayFollow_constantsText _) (ofText _) _ .empty rfl rfl
  exact ⟨e, u, hu, hb, by rw [ht, he]; decide +kernel⟩

end ModFile

end Reskin
