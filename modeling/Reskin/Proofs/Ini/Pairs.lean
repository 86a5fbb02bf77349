import Mathlib.Data.List.Forall2
import Mathlib.Data.List.ReduceOption
import Reskin.Ini.Pairs
import Reskin.Proofs.Text.Split

/-!
# The grammar of assignments

A block of lines is read exactly if every line gives nothing or assigns to some key. A line gives
nothing if it is blank or a comment; else it assigns the text behind its first equals sign to the
text before it, which must not be blank. Of several assignments to one key, in whatever case it is
written, the first counts, in the place where it stands. The same goes for any pairs that are
inserted one after the other, whether or not they can be written on a line.

## Main definitions

* `Ini.Line.Gives`, `Ini.Line.IsFaulty`: the lines of the grammar, and what is wrong with the others
* `Ini.Pairs.Distinct`: assignments to different keys
* `Ini.Pairs.insertAll`: a run of insertions
* `Ini.Pairs.sameKey`: pairs with one key, whatever its case

## Main results

* `Ini.Pairs.ofLine_eq_ok_iff`, `Ini.Pairs.ofLine_eq_error_iff`: how one line is read
* `Ini.Pairs.ofLines_eq_ok_iff`, `Ini.Pairs.ofLines_eq_error_iff`: how a block is read
* `Ini.Pairs.ofList_eq_eraseDupsBy`, `Ini.Pairs.get?_ofList`, `Ini.Pairs.store_ofList`: what a run of
  insertions leaves, and what it answers
* `Ini.Pairs.grammar_ofLines`: all of this
-/

namespace Reskin.Ini

open Text (Blank)

/-! ## Lines -/

namespace Line

/-- A line whose first character, blanks aside, opens a comment. -/
def IsComment (line : Text) : Prop :=
  ∃ indent c rest, line = indent ++ c :: rest ∧ Blank indent ∧ (c = ';' ∨ c = '#')

/-- **What a line gives**: nothing, or an assignment around its first equals sign. -/
inductive Gives : Text → Option (Text × Text) → Prop
  | nothing {line : Text} : Blank line ∨ IsComment line → Gives line none
  | assignment {before behind : Text} : ¬ IsComment (before ++ '=' :: behind) → '=' ∉ before →
    ¬ Blank before → Gives (before ++ '=' :: behind) (some (Text.trim before, Text.trim behind))

/-- **What is wrong** with a line that gives neither. -/
inductive IsFaulty (number : Nat) : Text → PairFault → Prop
  | missingDelimiter {line : Text} : ¬ Blank line → ¬ IsComment line → '=' ∉ line →
    IsFaulty number line (.missingDelimiter number (Text.trim line))
  | emptyKey {before behind : Text} : Blank before →
    IsFaulty number (before ++ '=' :: behind) (.emptyKey number)

theorem isComment_trim_iff {line : Text} :
    isComment (Text.trim line) = true ↔ IsComment line := by
  constructor
  · intro h
    obtain ⟨c, rest, ht, hc⟩ : ∃ c rest, Text.trim line = c :: rest ∧ (c = ';' ∨ c = '#') := by
      unfold isComment at h
      split at h
      · next rest he => exact ⟨_, rest, he, .inl rfl⟩
      · next rest he => exact ⟨_, rest, he, .inr rfl⟩
      · cases h
    obtain ⟨indent, hindent, hline⟩ := Text.exists_append_trimStart line
    obtain ⟨w, -, hw⟩ := Text.exists_trimEnd_append (Text.trimStart line)
    refine ⟨indent, c, rest ++ w, ?_, hindent, hc⟩
    rw [hline, hw, show Text.trimEnd (Text.trimStart line) = c :: rest from ht, List.cons_append]
  · rintro ⟨indent, c, rest, rfl, hindent, hc⟩
    have hblank : isBlank c = false := by rcases hc with rfl | rfl <;> decide
    rw [Text.trim_append_cons hblank, Text.trimStart_of_blank hindent, List.nil_append]
    rcases hc with rfl | rfl <;> rfl

/-- The lines that are read as nothing. -/
theorem idle_iff {line : Text} : (Text.trim line = [] ∨ isComment (Text.trim line) = true) ↔
    Blank line ∨ IsComment line :=
  or_congr Text.trim_eq_nil_iff isComment_trim_iff

/-- A line gives nothing, or assigns, or is faulty wherever it stands. -/
theorem gives_or_isFaulty (line : Text) :
    (∃ said, Gives line said) ∨ ∀ n, ∃ fault, IsFaulty n line fault := by
  by_cases hidle : Blank line ∨ IsComment line
  · exact .inl ⟨_, .nothing hidle⟩
  obtain ⟨hblank, hcomment⟩ := not_or.1 hidle
  by_cases hm : '=' ∈ line
  · obtain ⟨before, behind, rfl, hbefore⟩ := List.eq_append_cons_of_mem hm
    by_cases hkey : Blank before
    · exact .inr fun _ => ⟨_, .emptyKey hkey⟩
    · exact .inl ⟨_, .assignment hcomment hbefore hkey⟩
  · exact .inr fun _ => ⟨_, .missingDelimiter hblank hcomment hm⟩

end Line

/-! ## Reading lines -/

namespace Pairs

open Line (Gives IsFaulty)

section OneLine

variable {n : Nat} {line : Text} {said : Option (Text × Text)} {fault : PairFault}

/-- A line is read around its first equals sign. -/
theorem ofLine_append_equals {before behind : Text}
    (hidle : ¬ (Blank (before ++ '=' :: behind) ∨ Line.IsComment (before ++ '=' :: behind)))
    (hbefore : '=' ∉ before) (n : Nat) :
    ofLine n (before ++ '=' :: behind) =
      if Text.trim before = [] then .error (.emptyKey n)
      else .ok (some (Text.trim before, Text.trim behind)) := by
  rw [← Line.idle_iff] at hidle
  have hstart : '=' ∉ Text.trimStart before := fun hm =>
    hbefore ((Text.trimStart_infix_self before).subset hm)
  have hkey : Text.trim (Text.trimStart before) = Text.trim before := by
    obtain ⟨w, hw, he⟩ := Text.exists_append_trimStart before
    conv => rhs; rw [he, Text.trim_append_blank_left hw]
  have hsplit : Text.splitFirst '=' (Text.trim (before ++ '=' :: behind)) =
      some (Text.trimStart before, Text.trimEnd behind) := by
    rw [Text.trim_append_cons (by decide), Text.splitFirst_append hstart]
  simp only [ofLine, if_neg hidle, hsplit, hkey, Text.trim_trimEnd]

theorem ofLine_of_gives (h : Gives line said) (n : Nat) : ofLine n line = .ok said := by
  cases h with
  | nothing hidle => exact if_pos (Line.idle_iff.2 hidle)
  | @assignment before behind hcomment hbefore hkey =>
    have hblank : ¬ Blank (before ++ '=' :: behind) := fun hblank =>
      hblank.not_mem (by decide) (List.mem_append_right before List.mem_cons_self)
    rw [ofLine_append_equals (not_or.2 ⟨hblank, hcomment⟩) hbefore,
      if_neg (mt Text.trim_eq_nil_iff.1 hkey)]

theorem ofLine_of_isFaulty (h : IsFaulty n line fault) : ofLine n line = .error fault := by
  cases h with
  | missingDelimiter hblank hcomment hm =>
    have hidle := mt Line.idle_iff.1 (not_or.2 ⟨hblank, hcomment⟩)
    have hsplit : Text.splitFirst '=' (Text.trim line) = none :=
      Text.splitFirst_eq_none_iff.2 fun hin => hm ((Text.trim_infix_self line).subset hin)
    simp only [ofLine, if_neg hidle, hsplit]
  | @emptyKey before behind hkey =>
    have hidle : ¬ (Blank (before ++ '=' :: behind) ∨ Line.IsComment (before ++ '=' :: behind)) := by
      rw [← Line.idle_iff, Text.trim_append_cons (by decide), Text.trimStart_of_blank hkey]
      simp [isComment]
    rw [ofLine_append_equals hidle (hkey.not_mem (by decide)), if_pos (Text.trim_eq_nil_iff.2 hkey)]

/-- **A line is read** as what it gives. -/
theorem ofLine_eq_ok_iff : ofLine n line = .ok said ↔ Gives line said := by
  refine ⟨fun h => ?_, fun h => ofLine_of_gives h n⟩
  rcases Line.gives_or_isFaulty line with ⟨said', hgives⟩ | hfaulty
  · obtain rfl : said' = said := by simpa [h] using (ofLine_of_gives hgives n).symm
    exact hgives
  · obtain ⟨fault, hfault⟩ := hfaulty n
    simp [ofLine_of_isFaulty hfault] at h

/-- **A line fails** exactly if it is faulty, and with that fault. -/
theorem ofLine_eq_error_iff : ofLine n line = .error fault ↔ IsFaulty n line fault := by
  refine ⟨fun h => ?_, ofLine_of_isFaulty⟩
  rcases Line.gives_or_isFaulty line with ⟨said, hgives⟩ | hfaulty
  · simp [ofLine_of_gives hgives] at h
  · obtain ⟨fault', hfault⟩ := hfaulty n
    obtain rfl : fault' = fault := by simpa [h] using (ofLine_of_isFaulty hfault).symm
    exact hfault

end OneLine

/-- The pairs with others inserted behind them, one after the other. -/
def insertAll (read given : Pairs) : Pairs := given.foldl (fun acc p => acc.insert p.1 p.2) read

theorem insertAll_cons (read : Pairs) (p : Text × Text) (given : Pairs) :
    read.insertAll (p :: given) = (read.insert p.1 p.2).insertAll given := rfl

section Block

variable {n : Nat} {read ps : Pairs} {line : Text} {lines before : List Text}
  {said : List (Option (Text × Text))} {fault : PairFault}

/-- One line that is read adds what it assigns. -/
theorem readLines_cons_of_gives {s : Option (Text × Text)} (h : Gives line s) (n : Nat)
    (read : Pairs) (lines : List Text) :
    readLines n read (line :: lines) = readLines (n + 1) (read.insertAll s.toList) lines := by
  rw [readLines, ofLine_of_gives h]
  cases s <;> rfl

theorem readLines_cons_of_isFaulty (h : IsFaulty n line fault) (read : Pairs)
    (lines : List Text) : readLines n read (line :: lines) = .error fault := by
  rw [readLines, ofLine_of_isFaulty h]

/-- Lines that are all read add what they assign. -/
theorem readLines_append_of_gives (h : List.Forall₂ Gives before said) (n : Nat) (read : Pairs)
    (lines : List Text) : readLines n read (before ++ lines) =
      readLines (n + before.length) (read.insertAll said.reduceOption) lines := by
  -- Induction on the lines ahead; each moves the number on and may add to what has been read.
  induction h generalizing n read with
  | nil => rfl
  | @cons line s before said hline _ ih =>
    have hsaid : read.insertAll (List.reduceOption (s :: said)) =
        (read.insertAll s.toList).insertAll said.reduceOption := by
      cases s <;> simp [insertAll]
    rw [List.cons_append, readLines_cons_of_gives hline, ih, hsaid, List.length_cons]
    congr 1
    omega

/-- Either every line gives nothing or an assignment, or there is a first faulty one. -/
theorem gives_or_exists_isFaulty (n : Nat) (lines : List Text) :
    (∃ said, List.Forall₂ Gives lines said) ∨ ∃ before line after said fault,
      lines = before ++ line :: after ∧ List.Forall₂ Gives before said ∧
        IsFaulty (n + before.length) line fault := by
  -- Induction on the lines; if the first one is read, the faulty one lies one line further on.
  induction lines generalizing n with
  | nil => exact .inl ⟨[], .nil⟩
  | cons line lines ih =>
    rcases Line.gives_or_isFaulty line with ⟨s, hs⟩ | hfaulty
    · rcases ih (n + 1) with ⟨said, hsaid⟩ | ⟨before, l, after, said, fault, rfl, hsaid, hfault⟩
      · exact .inl ⟨s :: said, .cons hs hsaid⟩
      · refine .inr ⟨line :: before, l, after, s :: said, fault, rfl, .cons hs hsaid, ?_⟩
        rwa [List.length_cons, Nat.add_comm before.length 1, ← Nat.add_assoc]
    · obtain ⟨fault, hfault⟩ := hfaulty n
      exact .inr ⟨[], line, lines, [], fault, rfl, .nil, hfault⟩

/-- **Lines are read** exactly if each of them is, and as what they give. -/
theorem readLines_eq_ok_iff : readLines n read lines = .ok ps ↔
    ∃ said, List.Forall₂ Gives lines said ∧ ps = read.insertAll said.reduceOption := by
  have hread {said : List (Option (Text × Text))} (h : List.Forall₂ Gives lines said) :
      readLines n read lines = .ok (read.insertAll said.reduceOption) := by
    simpa [readLines] using readLines_append_of_gives h n read []
  constructor
  · intro h
    rcases gives_or_exists_isFaulty n lines with
      ⟨said, hsaid⟩ | ⟨before, line, after, said, fault, rfl, hsaid, hfault⟩
    · exact ⟨said, hsaid, by simpa [hread hsaid] using h.symm⟩
    · simp [readLines_append_of_gives hsaid, readLines_cons_of_isFaulty hfault] at h
  · rintro ⟨said, hsaid, rfl⟩
    exact hread hsaid

/-- **Lines fail** at the first faulty one. -/
theorem readLines_eq_error_iff : readLines n read lines = .error fault ↔
    ∃ before line after said, lines = before ++ line :: after ∧ List.Forall₂ Gives before said ∧
      IsFaulty (n + before.length) line fault := by
  constructor
  · intro h
    rcases gives_or_exists_isFaulty n lines with
      ⟨said, hsaid⟩ | ⟨before, line, after, said, fault', rfl, hsaid, hfault⟩
    · rw [readLines_eq_ok_iff.2 ⟨said, hsaid, rfl⟩] at h
      cases h
    · rw [readLines_append_of_gives hsaid, readLines_cons_of_isFaulty hfault] at h
      obtain rfl : fault' = fault := by simpa using h
      exact ⟨before, line, after, said, rfl, hsaid, hfault⟩
  · rintro ⟨before, line, after, said, rfl, hsaid, hfault⟩
    rw [readLines_append_of_gives hsaid, readLines_cons_of_isFaulty hfault]

theorem exists_forall₂_gives_iff :
    (∃ said, List.Forall₂ Gives lines said) ↔ ∀ line ∈ lines, ∃ s, Gives line s := by
  induction lines with
  | nil => simp [List.forall₂_nil_left_iff]
  | cons line lines ih =>
    rw [List.forall_mem_cons, ← ih]
    constructor
    · rintro ⟨_, hs⟩
      obtain ⟨s, said, hline, hlines, rfl⟩ := List.forall₂_cons_left_iff.1 hs
      exact ⟨⟨s, hline⟩, said, hlines⟩
    · rintro ⟨⟨s, hline⟩, said, hlines⟩
      exact ⟨s :: said, .cons hline hlines⟩

end Block

/-! ## Keys -/

/-- No two keys differ in the case of letters only. -/
def Distinct (ps : Pairs) : Prop := ps.Pairwise fun p q => Text.eqCaseless p.1 q.1 = false

/-- Whether two pairs have one key, whatever its case. -/
def sameKey (p q : Text × Text) : Bool := Text.eqCaseless p.1 q.1

theorem eqCaseless_comm (a b : Text) : Text.eqCaseless a b = Text.eqCaseless b a := by
  rw [Bool.eq_iff_iff, Text.eqCaseless_iff, Text.eqCaseless_iff, eq_comm]

theorem get?_cons (p : Text × Text) (ps : Pairs) (key : Text) :
    get? (p :: ps) key = if Text.eqCaseless p.1 key = true then some p.2 else ps.get? key := by
  by_cases h : Text.eqCaseless p.1 key = true <;> simp [get?, h]

theorem get?_append (ps qs : Pairs) (key : Text) :
    (ps ++ qs).get? key = (ps.get? key).or (qs.get? key) := by
  simp only [get?, List.find?_append]
  cases ps.find? fun p => Text.eqCaseless p.1 key <;> rfl

/-- The value of a key does not depend on its case. -/
theorem get?_congr {key key' : Text} (h : Text.eqCaseless key key' = true) (ps : Pairs) :
    ps.get? key = ps.get? key' := by
  unfold get? Text.eqCaseless
  rw [Text.eqCaseless_iff.1 h]

theorem holds_iff {ps : Pairs} {key : Text} :
    ps.holds key = ps.any fun p => Text.eqCaseless p.1 key := by
  rw [holds, get?, Option.isSome_map, List.isSome_find?]

/-- Pairs with different keys all count. -/
theorem Distinct.eraseDupsBy_eq {ps : Pairs} (h : ps.Distinct) : ps.eraseDupsBy sameKey = ps := by
  induction ps with
  | nil => rfl
  | cons p ps ih =>
    rw [Distinct, List.pairwise_cons] at h
    have hkeep : ps.filter (fun q => sameKey q p = false) = ps :=
      List.filter_eq_self.2 fun q hq => by simpa [sameKey, eqCaseless_comm q.1] using h.1 q hq
    rw [List.eraseDupsBy_cons, hkeep, ih h.2]

/-- Whatever is assigned to a key is its value. -/
theorem Distinct.get?_of_mem {ps : Pairs} (h : ps.Distinct) {k v key : Text} (hm : (k, v) ∈ ps)
    (he : Text.eqCaseless k key = true) : ps.get? key = some v := by
  induction ps with
  | nil => simp at hm
  | cons p ps ih =>
    rw [Distinct, List.pairwise_cons] at h
    rw [get?_cons]
    rcases List.mem_cons.1 hm with rfl | hm
    · rw [if_pos he]
    · have hp : ¬ Text.eqCaseless p.1 key = true := by
        have := h.1 _ hm
        rw [Bool.eq_false_iff, ne_eq, Text.eqCaseless_iff] at this
        rwa [Text.eqCaseless_iff, ← Text.eqCaseless_iff.1 he]
      rw [if_neg hp, ih h.2 hm]

theorem mem_of_get?_eq_some {ps : Pairs} {key v : Text} (h : ps.get? key = some v) :
    ∃ k, (k, v) ∈ ps ∧ Text.eqCaseless k key = true := by
  obtain ⟨⟨k, w⟩, hf, rfl⟩ := Option.map_eq_some_iff.1 h
  exact ⟨k, List.mem_of_find?_eq_some hf, by simpa using List.find?_some hf⟩

/-- A key that has come does not come again. -/
theorem Distinct.get?_eq_none {p : Text × Text} {ps : Pairs} {key : Text} (h : Distinct (p :: ps))
    (he : Text.eqCaseless p.1 key = true) : ps.get? key = none := by
  rw [Option.eq_none_iff_forall_ne_some]
  intro v hv
  obtain ⟨k, hm, hk⟩ := mem_of_get?_eq_some hv
  have hne := (List.pairwise_cons.1 h).1 _ hm
  rw [Bool.eq_false_iff, ne_eq, Text.eqCaseless_iff] at hne
  exact hne ((Text.eqCaseless_iff.1 he).trans (Text.eqCaseless_iff.1 hk).symm)

/-! ## Insertions -/

/-- **What one insertion leaves**: a new key gets the value. -/
theorem get?_insert (ps : Pairs) (k v key : Text) :
    (ps.insert k v).get? key =
      (ps.get? key).or (if Text.eqCaseless k key then some v else none) := by
  by_cases hk : ps.holds k = true
  · obtain ⟨old, hold⟩ := Option.isSome_iff_exists.1 hk
    rw [get?_insert_of_some hold]
    by_cases hsame : Text.eqCaseless k key = true
    · rw [← get?_congr hsame, hold, Option.some_or]
    · rw [if_neg hsame, Option.or_none]
  · rw [insert, if_neg hk, get?_append]
    by_cases hsame : Text.eqCaseless k key = true <;> simp [get?, hsame]

/-- **What a run of insertions leaves**: for every key the first value, in whatever case. -/
theorem get?_insertAll (read given : Pairs) (key : Text) :
    (read.insertAll given).get? key = (read.get? key).or (given.get? key) := by
  induction given generalizing read with
  | nil => simp [insertAll, get?]
  | cons p given ih =>
    rw [insertAll_cons, ih, get?_insert, Option.or_assoc, ← List.singleton_append, get?_append]
    by_cases hsame : Text.eqCaseless p.1 key = true <;> simp [get?, hsame]

theorem Distinct.insert {ps : Pairs} (h : ps.Distinct) (key value : Text) :
    (ps.insert key value).Distinct := by
  unfold Pairs.insert
  split
  · exact h
  · next hn =>
    refine List.pairwise_append.2 ⟨h, List.pairwise_singleton _ _, fun p hp q hq => ?_⟩
    rw [List.mem_singleton] at hq
    subst hq
    rw [Bool.eq_false_iff]
    intro he
    apply hn
    rw [holds, get?, Option.isSome_map, List.find?_isSome]
    exact ⟨p, hp, he⟩

theorem Distinct.insertAll {read : Pairs} (h : read.Distinct) (given : Pairs) :
    (read.insertAll given).Distinct := by
  induction given generalizing read with
  | nil => exact h
  | cons p given ih => exact ih (h.insert p.1 p.2)

theorem mem_of_mem_insert {ps : Pairs} {k v : Text} {p : Text × Text} (h : p ∈ ps.insert k v) :
    p ∈ ps ∨ p = (k, v) := by
  unfold insert at h
  split at h
  · exact .inl h
  · exact (List.mem_append.1 h).imp_right List.mem_singleton.1

theorem mem_of_mem_insertAll {read given : Pairs} {p : Text × Text}
    (h : p ∈ read.insertAll given) : p ∈ read ∨ p ∈ given := by
  induction given generalizing read with
  | nil => exact .inl h
  | cons q given ih =>
    rcases ih h with h | h
    · rcases mem_of_mem_insert h with h | rfl
      · exact .inl h
      · exact .inr List.mem_cons_self
    · exact .inr (List.mem_cons_of_mem _ h)

/-- A run of insertions keeps the first pair of every key, in the order of the pairs. -/
theorem insertAll_eq (read given : Pairs) : read.insertAll given =
    read ++ (given.filter fun p => !read.holds p.1).eraseDupsBy sameKey := by
  induction given generalizing read with
  | nil => simp [insertAll]
  | cons p given ih =>
    rw [insertAll_cons, ih]
    by_cases hp : read.holds p.1 = true
    · rw [insert, if_pos hp, List.filter_cons_of_neg (by simp [hp])]
    · rw [insert, if_neg hp, List.filter_cons_of_pos (by simpa using hp), List.eraseDupsBy_cons,
        List.filter_filter, List.append_assoc, List.singleton_append]
      congr 3
      refine List.filter_congr fun q _ => ?_
      by_cases hsame : Text.eqCaseless q.1 p.1 = true <;>
        simp [holds_iff, sameKey, eqCaseless_comm p.1 q.1, hsame]

section OfList

variable (given : List (Text × Text))

/-- **Pairs inserted one after the other**: the first of every key, in order. -/
theorem ofList_eq_eraseDupsBy : ofList given = given.eraseDupsBy sameKey := by
  have hall : given.filter (fun p => !Pairs.holds [] p.1) = given :=
    List.filter_eq_self.2 fun _ _ => rfl
  have h := insertAll_eq [] given
  rwa [hall, List.nil_append] at h

theorem distinct_ofList : (ofList given).Distinct := Distinct.insertAll .nil given

theorem mem_of_mem_ofList {p : Text × Text} (h : p ∈ ofList given) : p ∈ given :=
  (mem_of_mem_insertAll h).resolve_left List.not_mem_nil

theorem get?_ofList (key : Text) : (ofList given).get? key = Pairs.get? given key :=
  get?_insertAll [] given key

/-- **What the next insertion answers**, after others: whether its key is a new one. -/
theorem store_ofList (key value : Text) : (ofList given).store key value =
    (given.all fun p => !Text.eqCaseless p.1 key, ofList (given ++ [(key, value)])) := by
  have hholds : (ofList given).holds key = given.any fun p => Text.eqCaseless p.1 key := by
    rw [holds, get?_ofList, ← holds, holds_iff]
  rw [store_eq, hholds, List.not_any_eq_all_not, ofList, ofList, List.foldl_append]
  rfl

end OfList

/-! ## Blocks -/

section OfLines

variable {lines : List Text} {ps : Pairs} {fault : PairFault}

/-- **A block is read** exactly if every line is; the first pair of every key counts. -/
theorem ofLines_eq_ok_iff : ofLines lines = .ok ps ↔
    ∃ said, List.Forall₂ Gives lines said ∧ ps = said.reduceOption.eraseDupsBy sameKey := by
  rw [ofLines, readLines_eq_ok_iff]
  refine exists_congr fun said => and_congr_right fun _ => ?_
  rw [← ofList_eq_eraseDupsBy]
  rfl

/-- **A block fails** at its first faulty line. -/
theorem ofLines_eq_error_iff : ofLines lines = .error fault ↔
    ∃ before line after, lines = before ++ line :: after ∧ (∀ l ∈ before, ∃ s, Gives l s) ∧
      IsFaulty (before.length + 1) line fault := by
  rw [ofLines, readLines_eq_error_iff]
  simp only [← exists_forall₂_gives_iff, Nat.add_comm 1]
  constructor
  · rintro ⟨before, line, after, said, he, hsaid, hfault⟩
    exact ⟨before, line, after, he, ⟨said, hsaid⟩, hfault⟩
  · rintro ⟨before, line, after, he, ⟨said, hsaid⟩, hfault⟩
    exact ⟨before, line, after, said, he, hsaid, hfault⟩

theorem distinct_of_ofLines (h : ofLines lines = .ok ps) : ps.Distinct := by
  obtain ⟨said, -, rfl⟩ := ofLines_eq_ok_iff.1 h
  rw [← ofList_eq_eraseDupsBy]
  exact distinct_ofList _

/-- Nothing is made up: some line gives the pair. -/
theorem exists_gives_of_mem (h : ofLines lines = .ok ps) {p : Text × Text} (hp : p ∈ ps) :
    ∃ line ∈ lines, Gives line (some p) := by
  obtain ⟨said, hsaid, rfl⟩ := ofLines_eq_ok_iff.1 h
  rw [← ofList_eq_eraseDupsBy] at hp
  have hgiven : some p ∈ said := List.reduceOption_mem_iff.1 (mem_of_mem_ofList _ hp)
  obtain ⟨i, hi, hpair⟩ := List.getElem_of_mem hgiven
  obtain ⟨hlength, hall⟩ := List.forall₂_iff_get.1 hsaid
  exact ⟨_, List.getElem_mem (hlength ▸ hi), hpair ▸ hall i (hlength ▸ hi) hi⟩

end OfLines

/-- A line that is read is blank, a comment, or has text ahead of its first equals sign. -/
theorem exists_gives_iff {line : Text} : (∃ s, Gives line s) ↔
    (¬ Blank line → ¬ Line.IsComment line →
      ∃ before behind, line = before ++ '=' :: behind ∧ '=' ∉ before ∧ ¬ Blank before) := by
  constructor
  · rintro ⟨s, hs⟩ hblank hcomment
    cases hs with
    | nothing hidle => exact absurd hidle (not_or.2 ⟨hblank, hcomment⟩)
    | assignment _ hbefore hkey => exact ⟨_, _, rfl, hbefore, hkey⟩
  · intro h
    by_cases hidle : Blank line ∨ Line.IsComment line
    · exact ⟨_, .nothing hidle⟩
    · obtain ⟨hblank, hcomment⟩ := not_or.1 hidle
      obtain ⟨before, behind, rfl, hbefore, hkey⟩ := h hblank hcomment
      exact ⟨_, .assignment hcomment hbefore hkey⟩

/-- **The grammar of assignments, and first keys.** A block of lines is read exactly if each line is
blank, a comment, or has more than blanks ahead of its first equals sign. If it is not read, the
fault is that of the first line that is none of these. If it is read, it gives the trimmed sides of
the equals signs in order, and of those to one key, in whatever case, the first. For pairs that are
inserted one after the other: no two of the keys they leave are the same in any case, a key has the
first value that was inserted for it, and the next insertion stores its pair and says so exactly if
there was none for its key. -/
theorem grammar_ofLines (lines : List Text) (given : List (Text × Text)) :
    ((∃ ps, ofLines lines = .ok ps) ↔
        ∀ line ∈ lines, ¬ Blank line → ¬ Line.IsComment line →
          ∃ before behind, line = before ++ '=' :: behind ∧ '=' ∉ before ∧ ¬ Blank before) ∧
      (∀ fault, ofLines lines = .error fault ↔
        ∃ before line after, lines = before ++ line :: after ∧ (∀ l ∈ before, ∃ s, Gives l s) ∧
          IsFaulty (before.length + 1) line fault) ∧
      (∀ ps, ofLines lines = .ok ps ↔
        ∃ said, List.Forall₂ Gives lines said ∧ ps = said.reduceOption.eraseDupsBy sameKey) ∧
      (ofList given).Distinct ∧
      (∀ key, (ofList given).get? key =
        (given.find? fun p => Text.eqCaseless p.1 key).map (·.2)) ∧
      ∀ key value, (ofList given).store key value =
        (given.all fun p => !Text.eqCaseless p.1 key, ofList (given ++ [(key, value)])) := by
  refine ⟨?_, fun fault => ofLines_eq_error_iff, fun ps => ofLines_eq_ok_iff,
    distinct_ofList given, get?_ofList given, store_ofList given⟩
  simp only [← exists_gives_iff, ← exists_forall₂_gives_iff, ofLines_eq_ok_iff]
  constructor
  · rintro ⟨_, said, hsaid, -⟩
    exact ⟨said, hsaid⟩
  · rintro ⟨said, hsaid⟩
    exact ⟨_, said, hsaid, rfl⟩

/-- A comment, a blank line, a repeated key and a second equals sign; then a key that is missing on
the second line, and a repeated key again. -/
theorem grammar_ofLines_hash :
    ofLines ["; weights".toList, "Hash = 111".toList, " ".toList, "hash=222".toList,
        "run = a = b".toList] = .ok [("Hash".toList, "111".toList), ("run".toList, "a = b".toList)] ∧
      ofLines ["hash = 111".toList, " = 222".toList, "run".toList] = .error (.emptyKey 2) ∧
      (ofList [("Hash".toList, "111".toList)]).store "HASH".toList "222".toList =
        (false, [("Hash".toList, "111".toList)]) := by
  obtain ⟨-, -, hread, -⟩ := grammar_ofLines ["; weights".toList, "Hash = 111".toList, " ".toList,
    "hash=222".toList, "run = a = b".toList] []
  obtain ⟨-, hfault, -, -, -, hstore⟩ := grammar_ofLines
    ["hash = 111".toList, " = 222".toList, "run".toList] [("Hash".toList, "111".toList)]
  refine ⟨(hread _).2 ⟨[none, some ("Hash".toList, "111".toList), none,
    some ("hash".toList, "222".toList), some ("run".toList, "a = b".toList)], ?_, by decide⟩,
    (hfault _).2 ⟨["hash = 111".toList], " = 222".toList, ["run".toList], rfl, ?_, ?_⟩, ?_⟩
  · refine .cons ?_ (.cons ?_ (.cons ?_ (.cons ?_ (.cons ?_ .nil)))) <;>
      exact (ofLine_eq_ok_iff (n := 1)).1 (by decide)
  · intro l hl
    obtain rfl := List.mem_singleton.1 hl
    exact ⟨some ("hash".toList, "111".toList), (ofLine_eq_ok_iff (n := 1)).1 (by decide)⟩
  · exact ofLine_eq_error_iff.1 (by decide)
  · exact (hstore _ _).trans (by decide)

end Pairs

end Reskin.Ini
