import Reskin.Pattern.Token

/-!
# Written patterns

What is written in a pattern is read as the usual syntax has it: characters and escapes, sets in
square brackets with the named ASCII sets and the operators between sets, assertions, repetitions,
groups, and the flags for either case, for full stops and for lines.

Some forms are not read, and a pattern with one of them is refused as if it were not well formed:
sets that are named by a property of characters (`\p`), the flags for blanks in patterns (`x`), for
carriage returns at the ends of lines (`R`) and for bytes (`-u`), and names of groups with letters
outside ASCII. There is no bound on the size of a pattern.

## Main definitions

* `Pattern.read?`: the pattern that is written, or `none` if it is not well formed
-/

namespace Reskin.Pattern

/-- What has been read since an opening bracket. -/
structure Group where
  /-- The mode at the opening bracket, which holds again after the closing one. -/
  outer : Mode
  /-- The alternatives before the last bar. -/
  alternatives : Option Pattern
  /-- The pieces after it, the last one first; a change of mode is a piece that cannot repeat. -/
  pieces : List (Option Pattern)

/-- What has been read so far: the groups that are open, the innermost one first. -/
structure Reading where
  mode : Mode
  group : Group
  outside : List Group

namespace Group

/-- The pieces after the last bar as one pattern. -/
def sequence (g : Group) : Pattern :=
  g.pieces.foldl (fun tail piece =>
    match piece, tail with
    | none, tail => tail
    | some p, empty => p
    | some p, tail => seq p tail) empty

/-- The group as one pattern. -/
def pattern (g : Group) : Pattern :=
  match g.alternatives with
  | none => g.sequence
  | some p => alt p g.sequence

/-- The group with one more piece. -/
def push (g : Group) (piece : Option Pattern) : Group := { g with pieces := piece :: g.pieces }

end Group

/-- A repetition of a pattern. -/
def repetition (p : Pattern) (least : Nat) : Option Nat → Pattern
  | none =>
    match least with
    | 0 => many p
    | n + 1 => seq (times p n) (atLeastOne p)
  | some most => seq (times p least) (upTo p (most - least))

/-- The reading with one more piece in its innermost group. -/
def Reading.push (r : Reading) (piece : Option Pattern) : Reading :=
  { r with group := r.group.push piece }

/-- The reading after one more token; `none` if no pattern goes on so. -/
def Reading.next? (r : Reading) : Token → Option Reading
  | .set s => some (r.push (some (one r.mode.anyCase s)))
  | .anyChar =>
    let feed := CharSet.only '\n'
    some (r.push (some (one false
      (if r.mode.dotAll then .union feed (.complement feed) else .complement feed))))
  | .atStart => some (r.push (some (if r.mode.perLine then lineStart else textStart)))
  | .atEnd => some (r.push (some (if r.mode.perLine then lineEnd else textEnd)))
  | .textStart => some (r.push (some textStart))
  | .textEnd => some (r.push (some textEnd))
  | .edge kind => some (r.push (some (edge kind)))
  | .repeated least most =>
    match r.group.pieces with
    | some p :: pieces =>
      some { r with group := { r.group with pieces := some (repetition p least most) :: pieces } }
    | _ => none
  | .bar =>
    some { r with group := { r.group with alternatives := some r.group.pattern, pieces := [] } }
  | .opening _ change =>
    some ⟨change r.mode, ⟨r.mode, none, []⟩, r.group :: r.outside⟩
  | .closing =>
    match r.outside with
    | [] => none
    | g :: outside => some ⟨r.group.outer, g.push (some r.group.pattern), outside⟩
  | .mode change => some { r.push none with mode := change r.mode }

/-- The reading after some more tokens. -/
def Reading.run? (r : Reading) : List Token → Option Reading
  | [] => some r
  | k :: ks => (r.next? k).bind (run? · ks)

/-- The names of the groups that some tokens open. -/
def groupNames (ks : List Token) : List Text :=
  ks.filterMap fun
    | .opening name _ => name
    | _ => none

/-- **The pattern that is written**: `none` if a bracket is not matched, a repetition has nothing
to repeat, two groups share a name, or a token is not well formed. -/
def read? (t : Text) : Option Pattern := do
  let ks ← tokens? t
  let r ← Reading.run? ⟨.plain, ⟨.plain, none, []⟩, []⟩ ks
  if r.outside.isEmpty ∧ (groupNames ks).Nodup then some r.group.pattern else none

end Reskin.Pattern
