import Reskin.Ini.Line
import Reskin.Ini.Pairs

/-!
# Bodies of sections

The body of a section is a list of control lines and, between them, assignments. A body that is
read from lines has one part for each row of data lines; a row with a malformed line has none of
its assignments.

## Main definitions

* `Ini.Entry`, `Ini.Body`: a body
* `Ini.Body.ofLines`: the body written on lines
* `Ini.Body.parts`, `Ini.Body.valuesOf`: the assignments, in order
* `Ini.Body.calls`, `Ini.Body.hashes`, `Ini.Body.indices`: what a body refers to
-/

namespace Reskin.Ini

/-- One entry of a body. -/
inductive Entry where
  /-- A conditional line, kept as it is written. -/
  | control (line : Text)
  /-- The assignments up to the next control line. -/
  | content (pairs : Pairs)
  deriving DecidableEq, Repr

/-- The entries of a section, in order. -/
abbrev Body := List Entry

namespace Body

/-- The parts of a body, each with the place of its entry, counted from `start`. -/
def partsFrom (start : Nat) : Body → List (Nat × Pairs)
  | [] => []
  | .control _ :: es => partsFrom (start + 1) es
  | .content ps :: es => (start, ps) :: partsFrom (start + 1) es

/-- The parts of a body, each with the place of its entry. -/
def parts (b : Body) : List (Nat × Pairs) := partsFrom 0 b

/-- The control lines of a body, in order. -/
def controls : Body → List Text
  | [] => []
  | .control line :: es => line :: controls es
  | .content _ :: es => controls es

/-- The values of a key, each with the place of the entry that holds it. -/
def placed (b : Body) (key : Key) : List (Nat × Text) :=
  b.parts.filterMap fun (i, ps) => (ps.value? key).map (i, ·)

/-- The values of a key, in order. -/
def valuesOf (b : Body) (key : Key) : List Text := (b.placed key).map (·.2)

/-- The sections a body runs, each with the place of the entry that runs it. -/
def calls (b : Body) : List (Nat × Text) := b.placed .run

/-- The hashes of a body, without repetition. -/
def hashes (b : Body) : List Text := (b.valuesOf .hash).eraseDups

/-- The first indices of a body, without repetition. -/
def indices (b : Body) : List Text := (b.valuesOf .matchFirstIndex).eraseDups

/-- Whether the body has a control line. -/
def hasControl (b : Body) : Bool := !b.controls.isEmpty

/-- The entry of a row of data lines: none for no lines, an empty part for a malformed row. -/
def ofData : List Text → Body
  | [] => []
  | lines =>
    match Pairs.ofLines lines with
    | .ok ps => [.content ps]
    | .error _ => [.content []]

/-- The entries on the lines that follow the data lines read so far. -/
def readLines (data : List Text) : List Text → Body
  | [] => ofData data
  | line :: lines =>
    match LineKind.ofLine line with
    | .control c => ofData data ++ .control c :: readLines [] lines
    | .data d => readLines (data ++ [d]) lines

/-- The body on the lines; without any line, one empty part. -/
def ofLines (lines : List Text) : Body :=
  match readLines [] lines with
  | [] => [.content []]
  | es => es

/-- The fault of one row of data lines, if it has one. -/
def rowFaults (data : List Text) : List PairFault :=
  match Pairs.ofLines data with
  | .ok _ => []
  | .error fault => [fault]

/-- The faults of the malformed rows on the lines that follow the data lines read so far. -/
def faults (data : List Text) : List Text → List PairFault
  | [] => rowFaults data
  | line :: lines =>
    match LineKind.ofLine line with
    | .control _ => rowFaults data ++ faults [] lines
    | .data d => faults (data ++ [d]) lines

end Body

end Reskin.Ini
