import Reskin.Buffers
import Reskin.CallGraph
import Reskin.Fault
import Reskin.Remap.Layout

/-!
# Policies

What becomes of the assignments of a section in the one generated for it depends on the graph the
section belongs to: overrides of blend weights keep a few keys and are redirected, resources load
other files, and all other sections keep everything but calls and ids.

## Main definitions

* `Remap.Sources`: the graphs and tables that a generated block is made from
* `Remap.Part`: the three kinds of sections
* `Remap.Sources.assignment`: the assignment that takes the place of another one
* `Remap.Sources.write`: the lines of a part
-/

namespace Reskin.Remap

open Ini (Key Pairs)

/-- What a generated block is made from. -/
structure Sources where
  blend : CallGraph
  others : CallGraph
  resources : CallGraph
  /-- The buffer files of the sections of the resource graph. -/
  buffers : Table Buffers
  /-- The character whose ids are replaced. -/
  character : Option Character

/-- The three kinds of generated sections. -/
inductive Part where
  | blend
  | others
  | resources
  deriving DecidableEq, Repr

/-- The value of `handling` in overrides of blend weights. -/
def handlingValue : Text := "skip".toList

/-- The value of `type` in resources. -/
def bufferType : Text := "Buffer".toList

/-- The value of `stride` in resources. -/
def bufferStride : Text := "32".toList

namespace Sources

/-- The graph of a kind of sections. -/
def graph (s : Sources) : Part → CallGraph
  | .blend => s.blend
  | .others => s.others
  | .resources => s.resources

/-- The new id of an asset. An id that is not known, or has no replacement for the variant, is
kept; without a character there is nothing to ask. -/
def newId (s : Sources) (kind : Asset.Kind) (id variant : Text) : Except Fault Text :=
  match s.character with
  | none => .error .noCharacter
  | some c =>
    match c.replace kind id variant with
    | .ok new => .ok new
    | .error _ => .ok id

/-- The resource that takes the place of another one: generated if the resource graph has it. -/
def newResource (s : Sources) (resource variant : Text) : Text :=
  if s.resources.has resource then s.resources.nameFor resource variant else resource

/-- The buffer file that takes the place of the one a part names. -/
def newFile (s : Sources) (place : Place) (file : Text) : Text :=
  (((s.buffers.get? place.source).bind (·.fixedPath? place.index place.variant))).getD
    (Naming.bufferFile file place.variant)

/-- The assignment of an override of blend weights; keys without a meaning there are dropped. -/
def blendAssignment (s : Sources) (place : Place) (key value : Text) :
    Except Fault (Option (Text × Text)) :=
  let keep (k : Key) (v : Text) := some (k.text, v)
  match Key.ofText? key with
  | some .run => .ok (keep .run (s.blend.nameFor value place.variant))
  | some .hash => (s.newId .hash value place.variant).map (keep .hash)
  | some .vb1 => .ok (keep .vb1 (s.newResource value place.variant))
  | some .handling => .ok (keep .handling handlingValue)
  | some .draw => .ok (keep .draw value)
  | some .matchFirstIndex =>
    (s.newId .index value place.variant).map (keep .matchFirstIndex)
  | _ => .ok none

/-- The assignment of any other section; all but calls and ids is kept as it is written. -/
def otherAssignment (s : Sources) (place : Place) (key value : Text) :
    Except Fault (Option (Text × Text)) :=
  match Key.ofText? key with
  | some .run => .ok (some (Key.run.text, s.others.nameFor value place.variant))
  | some .hash => (s.newId .hash value place.variant).map fun v => some (Key.hash.text, v)
  | some .matchFirstIndex =>
    (s.newId .index value place.variant).map fun v => some (Key.matchFirstIndex.text, v)
  | _ => .ok (some (key, value))

/-- The assignment of a resource; keys without a meaning there are dropped. -/
def resourceAssignment (s : Sources) (place : Place) (key value : Text) :
    Except Fault (Option (Text × Text)) :=
  match Key.ofText? key with
  | some .run => .ok (some (Key.run.text, s.resources.nameFor value place.variant))
  | some .type => .ok (some (Key.type.text, bufferType))
  | some .stride => .ok (some (Key.stride.text, bufferStride))
  | some .filename => .ok (some (Key.filename.text, s.newFile place value))
  | _ => .ok none

/-- **The assignment that takes the place of another one**, or none. -/
def assignment (s : Sources) : Part → (place : Place) → (key value : Text) →
    Except Fault (Option (Text × Text))
  | .blend => s.blendAssignment
  | .others => s.otherAssignment
  | .resources => s.resourceAssignment

end Sources

/-- The line of an assignment. -/
def assignmentLine (indent key value : Text) : Text :=
  indent ++ key ++ [' ', '=', ' '] ++ value ++ ['\n']

namespace Sources

/-- The assignments that take the place of those of a part. -/
def assignments (s : Sources) (part : Part) (place : Place) : Pairs → Except Fault Pairs
  | [] => .ok []
  | (key, value) :: ps => do
    let first ← s.assignment part place key value
    let rest ← s.assignments part place ps
    return first.toList ++ rest

/-- The lines of a part. -/
def write (s : Sources) (part : Part) (place : Place) (ps : Pairs) : Except Fault Text := do
  let new ← s.assignments part place ps
  return new.flatMap fun (key, value) => assignmentLine place.indent key value

end Sources

end Reskin.Remap
