import Reskin.Buffers
import Reskin.CallGraph
import Reskin.Fault
import Reskin.Remap.Fence

/-!
# Erasure of generated content

First every fence is cut out of the text. What is left of other generated content is found line by
line: sections with a generated name go, and so do single lines of boilerplate. Of what both passes
remove, the generated resources are recorded, so that the buffer files behind them can be found.

A text without generated content is left exactly as it is.

## Main definitions

* `Remap.Sweep`, `Remap.sweep`: the second pass, line by line
* `Remap.generatedResources`: the generated resources that some sections refer to
* `Remap.Erasure`, `Remap.erase`: both passes
-/

namespace Reskin.Remap

open Ini (Document Line.isHeader Line.isGeneratedHeader Line.isBoilerplate Line.sectionName)

/-- What is left of a row of lines, and what went. -/
structure Sweep where
  kept : List Text
  /-- The names of the sections that went. -/
  names : List Text
  /-- How many lines of boilerplate went. -/
  comments : Nat
  deriving DecidableEq, Repr

/-- **The second pass**: a section with a generated header goes up to the next header, and a line
of boilerplate goes wherever else it stands. -/
def sweep (removing : Bool) : List Text → Sweep
  | [] => ⟨[], [], 0⟩
  | line :: lines =>
    if Line.isHeader line then
      if Line.isGeneratedHeader line then
        let s := sweep true lines
        { s with names := Line.sectionName line :: s.names }
      else
        let s := sweep false lines
        { s with kept := line :: s.kept }
    else if removing then sweep true lines
    else
      let s := sweep false lines
      if Line.isBoilerplate line then { s with comments := s.comments + 1 }
      else { s with kept := line :: s.kept }

/-- The files of a resource as the resource names them. -/
def namedBuffers (folder : Text) (b : Ini.Body) : Buffers :=
  Buffers.ofBody folder b [[]] fun path _ => path

/-- The generated resources that the sections reached from some names refer to, each with the files
it names. Names that the document does not declare count for nothing, be they given or referred to;
a section that is run has to be declared. -/
def generatedResources (folder : Text) (d : Document) (names : List Text) :
    Except Fault (Table Buffers) :=
  let roots := names.filter d.bodies.has
  match (CallGraph.empty .blend).build roots d.bodies with
  | (some missing, _) => .error (.missingSection missing)
  | (none, g) =>
    let resources := ((g.valuesOf .vb1).filter Naming.isGenerated).eraseDups
    .ok (resources.filterMap fun r =>
      (d.bodies.get? r).map fun b => (r, namedBuffers folder b))

/-- What the removal of generated content has taken out of a text. -/
structure Erasure where
  /-- The text that is left. -/
  text : Text
  /-- How many fences were cut out. -/
  blocks : Nat
  /-- The generated sections removed outside of fences. -/
  sections : List Text
  /-- How many lines of boilerplate were removed outside of fences. -/
  comments : Nat
  /-- The generated resources, each with the files it names. -/
  resources : Table Buffers
  deriving DecidableEq, Repr

namespace Erasure

/-- Whether nothing was removed. -/
def isUnchanged (e : Erasure) : Bool :=
  e.blocks == 0 && e.sections.isEmpty && e.comments == 0

/-- The files of the generated resources. -/
def files (e : Erasure) : List Text := e.resources.flatMap fun (_, b) => b.namedFiles

end Erasure

/-- The names of the sections inside the fences, without repetition. -/
def fencedNames (fences : List Text) : List Text :=
  (fences.flatMap fun f => ((Text.bareLines f).filter Line.isHeader).map Line.sectionName).eraseDups

/-- The resources of a pass that has removed the named sections of a text, if it has removed any
content at all. -/
def passResources (folder text : Text) (active : Bool) (names : List Text) :
    Except Fault (Table Buffers) :=
  if active then generatedResources folder (Document.plain text) names else .ok []

/-- **The text without generated content.** It fails if a removed section runs a section that is
not declared where it stands. -/
def erase (folder text : Text) : Except Fault Erasure := do
  let (fences, unfenced) := Fence.cut text
  let first ← passResources folder text (!fences.isEmpty) (fencedNames fences)
  let s := sweep false (Text.lines unfenced)
  let names := s.names.eraseDups
  let second ← passResources folder unfenced (!names.isEmpty) names
  let e : Erasure :=
    { text := Text.trimEnd s.kept.flatten
      blocks := fences.length
      sections := names
      comments := s.comments
      resources := second.foldl (fun t r => t.put r.1 r.2) first }
  return if e.isUnchanged then { e with text := text } else e

end Reskin.Remap
