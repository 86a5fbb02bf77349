import Reskin.Character
import Reskin.Ini.Body
import Reskin.Text.Lines

/-!
# Documents

A document is what one reading of the text of a mod file finds: its sections, the section a remap
starts from, the character it belongs to, and whether it holds generated content already.

A section reaches from its header to the next one; of several sections with one name the first
counts. The root is sought among all headers, also those of sections that do not count.

## Main definitions

* `Ini.Section`, `Ini.Document`
* `Ini.chunks`: the headers of a text, each with the lines that follow it
* `Ini.Document.ofText`: the document that a text holds
-/

namespace Reskin.Ini

/-- A section and the lines it takes, header included, counted from zero. -/
structure Section where
  name : Text
  start : Nat
  /-- The line after the last one. -/
  stop : Nat
  body : Body
  deriving DecidableEq, Repr

/-- A header line and the lines up to the next header. -/
structure Chunk where
  start : Nat
  header : Text
  lines : List Text
  deriving DecidableEq, Repr

/-- The chunks of a row of lines, whose first line has the given number. -/
def chunks (start : Nat) : List Text → List Chunk
  | [] => []
  | line :: lines =>
    if Line.isHeader line then
      ⟨start, line, lines.takeWhile (!Line.isHeader ·)⟩ :: chunks (start + 1) lines
    else chunks (start + 1) lines

namespace Chunk

/-- The name of the section. -/
def name (c : Chunk) : Text := Line.sectionName c.header

/-- The section that a chunk holds. -/
def toSection (c : Chunk) : Section :=
  ⟨c.name, c.start, c.start + 1 + c.lines.length, Body.ofLines c.lines⟩

end Chunk

/-- The sections whose name no earlier section has. -/
def firstOfEachName : List Section → List Section
  | [] => []
  | s :: ss => s :: (firstOfEachName ss).filter (·.name ≠ s.name)

/-- What the text of a mod file holds. -/
structure Document where
  /-- The sections in the order of the file, no two with one name. -/
  sections : List Section
  /-- The name of the section that a remap starts from. -/
  root : Option Text
  /-- The character whose root section the file has. -/
  character : Option Character
  /-- Whether the file is one that can be remapped. -/
  isMod : Bool
  /-- Whether the file holds generated content. -/
  isFixed : Bool
  deriving DecidableEq, Repr

/-- The bodies of sections by name. -/
abbrev Bodies := Table Body

namespace Document

/-- The section of a name. -/
def find? (d : Document) (name : Text) : Option Section := d.sections.find? (·.name == name)

/-- The bodies of the sections by name. -/
def bodies (d : Document) : Bodies := d.sections.map fun s => (s.name, s.body)

/-- The names of the sections. -/
def names (d : Document) : List Text := d.sections.map (·.name)

/-- The root section. -/
def rootSection? (d : Document) : Option Section := d.root.bind d.find?

/-- The first header that is the root of one of the characters, and the first of these. -/
def characterRoot? (characters : List Character) (headers : List Text) :
    Option (Text × Character) :=
  headers.findSome? fun h => (characters.find? (·.isRoot h)).map (h, ·)

/-- **The root and its character.** Characters are asked first. The first blend override is the
root where there is no character to ask, or where one is assumed for files of no known character. -/
def rootOf (characters : List Character) (assumed : Option Character) (headers : List Text) :
    Option Text × Option Character :=
  match characterRoot? characters headers with
  | some (h, c) => (some (Line.sectionName h), some c)
  | none =>
    if characters.isEmpty ∨ assumed.isSome then
      ((headers.find? Line.isBlendHeader).map Line.sectionName, none)
    else (none, none)

/-- Whether a header shows that the file is a mod. -/
def isTelling (characters : List Character) (assumed : Option Character) (header : Text) : Bool :=
  characters.any (·.isRoot header) ||
    (characters.isEmpty || assumed.isSome) && Line.isBlendHeader header

/-- Whether a line belongs to generated content. -/
def isFixedLine (line : Text) : Bool := Line.isRemapBlendHeader line || Line.isBlockHeading line

/-- The document on a row of lines. -/
def ofLines (characters : List Character) (assumed : Option Character) (lines : List Text) :
    Document :=
  let headers := lines.filter Line.isHeader
  let (root, character) := rootOf characters assumed headers
  { sections := firstOfEachName ((chunks 0 lines).map Chunk.toSection)
    root
    character
    isMod := headers.any (isTelling characters assumed)
    isFixed := lines.any isFixedLine }

/-- The document that a text holds. -/
def ofText (characters : List Character) (assumed : Option Character) (text : Text) : Document :=
  ofLines characters assumed (Text.lines text)

/-- The document without regard to characters: the first blend override is the root. -/
def plain (text : Text) : Document := ofText [] none text

end Document

end Reskin.Ini
