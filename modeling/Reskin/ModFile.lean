import Reskin.Remap.Block
import Reskin.Remap.Erasure

/-!
# Mod files

A mod file is a text, in memory or on disk, together with what is known about it: the characters it
may belong to, the document read from it, and the call graphs built last. The document is read at
most once for each text; whatever changes the text or the characters forgets it.

## Main definitions

* `ModFile`: the state of a file
* `ModFile.ensureParsed`, `ModFile.isMod`, `ModFile.isFixed`: reading
* `ModFile.buildGraphs`, `ModFile.fixText`: the sections to generate, and their text
* `ModFile.apply`, `ModFile.undo`: adding generated content and removing it

An operation that can fail answers with the state it leaves behind.
-/

namespace Reskin

open Ini (Document)
open Remap (Erasure Sources)

/-- The pattern of the resources that are remapped unless another one is given. -/
def managedByDefault : Text := "^Resource".toList

/-- A mod file. -/
structure ModFile where
  /-- Where the file is on disk; `none` for a text in memory. -/
  path : Option Text
  /-- The text, once it is loaded. -/
  loaded : Option Text
  /-- The document that the text holds, once it is read. -/
  parsed : Option Document
  /-- The characters the file may belong to. -/
  characters : List Character
  /-- The character assumed if it belongs to none of them. -/
  assumed : Option Character
  /-- The variants asked for. -/
  requested : VariantSet
  /-- Occurs in the names of the resources that are remapped. -/
  managed : Pattern
  blend : CallGraph
  others : CallGraph
  resources : CallGraph
  /-- The buffer files of the sections of the resource graph. -/
  buffers : Table Buffers
  /-- The variants that content is generated for. -/
  toFix : VariantSet

namespace ModFile

/-- A file from a path or a text, with nothing known about it. -/
def ofSource (path loaded : Option Text) : ModFile :=
  { path, loaded
    parsed := none
    characters := []
    assumed := none
    requested := .empty
    managed := (Pattern.read? managedByDefault).getD .empty
    blend := .empty .blend
    others := .empty .fix
    resources := .empty .resource
    buffers := []
    toFix := .empty }

/-- A file in memory. -/
def ofText (text : Text) : ModFile := ofSource none (some text)

/-- A file on disk, loaded on first use. -/
def ofPath (path : Text) : ModFile := ofSource (some path) none

/-- The file with other characters it may belong to. -/
def withCharacters (f : ModFile) (characters : List Character) : ModFile :=
  { f with characters, parsed := none }

/-- The file with another character that is assumed. -/
def withAssumed (f : ModFile) (assumed : Option Character) : ModFile :=
  { f with assumed, parsed := none }

/-- The file with other variants asked for. -/
def withVariants (f : ModFile) (variants : List Text) : ModFile :=
  { f with requested := .ofList variants }

/-- The file with another pattern of managed resources. -/
def withManaged (f : ModFile) (pattern : Text) : Except Fault ModFile :=
  match Pattern.read? pattern with
  | some managed => .ok { f with managed }
  | none => .error .badManagedPattern

/-- The folder that the buffer files are seen from. -/
def folder (f : ModFile) : Text :=
  match f.path.bind Path.parent? with
  | some (c :: parent) => c :: parent
  | _ => ['.']

/-- The text, or nothing if none is loaded. -/
def text (f : ModFile) : Text := f.loaded.getD []

/-- The file with another text. -/
def setText (f : ModFile) (text : Text) : ModFile := { f with loaded := some text, parsed := none }

/-- The file loaded anew from disk. -/
def read (f : ModFile) (d : Disk) : Except Fault ModFile :=
  match f.path with
  | none => .ok f
  | some path =>
    match d.readText path with
    | .ok text => .ok (f.setText text)
    | .error cause => .error (.access path cause)

/-- The disk with the text of the file; a text in memory, or none, is not written. -/
def write (f : ModFile) (d : Disk) : Except Fault Disk :=
  match f.path, f.loaded with
  | some path, some text =>
    match d.writeText path text with
    | .ok d => .ok d
    | .error cause => .error (.access path cause)
  | _, _ => .ok d

/-- The file with all that is derived from its text forgotten, and the text too if it is on
disk. -/
def clear (f : ModFile) : ModFile :=
  { f with
    loaded := if f.path.isSome then none else f.loaded
    parsed := none
    blend := .empty .blend
    others := .empty .fix
    resources := .empty .resource
    buffers := []
    toFix := .empty }

/-- The document that the current text holds for the current characters. -/
def document (f : ModFile) : Document := Document.ofText f.characters f.assumed f.text

/-- The file with its document read, unless it is already. -/
def withDocument (f : ModFile) : ModFile :=
  match f.parsed with
  | some _ => f
  | none => { f with parsed := some f.document }

/-- The file with its text loaded, unless it is already. -/
def load (f : ModFile) (d : Disk) : Except Fault ModFile :=
  match f.loaded with
  | some _ => .ok f
  | none => f.read d

/-- The file with its text loaded and its document read, unless they are already. -/
def ensureParsed (f : ModFile) (d : Disk) : Except Fault ModFile :=
  match f.load d with
  | .ok f => .ok f.withDocument
  | .error fault => .error fault

/-- A question about the document of the file. -/
def ask (question : Document → Bool) (f : ModFile) (d : Disk) : Except Fault Bool × ModFile :=
  match f.ensureParsed d with
  | .error fault => (.error fault, f)
  | .ok f => (.ok (f.parsed.any question), f)

/-- Whether the file can be remapped. -/
def isMod : ModFile → Disk → Except Fault Bool × ModFile := ask (·.isMod)

/-- Whether the file holds generated content. -/
def isFixed : ModFile → Disk → Except Fault Bool × ModFile := ask (·.isFixed)

/-- The character whose root section the document has. -/
def character (f : ModFile) : Option Character := f.parsed.bind (·.character)

/-- The character of the document, else the one assumed. -/
def availableCharacter (f : ModFile) : Option Character := f.character.or f.assumed

/-- Whether a section has an id that the character knows. -/
def hasKnownId (c : Character) (b : Ini.Body) : Bool :=
  b.hashes.any (c.knows .hash) || b.indices.any (c.knows .index)

/-- The sections outside a graph that have an id the character knows, in the order of the file. -/
def otherRoots (c : Option Character) (blend : CallGraph) (d : Document) : List Text :=
  match c with
  | none => []
  | some c => (d.sections.filter fun s => !blend.has s.name && hasKnownId c s.body).map (·.name)

/-- The managed resources that the sections of a graph refer to, in the order of resources. -/
def resourceRoots (managed : Pattern) (blend : CallGraph) : List Text :=
  Naming.sortResources ((blend.valuesOf .vb1).filter managed.occursIn).eraseDups

/-- **The variants to generate**: those that every known id of the three graphs has, as far as they
are asked for; every variant of the character if there are none. -/
def variantsFor (c : Character) (graphs : List CallGraph) (requested : VariantSet) : VariantSet :=
  let common := (VariantSet.interAll (graphs.filterMap (·.commonVariants? c))).getD c.variants
  let chosen := common.inter requested
  if chosen.isEmpty then c.variants else chosen

/-- The file with its variants chosen, the names of its graphs remembered for them, and the buffer
files of its resources collected. -/
def withVariantsChosen (f : ModFile) : ModFile :=
  let toFix :=
    match f.availableCharacter with
    | some c => variantsFor c [f.blend, f.others, f.resources] f.requested
    | none => .empty
  let variants := toFix.toList
  { f with
    toFix
    blend := f.blend.ensureNames variants
    others := f.others.ensureNames variants
    resources := f.resources.ensureNames variants
    buffers := f.resources.reached.map fun (name, b) =>
      (name, Buffers.ofBody f.folder b variants Naming.bufferFile) }

/-- The graphs built from a document and its root. A section that is missing ends it, with the
graphs as far as they are built. -/
def buildFrom (f : ModFile) (doc : Document) (root : Text) : Except Fault Unit × ModFile :=
  match f.blend.build [root] doc.bodies with
  | (some missing, blend) => (.error (.missingSection missing), { f with blend })
  | (none, blend) =>
    let f := { f with blend }
    match f.others.build (otherRoots f.availableCharacter blend doc) doc.bodies with
    | (some missing, others) => (.error (.missingSection missing), { f with others })
    | (none, others) =>
      let f := { f with others }
      match f.resources.build (resourceRoots f.managed blend) doc.bodies with
      | (some missing, resources) => (.error (.missingSection missing), { f with resources })
      | (none, resources) => (.ok (), { f with resources }.withVariantsChosen)

/-- **The three graphs**, from the root section, and the variants to generate. The answer is
`false` if the file has no root section. -/
def buildGraphs (f : ModFile) (d : Disk) : Except Fault Bool × ModFile :=
  match f.ensureParsed d with
  | .error fault => (.error fault, f)
  | .ok f =>
    match f.parsed with
    | none => (.ok false, f)
    | some doc =>
      match doc.root with
      | none => (.ok false, f)
      | some root =>
        match f.buildFrom doc root with
        | (.error fault, f) => (.error fault, f)
        | (.ok (), f) => (.ok true, f)

/-- What the generated block of the file is made from, for a character. -/
def sources (f : ModFile) (c : Character) : Sources :=
  ⟨f.blend, f.others, f.resources, f.buffers, some c⟩

/-- The generated block for the text; empty if the file has no root section. The character is the
one known before the graphs are built. -/
def fixText (f : ModFile) (d : Disk) : Except Fault Text × ModFile :=
  match f.availableCharacter with
  | none => (.error .noCharacter, f)
  | some c =>
    match f.buildGraphs d with
    | (.error fault, f) => (.error fault, f)
    | (.ok false, f) => (.ok [], f)
    | (.ok true, f) => ((f.sources c).block f.toFix.toList (some c.title), f)

/-- What became of a file that generated content was to be added to. -/
inductive Outcome where
  | applied (variants : VariantSet)
  | alreadyFixed
  | noRoot
  deriving DecidableEq, Repr

/-- The text with a block at its end, set off by two empty lines, in the line ending of its first
line. -/
def appended (text block : Text) : Text :=
  let e := Text.lineEnding text
  Text.trimEnd text ++ e.text ++ e.text ++ e.text ++ Text.withEnding e block

/-- **Generated content for every chosen variant is added** to a file that has a root section and
no generated content. -/
def apply (f : ModFile) (d : Disk) : Except Fault Outcome × ModFile :=
  match f.ensureParsed d with
  | .error fault => (.error fault, f)
  | .ok f =>
    match f.parsed with
    | none => (.ok .noRoot, f)
    | some doc =>
      if doc.isFixed then (.ok .alreadyFixed, f)
      else if doc.root.isNone then (.ok .noRoot, f)
      else
        match f.fixText d with
        | (.error fault, f) => (.error fault, f)
        | (.ok block, f) =>
          (.ok (.applied f.toFix), (f.setText (appended f.text block)).withDocument)

/-- **Generated content is removed**; a text without any stays as it is. -/
def undo (f : ModFile) (d : Disk) : Except Fault Erasure × ModFile :=
  match f.ensureParsed d with
  | .error fault => (.error fault, f)
  | .ok f =>
    match Remap.erase f.folder f.text with
    | .error fault => (.error fault, f)
    | .ok e => (.ok e, if e.isUnchanged then f else (f.setText e.text).withDocument)

end ModFile

end Reskin
