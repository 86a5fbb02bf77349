import Reskin.Journal.Note
import Reskin.ModFile

/-!
# Notes on one file

What reading, remapping and erasing write into the journal, up to the first fault. The notes are
computed beside the work, from the same inputs.

## Main definitions

* `Journal.reading`: the notes on reading a document
* `Journal.remapping`: the notes on the graphs of a document and on the block generated from them
* `Journal.erasing`: the notes on the removal of generated content
* `Journal.loading`, `Journal.undoing`, `Journal.applying`: the notes on operations of a file
-/

namespace Reskin.Journal

open Ini (Chunk Document)

/-- The notes on the sections of a text, after sections of the given names: those that do not
count, and the malformed rows of the others. -/
def sectionNotes (seen : List Text) : List Chunk → List Note
  | [] => []
  | c :: cs =>
    if seen.contains c.name then
      note .debug .document ["Ignoring duplicate section [".toList, c.name, "]".toList] ::
        sectionNotes seen cs
    else
      (Ini.Body.faults [] c.lines).map (fun fault => note .debug .document
        ["Treating malformed block in [".toList, c.name, "] as empty: ".toList, fault.message]) ++
      sectionNotes (c.name :: seen) cs

/-- A truth value as a word. -/
def word (b : Bool) : Text := (if b then "true" else "false").toList

/-- **The notes on reading a document** from a text. -/
def reading (d : Document) (text : Text) : List Note :=
  sectionNotes [] (Ini.chunks 0 (Text.lines text)) ++
    [note .debug .document ["Parsed ".toList, Text.ofNat d.sections.length,
      " sections (root: ".toList, Text.quotedOption d.root, ", mod type: ".toList,
      Text.quotedOption (d.character.map (·.name)), ", fixed: ".toList, word d.isFixed,
      ")".toList]]

/-- The note on a graph that is built. -/
def built (g : CallGraph) : Note :=
  note .debug .graph
    ["Built section graph with ".toList, Text.ofNat g.reached.length, " sections".toList]

/-- The note on an id that is kept. -/
def keptId (c : Character) (kind : Asset.Kind) (id variant : Text) : List Note :=
  let kept (level : Level) (fault : Asset.Fault) : List Note :=
    [note level .block [fault.message, ", keeping it".toList]]
  match c.replace kind id variant with
  | .ok _ => []
  | .error (.unknown id) => kept .debug (.unknown id)
  | .error (.unmapped id v) => kept .warn (.unmapped id v)

/-- The notes on the ids of a graph that are kept for a variant. -/
def keptIds (c : Character) (g : CallGraph) (variant : Text) : List Note :=
  g.reached.flatMap fun (_, b) => b.parts.flatMap fun (_, ps) => ps.flatMap fun (key, value) =>
    match Ini.Key.ofText? key with
    | some .hash => keptId c .hash value variant
    | some .matchFirstIndex => keptId c .index value variant
    | _ => []

/-- The sizes of the three graphs of a file, with the words around them. -/
def sizes (f : ModFile) : List Text :=
  [Text.ofNat f.blend.reached.length, " blend, ".toList, Text.ofNat f.others.reached.length,
    " non-blend, ".toList, Text.ofNat f.resources.reached.length, " resource sections".toList]

/-- Whether anything is generated from the graphs of a file. -/
def generates (f : ModFile) : Bool :=
  !(f.blend.isEmpty && f.others.isEmpty && f.resources.isEmpty)

/-- The notes on the block that is generated from the graphs of a file. -/
def blockNotes (f : ModFile) (c : Character) : List Note :=
  let variants := f.toFix.toList
  variants.flatMap (fun v => keptIds c f.blend v ++ keptIds c f.others v) ++
    [note .debug .block (["Generated ".toList,
      Text.ofNat (if generates f then variants.length else 0), " variants (".toList] ++ sizes f ++
      [" each)".toList])]

/-- **The notes on the graphs of a document and on the block** generated from them, up to the graph
that is not built. -/
def remapping (f : ModFile) (doc : Document) (root : Text) (c : Character) : List Note :=
  match f.blend.build [root] doc.bodies with
  | (some _, _) => []
  | (none, blend) =>
    match f.others.build (ModFile.otherRoots f.availableCharacter blend doc) doc.bodies with
    | (some _, _) => [built blend]
    | (none, others) =>
      match f.resources.build (ModFile.resourceRoots f.managed blend) doc.bodies with
      | (some _, _) => [built blend, built others]
      | (none, resources) =>
        let f := (f.buildFrom doc root).2
        [built blend, built others, built resources,
          note .info .file (["Root [".toList, root, "]: ".toList] ++ sizes f ++
            ["; variants ".toList, Text.quotedSet f.toFix.toList])] ++
        blockNotes f c

/-- The notes on a pass that has removed the named sections of a text. -/
def passNotes (text : Text) (active : Bool) (names : List Text) : List Note :=
  if active then
    let d := Document.plain text
    let graph := (CallGraph.empty .blend).build (names.filter d.bodies.has) d.bodies
    reading d text ++
      match graph with
      | (some _, _) => []
      | (none, g) =>
        built g :: ((((g.valuesOf .vb1).filter Naming.isGenerated).eraseDups).filter
          (!d.bodies.has ·)).map fun r =>
            note .debug .erasure ["Generated resource [".toList, r, "] has no section".toList]
  else []

/-- **The notes on the removal of generated content** from a text. -/
def erasing (folder text : Text) : List Note :=
  let (fences, unfenced) := Remap.Fence.cut text
  let fenced := Remap.fencedNames fences
  let first := passNotes text (!fences.isEmpty) fenced
  match Remap.passResources folder text (!fences.isEmpty) fenced with
  | .error _ => first
  | .ok _ =>
    let names := (Remap.sweep false (Text.lines unfenced)).names.eraseDups
    first ++ passNotes unfenced (!names.isEmpty) names ++
      match Remap.erase folder text with
      | .error _ => []
      | .ok e =>
        if e.isUnchanged then []
        else [note .info .erasure ["Removed ".toList, Text.ofNat e.blocks,
          " generated blocks, ".toList, Text.ofNat e.sections.length,
          " generated sections, ".toList, Text.ofNat e.comments,
          " boilerplate lines and ".toList, Text.ofNat e.resources.length,
          " generated resources".toList]]

/-- The notes on loading a file and reading its document, where that is still to be done. -/
def loading (f : ModFile) (d : Disk) : List Note :=
  match f.load d with
  | .error _ => []
  | .ok g =>
    (match f.loaded, f.path with
      | none, some path => [note .debug .file ["Read ".toList, path, " (".toList,
          Text.ofNat g.text.utf8Length, " bytes)".toList]]
      | _, _ => []) ++
    (if g.parsed.isSome then [] else reading g.document g.text)

/-- The notes on removing generated content from a file whose document is read. -/
def undoing (f : ModFile) (d : Disk) : List Note :=
  erasing f.folder f.text ++
    match f.undo d with
    | (.ok e, g) => if e.isUnchanged then [] else reading g.document g.text
    | (.error _, _) => []

/-- The notes on adding generated content to a file whose document is read. -/
def applying (f : ModFile) (d : Disk) : List Note :=
  match f.parsed with
  | none => []
  | some doc =>
    if doc.isFixed then [note .info .file ["Already fixed, skipping".toList]]
    else
      match doc.root, f.availableCharacter with
      | none, _ => [note .info .file ["No root section found, skipping".toList]]
      | some _, none => []
      | some root, some c =>
        remapping f doc root c ++
          match f.apply d with
          | (.ok _, g) => reading g.document g.text
          | (.error _, _) => []

end Reskin.Journal
