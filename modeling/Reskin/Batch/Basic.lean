import Reskin.Batch.Summary
import Reskin.ModFile

/-!
# Batches

A batch processes mod files one after the other: generated content is removed, then added anew, and
the file is written once if its text has changed. A file that fails is noted and the next one
follows.

## Main definitions

* `Batch.Options`, `Batch`, `Batch.new`: what to do, for which characters
* `Batch.process`: one file
* `Batch.run`: many files
-/

namespace Reskin

namespace Batch

/-- What to do with files. -/
structure Options where
  /-- Generated content is only added. -/
  fixOnly : Bool
  /-- Generated content is only removed. -/
  undoOnly : Bool
  /-- The names of the characters to look for; every known one if there are none. -/
  types : List Text
  /-- The name of the character assumed for files of no other. -/
  defaultType : Option Text
  /-- The variants asked for. -/
  variants : List Text
  /-- The pattern of managed resources, as it is written. -/
  managed : Text
  deriving DecidableEq, Repr

/-- The options that nothing is asked for with. -/
def Options.default : Options := ⟨false, false, [], none, [], managedByDefault⟩

end Batch

/-- Options, with the characters they name. -/
structure Batch where
  options : Batch.Options
  characters : List Character
  assumed : Option Character

namespace Batch

/-- The character that is called so. -/
def findCharacter (known : List Character) (name : Text) : Except Fault Character :=
  match Character.search? known name with
  | some c => .ok c
  | none => .error (.unknownCharacter name)

/-- The characters that are called so, in the order of the names. -/
def findCharacters (known : List Character) : (names : List Text) → Except Fault (List Character)
  | [] => .ok []
  | name :: names => do
    let c ← findCharacter known name
    let cs ← findCharacters known names
    return c :: cs

/-- A batch with the given options over the known characters. Options that exclude one another and
names that no character has are refused. -/
def new (known : List Character) (options : Options) : Except Fault Batch :=
  if options.fixOnly && options.undoOnly then
    .error (.conflictingOptions ["--fix-only".toList, "--undo-only".toList])
  else do
    let characters ←
      if options.types = [] then .ok known else findCharacters known options.types
    let assumed ←
      match options.defaultType with
      | none => .ok none
      | some name => (findCharacter known name).map some
    return ⟨options, characters, assumed⟩

/-- The file at a path, as the batch sees it. -/
def openFile (b : Batch) (path : Text) : Except Fault ModFile :=
  ((ModFile.ofPath path).withCharacters b.characters |>.withAssumed b.assumed
    |>.withVariants b.options.variants).withManaged b.options.managed

/-- What one stage makes of a file: its status, the files removed and generated, and its state. -/
structure Stage where
  file : ModFile
  status : Status
  removed : List Text
  generated : List Text

/-- The stage that removes generated content, unless it is only to be added. -/
def undoStage (b : Batch) (d : Disk) (f : ModFile) : Except Fault Stage :=
  if b.options.fixOnly then .ok ⟨f, .unchanged, [], []⟩
  else
    match f.undo d with
    | (.error fault, _) => .error fault
    | (.ok e, f) =>
      if e.isUnchanged then .ok ⟨f, .unchanged, [], []⟩ else .ok ⟨f, .undone, e.files, []⟩

/-- The stage that adds generated content, unless it is only to be removed. -/
def applyStage (b : Batch) (d : Disk) (s : Stage) : Except Fault Stage :=
  if b.options.undoOnly then .ok s
  else
    match s.file.apply d with
    | (.error fault, _) => .error fault
    | (.ok (.applied variants), f) =>
      .ok { s with
        file := f
        status := .fixed variants.toList
        generated := f.buffers.flatMap fun (_, b) => b.fixedFiles }
    | (.ok .alreadyFixed, f) => .ok { s with file := f, status := .alreadyFixed }
    | (.ok .noRoot, f) => .ok { s with file := f, status := .notMod }

/-- Both stages on a mod file. -/
def stages (b : Batch) (d : Disk) (f : ModFile) : Except Fault Stage := do
  let s ← b.undoStage d f
  b.applyStage d s

/-- **One file.** A fault leaves the disk as it is. -/
def process (b : Batch) (d : Disk) (path : Text) : Except Fault Report × Disk :=
  match b.openFile path with
  | .error fault => (.error fault, d)
  | .ok f =>
    match f.isMod d with
    | (.error fault, _) => (.error fault, d)
    | (.ok false, _) => (.ok ⟨path, .notMod, false, [], []⟩, d)
    | (.ok true, f) =>
      match b.stages d f with
      | .error fault => (.error fault, d)
      | .ok s =>
        if s.file.text = f.text then (.ok ⟨path, s.status, false, s.removed, s.generated⟩, d)
        else
          match s.file.write d with
          | .error fault => (.error fault, d)
          | .ok d => (.ok ⟨path, s.status, true, s.removed, s.generated⟩, d)

/-- The summary and the disk after one more file. -/
def processInto (b : Batch) (state : Summary × Disk) (path : Text) : Summary × Disk :=
  match b.process state.2 path with
  | (.ok report, d) => (state.1.record report, d)
  | (.error fault, d) => (state.1.skip path fault.message, d)

/-- **Many files**, one after the other. -/
def run (b : Batch) (d : Disk) (paths : List Text) : Summary × Disk :=
  paths.foldl b.processInto (.empty, d)

end Batch

end Reskin
