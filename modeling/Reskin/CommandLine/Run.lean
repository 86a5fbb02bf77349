import Reskin.CommandLine.Arguments
import Reskin.Config.Folder
import Reskin.Journal.Batch

/-!
# Runs of the program

## Main definitions

* `CommandLine.Result`: what a run shows and leaves behind
* `CommandLine.run`: the run that arguments ask for
* `CommandLine.respond`: the answer to a command line
-/

namespace Reskin.CommandLine

open Journal (Note note)

/-- The name of the program. -/
def programName : Text := "iniremap".toList

/-- The version of the program. -/
def programVersion : Text := "0.1.0".toList

/-- Where the journal goes. -/
structure Log where
  folder : Text
  json : Bool
  notes : List Note
  deriving DecidableEq, Repr

/-- What a run shows and leaves behind. -/
structure Result where
  /-- The exit code: zero if all went well, one if a file was skipped or the run could not begin,
  two if the command line is misused, a hundred and one if the journal cannot be opened. -/
  exit : Nat
  /-- The text on standard output. -/
  output : Text
  /-- Why the run could not begin. -/
  failure : Option Text
  /-- The journal, if the run came so far as to open it. -/
  log : Option Log
  disk : Disk

/-- A result without a journal. -/
def Result.plain (exit : Nat) (output : Text) (disk : Disk) : Result :=
  ⟨exit, output, none, none, disk⟩

/-- The result of a run that could not begin. -/
def Result.failed (message : Text) (log : Option Log) (disk : Disk) : Result :=
  ⟨1, [], some message, log, disk⟩

/-- A row of files in the journal, with a heading; nothing for no files. -/
def fileNotes (heading : String) (files : List Text) : List Note :=
  if files = [] then []
  else
    note .info .program [heading.toList, " (".toList, Text.ofNat files.length, "):".toList] ::
      files.map fun f => note .info .program ["  ".toList, f]

/-- The notes on the outcome of a batch. -/
def closingNotes (s : Batch.Summary) : List Note :=
  s.skipped.map (fun (path, reason) =>
    note .error .program ["Failed to process ".toList, path, ": ".toList, reason]) ++
  fileNotes "Generated buffer files no longer referenced" s.removed ++
  fileNotes "Buffer files referenced by the new resources" s.generated

/-- The first notes of a journal. -/
def openingNotes (folder : Text) (json debug : Bool) : List Note :=
  let kind := if json then "JSON logging" else "Logging"
  let console := if json then [] else ", console=true".toList
  [note .info .logging [kind.toList, " initialized: dir=".toList, folder, ", prefix=".toList,
      programName, ", debug=".toList, Journal.word debug, console],
    note .info .program ["Starting ".toList, programName, " v".toList, programVersion]]

/-- The note on where the catalogue comes from. -/
def catalogueNote (f : Config.Folder) (d : Disk) : Note :=
  let path := f.pathOf .catalogue
  if d.isThere path then note .info .configuration ["Loaded main config from ".toList, path]
  else note .warn .configuration ["Main config file not found at ".toList, path,
    ", using built-in mod types".toList]

/-- The run after the journal is opened. `log` is the journal with some notes. -/
def runWith (a : Arguments) (s : Settings) (f : Config.Folder) (log : List Note → Log)
    (opening : List Note) (d : Disk) : Result :=
  match f.loadCatalogue d with
  | .error fault => .failed fault.fullMessage (some (log opening)) d
  | .ok catalogue =>
    let notes := opening ++ [catalogueNote f d]
    match catalogue.characters with
    | .error fault =>
      .failed ("Invalid mod type in main config: ".toList ++ fault.message) (some (log notes)) d
    | .ok characters =>
      let notes := notes ++ [note .debug .characters
        ["Loaded ".toList, Text.ofNat characters.length, " mod types".toList]]
      match Batch.new characters (a.options s) with
      | .error fault => .failed fault.message (some (log notes)) d
      | .ok b =>
        let (summary, after) := b.run d a.files
        let notes := notes ++ Journal.running b d a.files ++ closingNotes summary
        ⟨if summary.hasFailures then 1 else 0, summary.text ++ ['\n'], none, some (log notes),
          after⟩

/-- The disk with the folder of log files made if nothing is there. -/
def openLogFolder (d : Disk) (folder : Text) : Except Disk.Fault Disk :=
  if d.isThere folder then .ok d else d.createFolders folder

/-- **The run that arguments ask for**: the configuration is opened and the settings are read, then
the journal is opened, then the catalogue is read and the files are processed. -/
def run (a : Arguments) (d : Disk) : Result :=
  match Config.openFolder d a.folder with
  | .error fault =>
    .failed ("Failed to open the config directory: ".toList ++ fault.fullMessage) none d
  | .ok (f, d) =>
    match f.loadSettings d with
    | .error fault => .failed fault.fullMessage none d
    | .ok s =>
      let folder := a.logFolder.getD s.logFolder
      let debug := a.debug || s.debug
      match openLogFolder d folder with
      | .error cause =>
        .failed ("Failed to create log directory: ".toList ++ folder ++ ": ".toList ++
          cause.message) none d
      | .ok d =>
        if folder ≠ [] ∧ !d.isFolder folder then .plain 101 [] d
        else
          runWith a s f (fun notes => ⟨folder, a.logJson, Journal.shown debug notes⟩)
            (openingNotes folder a.logJson debug) d

/-- The lines that tell how the program is used. -/
def usage : Text :=
  "Usage: iniremap [OPTIONS] <FILES>...\n".toList

/-- **The answer to a command line.** -/
def respond (words : List Text) (d : Disk) : Result :=
  match Request.ofList? words with
  | none => .plain 2 [] d
  | some .version => .plain 0 (programName ++ ' ' :: programVersion ++ ['\n']) d
  | some .help => .plain 0 usage d
  | some (.run a) => run a d

end Reskin.CommandLine
