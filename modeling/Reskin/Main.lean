import Reskin.CommandLine.Run
import Reskin.Journal.Format
import Std.Time.Format

/-!
# The program

The paths that a run can come across are looked up, the run is worked out on the disk that they
make up, and then the changes are carried out and the texts are shown.

## Main definitions

* `CommandLine.look`: the disk that a command line is about
* `CommandLine.carryOut`: the changes to the disk
* `main`: the program
-/

namespace Reskin.CommandLine

/-- The disk with what really stands at a location. -/
def lookAt (d : Disk) (l : Disk.Location) : IO Disk := do
  if (d.node? l).isSome then return d
  let path := String.ofList (Disk.pathOf l)
  let full := (← IO.currentDir) / path
  if ← full.isDir then return d.put l .folder
  if ← full.pathExists then return d.put l (.file (← IO.FS.readBinFile full))
  return d

/-- The disk with everything that a path leads through. -/
def lookAlong (d : Disk) (path : Text) : IO Disk := (Disk.waypoints path).foldlM lookAt d

/-- The folder of log files, as far as the disk tells. -/
def logFolder (a : Arguments) (d : Disk) : Text :=
  let settings := ((⟨a.folder⟩ : Config.Folder).loadSettings d).toOption.getD .default
  a.logFolder.getD settings.logFolder

/-- The disk that a run is about: the configuration, the folder of log files and the files. -/
def look (a : Arguments) : IO Disk := do
  let f : Config.Folder := ⟨a.folder⟩
  let d ← [f.path, f.pathOf .catalogue, f.pathOf .settings].foldlM lookAlong .empty
  (logFolder a d :: a.files).foldlM lookAlong d

/-- The real disk with a node at a location. -/
def carryOut (l : Disk.Location) : Disk.Node → IO Unit
  | .folder => IO.FS.createDirAll (String.ofList (Disk.pathOf l))
  | .file bytes => IO.FS.writeBinFile (String.ofList (Disk.pathOf l)) bytes

/-- A new part at the end of the journal of the day. -/
def addToJournal (log : Log) : IO Unit := do
  let now ← Std.Time.Timestamp.now
  let time := Std.Time.PlainDateTime.ofWallTime (now.toWallTime .zero)
  let name := programName ++ '.' :: time.date.toSQLDateString.toList
  let journal ← IO.FS.Handle.mk (String.ofList (Path.join log.folder name)) .append
  let text := Journal.written log.json (time.toLeanDateTimeString ++ "Z").toList log.notes
  journal.putStr (String.ofList text)
  unless log.json do IO.eprint (String.ofList text)

/-- What a run leaves behind and shows. -/
def finish (before : Disk) (r : Result) : IO UInt32 := do
  for (l, n) in Disk.changes before r.disk do
    carryOut l n
  r.log.forM addToJournal
  IO.print (String.ofList r.output)
  r.failure.forM fun message => IO.eprintln ("Error: " ++ String.ofList message)
  return r.exit.toUInt32

end Reskin.CommandLine

/-- **The program**, on the words of its command line. -/
def main (words : List String) : IO UInt32 := do
  let words := words.map String.toList
  let before ←
    match Reskin.CommandLine.Request.ofList? words with
    | some (.run a) => Reskin.CommandLine.look a
    | _ => pure Reskin.Disk.empty
  let r := Reskin.CommandLine.respond words before
  if r.exit = 2 then IO.eprint (String.ofList Reskin.CommandLine.usage)
  Reskin.CommandLine.finish before r
