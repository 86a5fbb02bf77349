import Reskin.Batch.Basic
import Reskin.Journal.File

/-!
# Notes on batches

## Main definitions

* `Journal.processing`: the notes on one file of a batch
* `Journal.running`: the notes on all of them
-/

namespace Reskin.Journal

/-- A status as the journal shows it. -/
def statusText : Batch.Status → Text
  | .fixed vs => "Fixed \x7b variants: ".toList ++ Text.quotedList vs ++ " \x7d".toList
  | .alreadyFixed => "AlreadyFixed".toList
  | .undone => "Undone".toList
  | .unchanged => "Unchanged".toList
  | .notMod => "NotMod".toList

/-- The notes on both stages of a file. -/
def stageNotes (b : Batch) (d : Disk) (f : ModFile) : List Note :=
  (if b.options.fixOnly then [] else undoing f d) ++
    match b.undoStage d f with
    | .error _ => []
    | .ok s => if b.options.undoOnly then [] else applying s.file d

/-- **The notes on one file**, with the fault it is skipped for, if there is one. -/
def processing (b : Batch) (d : Disk) (path : Text) : List Note :=
  let work :=
    match b.openFile path with
    | .error _ => []
    | .ok f =>
      loading f d ++
        match f.isMod d with
        | (.ok true, f) => stageNotes b d f
        | (.ok false, _) => [note .debug .batch [path, " is not a mod file".toList]]
        | (.error _, _) => []
  work ++
    match (b.process d path).1 with
    | .error fault => [note .warn .batch ["Skipping ".toList, path, ": ".toList, fault.message]]
    | .ok r =>
      (if r.written then [note .debug .file ["Wrote ".toList, path]] else []) ++
        match b.openFile path with
        | .error _ => []
        | .ok f =>
          match (f.isMod d).1 with
          | .ok true => [note .info .batch [path, ": ".toList, statusText r.status]]
          | _ => []

/-- The notes on the files of a batch, each with the disk that the one before it leaves. -/
def runningFrom (b : Batch) (d : Disk) : (paths : List Text) → List Note
  | [] => []
  | path :: paths => processing b d path ++ runningFrom b (b.process d path).2 paths

/-- **The notes on a batch.** -/
def running (b : Batch) (d : Disk) (paths : List Text) : List Note :=
  runningFrom b d paths ++
    [note .info .batch ["Done: ".toList, (b.run d paths).1.text]]

end Reskin.Journal
