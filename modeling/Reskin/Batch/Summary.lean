import Reskin.VariantSet

/-!
# Reports and summaries

What became of one file, and the counts over many.

## Main definitions

* `Batch.Status`, `Batch.Report`: one file
* `Batch.Summary`, `Batch.Summary.record`, `Batch.Summary.skip`: many files
* `Batch.Summary.text`: the counts as a sentence
-/

namespace Reskin.Batch

/-- What became of a file. -/
inductive Status where
  | fixed (variants : List Text)
  | alreadyFixed
  | undone
  /-- A mod file with nothing to add or to remove. -/
  | unchanged
  | notMod
  deriving DecidableEq, Repr

/-- What became of a file, and the buffer files it no longer loads or loads now. -/
structure Report where
  path : Text
  status : Status
  /-- Whether the file was written. -/
  written : Bool
  /-- The generated buffer files whose resources were removed. -/
  removed : List Text
  /-- The buffer files of the new resources, which are to be made from those of the mod. -/
  generated : List Text
  deriving DecidableEq, Repr

/-- The counts over many files. -/
structure Summary where
  fixed : Nat
  alreadyFixed : Nat
  undone : Nat
  unchanged : Nat
  notMod : Nat
  /-- The files that could not be processed, each with the reason. -/
  skipped : List (Text × Text)
  removed : List Text
  generated : List Text
  deriving DecidableEq, Repr

namespace Summary

/-- The counts over no files. -/
def empty : Summary := ⟨0, 0, 0, 0, 0, [], [], []⟩

/-- The counts with one more file of a status. -/
def count (s : Summary) : Status → Summary
  | .fixed _ => { s with fixed := s.fixed + 1 }
  | .alreadyFixed => { s with alreadyFixed := s.alreadyFixed + 1 }
  | .undone => { s with undone := s.undone + 1 }
  | .unchanged => { s with unchanged := s.unchanged + 1 }
  | .notMod => { s with notMod := s.notMod + 1 }

/-- The counts with one more file. -/
def record (s : Summary) (r : Report) : Summary :=
  { s.count r.status with
    removed := s.removed ++ r.removed
    generated := s.generated ++ r.generated }

/-- The counts with one more file that could not be processed. -/
def skip (s : Summary) (path reason : Text) : Summary :=
  { s with skipped := s.skipped ++ [(path, reason)] }

/-- Whether some file could not be processed. -/
def hasFailures (s : Summary) : Bool := !s.skipped.isEmpty

/-- A count with its word; nothing for none. -/
def clause (n : Nat) (word : String) : List Text :=
  if n = 0 then [] else [Text.ofNat n ++ ' ' :: word.toList]

/-- The counts as a sentence. -/
def text (s : Summary) : Text :=
  match clause s.fixed "fixed" ++ clause s.alreadyFixed "already fixed" ++
      clause s.undone "undone" ++ clause s.unchanged "unchanged" ++
      clause s.notMod "not mod files" ++ clause s.skipped.length "skipped" with
  | [] => "Nothing to do".toList
  | clauses => Text.join [',', ' '] clauses

end Summary

end Reskin.Batch
