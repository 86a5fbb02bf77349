import Reskin.Text.Quoted

/-!
# Notes

A journal is a list of notes: what a run has done, and what it has met on the way.

## Main definitions

* `Journal.Level`, `Journal.Source`, `Journal.Note`
* `Journal.shown`: the notes that are kept with or without details
-/

namespace Reskin.Journal

/-- How much a note matters. -/
inductive Level where
  | debug
  | info
  | warn
  | error
  deriving DecidableEq, Repr

/-- The name of a level. -/
def Level.name : Level → Text
  | debug => "DEBUG".toList
  | info => "INFO".toList
  | warn => "WARN".toList
  | error => "ERROR".toList

/-- The part of the program that a note comes from. -/
inductive Source where
  | program
  | logging
  | configuration
  | characters
  | batch
  | file
  | document
  | graph
  | block
  | erasure
  deriving DecidableEq, Repr

/-- The name that a part has in the journal. -/
def Source.name : Source → Text
  | program => "iniremap".toList
  | logging => "iniremap::logging".toList
  | configuration => "iniremap::config".toList
  | characters => "iniremap::models::mod_type".toList
  | batch => "iniremap::services::remap_service".toList
  | file => "iniremap::services::ini_file".toList
  | document => "iniremap::services::parser".toList
  | graph => "iniremap::services::graph".toList
  | block => "iniremap::services::generator".toList
  | erasure => "iniremap::services::remover".toList

/-- One note. -/
structure Note where
  level : Level
  source : Source
  message : Text
  deriving DecidableEq, Repr

/-- A note whose message is put together from pieces. -/
def note (level : Level) (source : Source) (pieces : List Text) : Note :=
  ⟨level, source, pieces.flatten⟩

/-- The notes that are kept: all with details, else those that are more than a detail. -/
def shown (details : Bool) (ns : List Note) : List Note :=
  ns.filter fun n => details || n.level != .debug

end Reskin.Journal
