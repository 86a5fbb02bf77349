import Reskin.Batch.Basic

/-!
# Settings

What a user has set once and for all: the characters and variants to look for, and how to log.

## Main definitions

* `Settings`, `Settings.default`
* `Settings.options`: the options that settings stand for
-/

namespace Reskin

/-- What a user has set. -/
structure Settings where
  /-- The names of the characters to look for; every known one if there are none. -/
  types : List Text
  /-- The character assumed for files of no other. -/
  defaultType : Option Text
  /-- The variants asked for. -/
  variants : List Text
  /-- The pattern of managed resources, as it is written. -/
  managed : Text
  /-- The folder of log files. -/
  logFolder : Text
  /-- Whether details are logged. -/
  debug : Bool
  deriving DecidableEq, Repr

namespace Settings

/-- The settings of a user who has set nothing. -/
def default : Settings := ⟨[], none, [], managedByDefault, "logs".toList, false⟩

/-- The options that settings stand for. -/
def options (s : Settings) : Batch.Options :=
  { Batch.Options.default with
    types := s.types, defaultType := s.defaultType, variants := s.variants, managed := s.managed }

end Settings

end Reskin
