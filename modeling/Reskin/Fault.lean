import Reskin.Disk

/-!
# Faults

Why a file cannot be processed, or why a run cannot begin.

## Main definitions

* `Fault`, `Fault.message`
-/

namespace Reskin

/-- Why a file cannot be processed, or why a run cannot begin. -/
inductive Fault where
  /-- A section is run, or asked for, that the file does not declare. -/
  | missingSection (name : Text)
  /-- There is no character whose ids could be replaced. -/
  | noCharacter
  /-- The options exclude one another. -/
  | conflictingOptions (options : List Text)
  /-- No character is called so. -/
  | unknownCharacter (name : Text)
  /-- The root pattern of a character is not well formed. -/
  | badRootPattern (character : Text)
  /-- The pattern of managed resources is not well formed. -/
  | badManagedPattern
  /-- The file cannot be read or written. -/
  | access (path : Text) (cause : Disk.Fault)
  deriving DecidableEq, Repr

/-- The message of a fault. -/
def Fault.message : Fault → Text
  | .missingSection name => "The section by the name '".toList ++ name ++ "' does not exist".toList
  | .noCharacter => "No mod type specified when fixing the .ini file".toList
  | .conflictingOptions options =>
    "Options ".toList ++ Text.join ", ".toList options ++ " cannot be used together".toList
  | .unknownCharacter name => "Unknown mod type: ".toList ++ name
  | .badRootPattern character => "Invalid root pattern for mod type ".toList ++ character
  | .badManagedPattern => "Invalid managed resource pattern".toList
  | .access path cause => "Failed to access ".toList ++ path ++ ": ".toList ++ cause.message

end Reskin
