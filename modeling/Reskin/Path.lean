import Reskin.Text.Basic

/-!
# Paths

Paths are texts whose parts are set apart by slashes. Joining and taking the parent work on the
text alone: nothing is looked up and nothing is normalised.

## Main definitions

* `Path.join`: a path as seen from a folder
* `Path.parent?`: the path without its last part
-/

namespace Reskin.Path

/-- Whether a path begins at the root. -/
def isAbsolute (path : Text) : Bool := Text.startsWith ['/'] path

/-- **The path as seen from the folder**: an absolute path stays, and a slash is put between the
two unless the folder is empty or ends in one. -/
def join (folder path : Text) : Text :=
  if isAbsolute path ∨ folder = [] then path
  else if Text.endsWith ['/'] folder then folder ++ path
  else folder ++ '/' :: path

/-- The parts without those at the end that name nothing: empty ones and single full stops. -/
def dropIdle (parts : List Text) : List Text :=
  (parts.reverse.dropWhile fun s => s == [] || s == ['.']).reverse

/-- The beginning of a path that does not count as a part, and the rest. -/
def splitHead : Text → Text × Text
  | '/' :: t => (['/'], t)
  | ['.'] => (['.'], [])
  | '.' :: '/' :: t => (['.'], '/' :: t)
  | t => ([], t)

/-- The path without its last part: `none` for the root and the empty path. -/
def parent? (path : Text) : Option Text :=
  let (head, body) := splitHead path
  match dropIdle (Text.split '/' body) with
  | [] => if head = ['.'] then some [] else none
  | parts => some (head ++ Text.join ['/'] (dropIdle parts.dropLast))

end Reskin.Path
