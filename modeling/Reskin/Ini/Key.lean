import Reskin.Text.Blank
import Reskin.Text.Caseless

/-!
# Keys with a meaning

## Main definitions

* `Ini.Key`: the keys that remapping treats on their own
* `Ini.Key.ofText?`: the key that a written key means
-/

namespace Reskin.Ini

/-- A key that remapping treats on its own. -/
inductive Key where
  | run
  | hash
  | vb1
  | handling
  | draw
  | matchFirstIndex
  | type
  | stride
  | filename
  deriving DecidableEq, Repr

namespace Key

/-- The key as it is written into generated sections. -/
def text : Key → Text
  | run => ['r', 'u', 'n']
  | hash => ['h', 'a', 's', 'h']
  | vb1 => ['v', 'b', '1']
  | handling => ['h', 'a', 'n', 'd', 'l', 'i', 'n', 'g']
  | draw => ['d', 'r', 'a', 'w']
  | matchFirstIndex =>
    ['m', 'a', 't', 'c', 'h', '_', 'f', 'i', 'r', 's', 't', '_', 'i', 'n', 'd', 'e', 'x']
  | type => ['t', 'y', 'p', 'e']
  | stride => ['s', 't', 'r', 'i', 'd', 'e']
  | filename => ['f', 'i', 'l', 'e', 'n', 'a', 'm', 'e']

/-- Every key. -/
def all : List Key :=
  [run, hash, vb1, handling, draw, matchFirstIndex, type, stride, filename]

/-- The key a written key means, whatever its case and the blanks around it. -/
def ofText? (t : Text) : Option Key :=
  all.find? fun k => Text.eqCaseless k.text (Text.trim t)

end Key

end Reskin.Ini
