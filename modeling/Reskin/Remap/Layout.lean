import Reskin.Ini.Body

/-!
# Layout of a generated section

A generated section repeats the control lines of the one it stands in for. The lines of a part are
indented after the control line before it: by its own indent, and by a tab more unless it ends a
block.

## Main definitions

* `Remap.Place`: where a part stands
* `Remap.Laid`, `Remap.layout`: the entries of a body, each part with its place
* `Remap.fill`: the text of a generated section
-/

namespace Reskin.Remap

open Ini (Body Entry Pairs)

/-- Where a part stands while its section is generated. -/
structure Place where
  variant : Text
  /-- The name of the generated section. -/
  name : Text
  /-- The name of the section it stands in for. -/
  source : Text
  /-- The place of the part among the entries. -/
  index : Nat
  /-- What every line of the part begins with. -/
  indent : Text
  deriving DecidableEq, Repr

/-- The indent of the parts that follow a control line. -/
def indentAfter (control : Text) : Text :=
  let blanks := control.takeWhile fun c => c == ' ' || c == '\t'
  let words := control.dropWhile fun c => c == ' ' || c == '\t'
  if Text.holds "endif".toList words then blanks else blanks ++ ['\t']

/-- An entry of a generated section. -/
inductive Laid where
  | control (line : Text)
  | content (place : Place) (pairs : Pairs)
  deriving DecidableEq, Repr

/-- The entries that follow the given place. -/
def layoutFrom (p : Place) : Body → List Laid
  | [] => []
  | .control line :: es =>
    .control line :: layoutFrom { p with index := p.index + 1, indent := indentAfter line } es
  | .content ps :: es => .content p ps :: layoutFrom { p with index := p.index + 1 } es

/-- The entries of a generated section. -/
def layout (variant name source : Text) (b : Body) : List Laid :=
  layoutFrom ⟨variant, name, source, 0, []⟩ b

/-- The header of a generated section. -/
def headerOf (name : Text) : Text := '[' :: name ++ [']', '\n']

/-- The text of one entry; `write` gives the text of a part. -/
def Laid.text {ε : Type} (write : Place → Pairs → Except ε Text) : Laid → Except ε Text
  | control line => .ok (line ++ ['\n'])
  | content place ps => write place ps

/-- The texts of some entries, one after the other. -/
def textOf {ε : Type} (write : Place → Pairs → Except ε Text) : List Laid → Except ε Text
  | [] => .ok []
  | e :: es => do
    let first ← e.text write
    let rest ← textOf write es
    return first ++ rest

/-- **The text of a generated section**: its header, its control lines as they were, and what
`write` makes of its parts. -/
def fill {ε : Type} (write : Place → Pairs → Except ε Text) (variant name source : Text)
    (b : Body) : Except ε Text := do
  let text ← textOf write (layout variant name source b)
  return headerOf name ++ text

end Reskin.Remap
