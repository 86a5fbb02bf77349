import Reskin.Text.Basic

/-!
# Lines

A text is cut after every line feed; each line keeps the line feed that ends it.

## Main definitions

* `Text.lines`: the lines of a text with their ends
* `Text.bareLines`: the lines without line feed and the carriage return before it
* `Text.lineEnding`: the line ending of the first line

## Main results

* `Text.flatten_lines`: the lines make up the text
-/

namespace Reskin.Text

/-- The lines of a text, each with the line feed that ends it. -/
def lines : Text → List Text
  | [] => []
  | c :: t =>
    if c = '\n' then ['\n'] :: lines t
    else
      match lines t with
      | [] => [[c]]
      | l :: ls => (c :: l) :: ls

theorem flatten_lines (t : Text) : (lines t).flatten = t := by
  induction t with
  | nil => rfl
  | cons c t ih =>
    rw [lines]
    split
    · next h => simp [h, ih]
    · cases hl : lines t with
      | nil => simpa [hl] using ih
      | cons l ls => simp [hl] at ih ⊢; exact ih

/-- The line without its line feed, and without a carriage return right before that. -/
def bare (line : Text) : Text :=
  match line.reverse with
  | '\n' :: '\r' :: r => r.reverse
  | '\n' :: r => r.reverse
  | _ => line

/-- The lines without the ends that set them apart. -/
def bareLines (t : Text) : List Text := (lines t).map bare

/-- A line feed, or a carriage return and a line feed. -/
inductive LineEnding where
  | lf
  | crlf
  deriving DecidableEq, Repr

/-- The characters of a line ending. -/
def LineEnding.text : LineEnding → Text
  | .lf => ['\n']
  | .crlf => ['\r', '\n']

/-- The ending of the first line; a line feed if the text has no full line. -/
def lineEnding (t : Text) : LineEnding :=
  match splitFirst '\n' t with
  | some (first, _) => if first.getLast? = some '\r' then .crlf else .lf
  | none => .lf

/-- The text with every line feed written as the given ending. -/
def withEnding (e : LineEnding) (t : Text) : Text :=
  match e with
  | .lf => t
  | .crlf => replace '\n' LineEnding.crlf.text t

end Reskin.Text
