import Reskin.Yaml.Scalar

/-!
# Cursors

A cursor is a place in a document: the text that follows, and the line and column of the place.

## Main definitions

* `Yaml.Cursor`, `Yaml.Cursor.next`, `Yaml.Cursor.drop`: places
* `Yaml.Cursor.skip`: the next place with content
* `Yaml.Cursor.atMarker`: whether a line of three dashes or full stops begins here
* `Yaml.Cursor.space`: the blanks and line feeds between the words of a scalar
-/

namespace Reskin.Yaml

/-- A place in a document. -/
structure Cursor where
  rest : Text
  line : Nat
  col : Nat
  deriving DecidableEq, Repr

namespace Cursor

/-- The start of a text. -/
def start (t : Text) : Cursor := ⟨t, 0, 0⟩

/-- The place after the next character. -/
def next (c : Cursor) : Cursor :=
  match c.rest with
  | [] => c
  | d :: t => if isFeed d then ⟨t, c.line + 1, 0⟩ else ⟨t, c.line, c.col + 1⟩

/-- The place after some more characters. -/
def drop (c : Cursor) : Nat → Cursor
  | 0 => c
  | n + 1 => c.next.drop n

/-- Whether nothing follows. -/
def atEnd (c : Cursor) : Bool := c.rest.isEmpty

/-- Whether the character stands here as an indicator, with a gap after it. -/
def atIndicator (c : Cursor) (indicator : Char) : Bool :=
  match c.rest with
  | d :: t => d == indicator && atGap t
  | [] => false

/-- Whether the line here begins with the mark, and nothing is joined to it. -/
def atMark (mark : Text) (c : Cursor) : Bool :=
  c.col == 0 && (Text.dropStart? mark c.rest).any atGap

/-- Whether a line of three dashes or full stops begins here. -/
def atMarker (c : Cursor) : Bool := c.atMark ['-', '-', '-'] || c.atMark ['.', '.', '.']

/-- The next content of a text that follows a place; see `skip`. -/
def skipFrom (anywhere comment fresh : Bool) (line col : Nat) : Text → Cursor × Bool
  | [] => (⟨[], line, col⟩, fresh)
  | c :: t =>
    if isFeed c then skipFrom anywhere false true (line + 1) 0 t
    else if comment then skipFrom anywhere true fresh line (col + 1) t
    else if c = ' ' ∨ (c = '\t' ∧ (anywhere ∨ ¬ fresh)) then
      skipFrom anywhere false fresh line (col + 1) t
    else if c = '#' then skipFrom anywhere true fresh line (col + 1) t
    else (⟨c :: t, line, col⟩, fresh)

/-- **The next content**: blanks, comments and line feeds are passed over. The second answer says
whether the content begins a line, as far as indentation goes; a tab is no indentation, so none is
passed over there, but for places inside brackets, where tabs may stand anywhere. -/
def skip (anywhere fresh : Bool) (c : Cursor) : Cursor × Bool :=
  skipFrom anywhere false fresh c.line c.col c.rest

/-- The next content inside brackets. -/
def skipInside (c : Cursor) : Cursor := (c.skip true false).1

/-- The blanks of a text up to the first line feed, the line feeds, and the place of the
next word; `none` if a tab stands before column `least` at the start of a line. -/
def spaceFrom (least : Nat) (blanks feeds : Text) (line col : Nat) :
    Text → Option (Text × Text × Cursor)
  | [] => some (blanks.reverse, feeds.reverse, ⟨[], line, col⟩)
  | c :: t =>
    if isFeed c then spaceFrom least blanks (c :: feeds) (line + 1) 0 t
    else if isSpace c then
      if c = '\t' ∧ feeds ≠ [] ∧ col < least then none
      else spaceFrom least (if feeds = [] then c :: blanks else blanks) feeds line (col + 1) t
    else some (blanks.reverse, feeds.reverse, ⟨c :: t, line, col⟩)

/-- The blanks and line feeds here; `none` if a tab is used as indentation. -/
def space (least : Nat) (c : Cursor) : Option (Text × Text × Cursor) :=
  spaceFrom least [] [] c.line c.col c.rest

end Cursor

/-- What stands between two words of a scalar: their blanks, or a blank for a line feed, or the
line feeds but for the first one. Line and paragraph separators stay. -/
def folded (blanks : Text) : (feeds : Text) → Text
  | [] => blanks
  | ['\n'] => [' ']
  | '\n' :: feeds => feeds
  | feeds => feeds

end Reskin.Yaml
