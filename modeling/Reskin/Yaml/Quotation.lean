import Reskin.Yaml.Cursor
import Reskin.Yaml.Scalar

/-!
# Reading scalars

## Main definitions

* `Yaml.singleQuoted?`, `Yaml.doubleQuoted?`, `Yaml.plain?`: the scalar that begins at a place, and
  the place after it
* `Yaml.blockScalar?`: the scalar whose lines follow a place
-/

namespace Reskin.Yaml

/-- The rest of a scalar between single quotes, after what is read so far. -/
def singleQuotedFrom? : (fuel : Nat) → (read : Text) → Cursor → Option (Text × Cursor)
  | 0, _, _ => none
  | fuel + 1, read, c =>
    if c.atMarker then none
    else
      match c.rest with
      | [] => none
      | '\x27' :: '\x27' :: _ => singleQuotedFrom? fuel ('\x27' :: read) (c.drop 2)
      | '\x27' :: _ => some (read.reverse, c.next)
      | d :: _ =>
        if isSpace d || isFeed d then do
          let (blanks, feeds, c) ← c.space 0
          singleQuotedFrom? fuel ((folded blanks feeds).reverse ++ read) c
        else singleQuotedFrom? fuel (d :: read) c.next

/-- The scalar between single quotes that begins here. A quote inside is written twice. -/
def singleQuoted? (c : Cursor) : Option (Text × Cursor) :=
  singleQuotedFrom? (c.rest.length + 1) [] c.next

/-- The character that a letter after a backslash stands for. -/
def escape? : Char → Option Char
  | '0' => some '\x00'
  | 'a' => some '\x07'
  | 'b' => some '\x08'
  | 't' => some '\t'
  | '\t' => some '\t'
  | 'n' => some '\n'
  | 'v' => some '\x0b'
  | 'f' => some '\x0c'
  | 'r' => some '\r'
  | 'e' => some '\x1b'
  | ' ' => some ' '
  | '/' => some '/'
  | '\\' => some '\\'
  | 'N' => some '\u0085'
  | '_' => some '\u00A0'
  | 'L' => some '\u2028'
  | 'P' => some '\u2029'
  | c => if c = '\x22' ∨ c = '\x27' then some c else none

/-- How many digits of a code point follow a letter after a backslash. -/
def codeLength? : Char → Option Nat
  | 'x' => some 2
  | 'u' => some 4
  | 'U' => some 8
  | _ => none

/-- The rest of a scalar between double quotes, after what is read so far. -/
def doubleQuotedFrom? : (fuel : Nat) → (read : Text) → Cursor → Option (Text × Cursor)
  | 0, _, _ => none
  | fuel + 1, read, c =>
    if c.atMarker then none
    else
      match c.rest with
      | [] => none
      | '\x22' :: _ => some (read.reverse, c.next)
      | '\\' :: d :: t =>
        if isFeed d then do
          let (_, feeds, c) ← (c.drop 2).space 0
          doubleQuotedFrom? fuel (feeds.reverse ++ read) c
        else
          match codeLength? d with
          | some n => do
            if t.length < n then none
            let e ← (Text.valueIn? 16 (t.take n)).bind Text.charOf?
            doubleQuotedFrom? fuel (e :: read) (c.drop (n + 2))
          | none => do
            let e ← escape? d
            doubleQuotedFrom? fuel (e :: read) (c.drop 2)
      | d :: _ =>
        if isSpace d || isFeed d then do
          let (blanks, feeds, c) ← c.space 0
          doubleQuotedFrom? fuel ((folded blanks feeds).reverse ++ read) c
        else doubleQuotedFrom? fuel (d :: read) c.next

/-- The scalar between double quotes that begins here. -/
def doubleQuoted? (c : Cursor) : Option (Text × Cursor) :=
  doubleQuotedFrom? (c.rest.length + 1) [] c.next

/-- The characters that brackets are made of, and the comma. -/
def isFlowIndicator (c : Char) : Bool :=
  c == ',' || c == '[' || c == ']' || c == '\x7b' || c == '\x7d'

/-- Whether a plain scalar can begin so. -/
def startsPlain (inside : Bool) : Text → Bool
  | [] => false
  | c :: t =>
    if c = '-' then !atGap t
    else if c = '?' ∨ c = ':' then !inside && !atGap t
    else
      !isSpace c && !isFeed c && !isFlowIndicator c &&
        !(['#', '&', '*', '!', '|', '>', '\x27', '\x22', '%', '@', '\x60'].contains c)

/-- The rest of a word of a plain scalar, after what is read so far; `none` if a colon inside
brackets is joined to a bracket or comma. -/
def wordFrom? (inside : Bool) (read : Text) (line col : Nat) : Text → Option (Text × Cursor)
  | [] => some (read.reverse, ⟨[], line, col⟩)
  | c :: t =>
    if isSpace c || isFeed c then some (read.reverse, ⟨c :: t, line, col⟩)
    else if c == ':' && inside && t.head?.any (fun d => isFlowIndicator d || d == '?') then none
    else if c == ':' && atGap t then some (read.reverse, ⟨c :: t, line, col⟩)
    else if inside && isFlowIndicator c then some (read.reverse, ⟨c :: t, line, col⟩)
    else wordFrom? inside (c :: read) line (col + 1) t

/-- The further words of a plain scalar, after what is read so far. -/
def wordsFrom? (inside : Bool) (least : Nat) :
    (fuel : Nat) → (read : Text) → Cursor → Option (Text × Cursor)
  | 0, _, _ => none
  | fuel + 1, read, c => do
    let (blanks, feeds, d) ← c.space least
    if d.atEnd || d.atMarker || d.rest.head? == some '#' then return (read, c)
    if feeds.isEmpty && blanks.isEmpty then return (read, c)
    if !inside && !feeds.isEmpty && d.col < least then return (read, c)
    let (word, e) ← wordFrom? inside [] d.line d.col d.rest
    if word.isEmpty then return (read, c)
    wordsFrom? inside least fuel (read ++ folded blanks feeds ++ word) e

/-- **The plain scalar that begins here.** It goes on over the lines that are indented to column
`least` at least, up to a comment, a colon before a gap, or, inside brackets, a bracket or comma. -/
def plain? (inside : Bool) (least : Nat) (c : Cursor) : Option (Text × Cursor) := do
  let (word, d) ← wordFrom? inside [] c.line c.col c.rest
  wordsFrom? inside least (c.rest.length + 1) word d

/-- What the header of a block scalar says. -/
structure BlockHeader where
  /-- Line feeds between words become blanks. -/
  folds : Bool
  /-- `some true` keeps all line feeds at the end, `some false` none. -/
  keeps : Option Bool
  /-- The indentation beyond that of the parent, if it is given. -/
  indent : Option Nat

/-- The signs of a header, after what is read so far. -/
def headerSigns? (h : BlockHeader) (line col : Nat) : Text → Option (BlockHeader × Cursor)
  | [] => some (h, ⟨[], line, col⟩)
  | c :: t =>
    if c = '+' ∨ c = '-' then
      if h.keeps.isSome then none
      else headerSigns? { h with keeps := some (c == '+') } line (col + 1) t
    else if '1' ≤ c ∧ c ≤ '9' then
      if h.indent.isSome then none
      else headerSigns? { h with indent := some (c.toNat - 48) } line (col + 1) t
    else some (h, ⟨c :: t, line, col⟩)

/-- The columns that a line is indented by. -/
def indentOf (line : Text) : Nat := (line.takeWhile (· == ' ')).length

/-- The lines of a block scalar: those indented enough, and the empty ones between them. -/
def blockLines (indent : Nat) : List Text → List Text
  | [] => []
  | l :: ls =>
    if l.all (· == ' ') ∨ indent ≤ indentOf l then l.drop indent :: blockLines indent ls else []

/-- The text of lines that fold: a line feed between two words is a blank. -/
def foldLines : List Text → Text
  | [] => []
  | [l] => l
  | l :: m :: ls =>
    let isText (t : Text) : Bool := t.head?.any (!isSpace ·)
    if isText l && isText m then l ++ ' ' :: foldLines (m :: ls)
    else if isText l && m.isEmpty && ((m :: ls).dropWhile List.isEmpty).head?.any isText then
      l ++ foldLines (m :: ls)
    else l ++ '\n' :: foldLines (m :: ls)

/-- **The block scalar that begins here**, with lines indented to column `least` at least. -/
def blockScalar? (least : Nat) (c : Cursor) : Option (Text × Cursor) := do
  let folds := c.rest.head? == some '>'
  let (h, d) ← headerSigns? ⟨folds, none, none⟩ c.line (c.col + 1) c.rest.tail
  if !atGap d.rest then none
  let (e, _) := Cursor.skip false false { d with rest := d.rest.takeWhile (· ≠ '\n') }
  if !e.atEnd then none
  match d.rest.dropWhile (· ≠ '\n') with
  | [] => return ([], ⟨[], d.line, d.col⟩)
  | _ :: body =>
    let lines := Text.split '\n' body
    let written := lines.filter fun l => !(l.all (· == ' '))
    let indent :=
      match h.indent with
      | some n => least - 1 + n
      | none => max least ((written.head?.map indentOf).getD least)
    let taken := blockLines indent lines
    let content := (taken.reverse.dropWhile List.isEmpty).reverse
    let trailing := taken.length - content.length - (if taken.length = lines.length then 1 else 0)
    let text := if h.folds then foldLines content else Text.join ['\n'] content
    let ending :=
      match h.keeps with
      | some true => Text.rule (trailing + (if content.isEmpty then 0 else 1)) '\n'
      | some false => []
      | none => if content.isEmpty then [] else ['\n']
    let after := Text.join ['\n'] (lines.drop taken.length)
    return (text ++ ending, ⟨after, d.line + 1 + taken.length, 0⟩)

end Reskin.Yaml
