import Reskin.Text.Utf8
import Reskin.Yaml.Node
import Reskin.Yaml.Scalar

/-!
# Writing documents

Maps are indented by two columns, the items of a list stand in the column of their key, and empty
lists and maps are written in brackets. A scalar stands without quotes where it would read back as
itself; else it is quoted. Long keys stand on a line of their own.

## Main definitions

* `Yaml.scalarText`: the written form of a scalar
* `Yaml.entriesText`, `Yaml.valueText`: the written forms of entries and values
* `Yaml.write`: the written form of a document
-/

namespace Reskin.Yaml

/-- A character that can be written as it is. -/
def isPrintable (c : Char) : Bool :=
  let n := c.toNat
  n == 10 || (0x20 ≤ n && n ≤ 0x7E) || (0xA0 ≤ n && n != 0xFEFF && n != 0xFFFE && n != 0xFFFF)

/-- The characters that begin something else than a plain scalar. -/
def isOpening (c : Char) : Bool :=
  ['#', ',', '[', ']', '\x7b', '\x7d', '&', '*', '!', '|', '>', '\x27', '\x22', '%', '@',
    '\x60'].contains c

/-- Whether a colon before a gap, or a number sign after one, stands in the text; `gap` says
whether a gap stands before it. -/
def holdsIndicator (gap : Bool) : Text → Bool
  | [] => false
  | c :: t =>
    c == ':' && atGap t || c == '#' && gap ||
      holdsIndicator (isSpace c || isFeed c) t

/-- Whether a text begins like something else than a plain scalar. -/
def beginsOtherwise : Text → Bool
  | [] => false
  | '-' :: '-' :: '-' :: _ => true
  | '.' :: '.' :: '.' :: _ => true
  | c :: t => isOpening c || (c == '?' || c == ':' || c == '-') && atGap t

/-- Whether a blank stands beside a feed. -/
def hasBlankBesideFeed (first second : Char → Bool) : Text → Bool
  | a :: b :: t => first a && second b || hasBlankBesideFeed first second (b :: t)
  | _ => false

/-- The forms that a scalar can be written in. -/
inductive ScalarForm where
  | plain
  | single
  | double
  | block
  deriving DecidableEq, Repr

/-- Whether a text has a character that only double quotes can hold. -/
def needsEscapes (t : Text) : Bool :=
  t.any (fun c => !isPrintable c) || hasBlankBesideFeed (· == ' ') isFeed t

/-- Whether a text may stand without quotes. -/
def isPlainText (t : Text) : Bool :=
  !needsEscapes t && !t.any isFeed && t.head? != some ' ' && t.getLast? != some ' ' &&
    !beginsOtherwise t && !holdsIndicator true t.tail && !t.isEmpty

/-- Whether a text may stand on lines of its own. -/
def isBlockText (t : Text) : Bool :=
  !t.any (fun c => !isPrintable c && c != '\t') && !hasBlankBesideFeed (· == ' ') isFeed t &&
    t.getLast? != some ' '

/-- The form of a scalar, which depends on whether it stands on the line of its value as a key. -/
def formOf (asKey : Bool) (t : Text) : ScalarForm :=
  if t.contains '\n' then if asKey || !isBlockText t then .double else .block
  else if needsEscapes t then .double
  else if needsQuotes t || !isPlainText t then
    if hasBlankBesideFeed isFeed (· == ' ') t then .double else .single
  else .plain

/-- A hexadecimal digit. -/
def hexDigit (n : Nat) : Char := if n < 10 then Char.ofNat (48 + n) else Char.ofNat (55 + n)

/-- So many hexadecimal digits of a number. -/
def hexDigits (n : Nat) : (count : Nat) → Text
  | 0 => []
  | count + 1 => hexDigits (n / 16) count ++ [hexDigit (n % 16)]

/-- A character between double quotes. -/
def doubleQuotedChar (c : Char) : Text :=
  let n := c.toNat
  if c = '\x22' ∨ c = '\\' then ['\\', c]
  else if isPrintable c && !isFeed c then [c]
  else
    match n with
    | 0x00 => ['\\', '0']
    | 0x07 => ['\\', 'a']
    | 0x08 => ['\\', 'b']
    | 0x09 => ['\\', 't']
    | 0x0A => ['\\', 'n']
    | 0x0B => ['\\', 'v']
    | 0x0C => ['\\', 'f']
    | 0x0D => ['\\', 'r']
    | 0x1B => ['\\', 'e']
    | 0x85 => ['\\', 'N']
    | 0x2028 => ['\\', 'L']
    | 0x2029 => ['\\', 'P']
    | _ =>
      if n ≤ 0xFF then ['\\', 'x'] ++ hexDigits n 2
      else if n ≤ 0xFFFF then ['\\', 'u'] ++ hexDigits n 4
      else ['\\', 'U'] ++ hexDigits n 8

/-- So many blanks. -/
def blanks (n : Nat) : Text := Text.rule n ' '

/-- The signs after the bar of a block scalar: its indentation if it begins with a blank or a feed,
and what becomes of the line feeds at its end. -/
def blockSigns (t : Text) : Text :=
  let indent := if t.head?.any fun c => c == ' ' || isFeed c then ['2'] else []
  let ending :=
    match t.reverse with
    | '\n' :: '\n' :: _ => ['+']
    | ['\n'] => ['+']
    | '\n' :: _ => []
    | _ => ['-']
  indent ++ ending

/-- The lines of a block scalar. -/
def blockLinesText (indent : Nat) (fresh : Bool) : Text → Text
  | [] => []
  | c :: t =>
    if c = '\n' then '\n' :: blockLinesText indent true t
    else (if fresh then blanks indent else []) ++ c :: blockLinesText indent false t

/-- **The written form of a scalar**; the lines of a block scalar are indented. -/
def scalarText (asKey : Bool) (indent : Nat) (t : Text) : Text :=
  match formOf asKey t with
  | .plain => t
  | .single => '\x27' :: Text.replace '\x27' ['\x27', '\x27'] t ++ ['\x27']
  | .double => '\x22' :: t.flatMap doubleQuotedChar ++ ['\x22']
  | .block =>
    let body := if t.getLast? = some '\n' then t.dropLast else t
    '|' :: blockSigns t ++ '\n' :: blockLinesText indent true body

/-- How many bytes a key on the line of its value has at most. -/
def longestSimpleKey : Nat := 128

/-- Whether a key stands on the line of its value. -/
def isSimpleKey : Node → Bool
  | .scalar _ t => !t.any isFeed && Text.utf8Length t ≤ longestSimpleKey
  | .list items => items.isEmpty
  | .map entries => entries.isEmpty

/-- A scalar as a node holds it: one without quotes is written as it is. -/
def nodeText (plain asKey : Bool) (indent : Nat) (t : Text) : Text :=
  if plain then t else scalarText asKey indent t

mutual

/-- A value after the colon of a key whose line begins in a column. -/
def valueText (col : Nat) : Node → Text
  | .scalar plain t => ' ' :: nodeText plain false (col + 2) t ++ ['\n']
  | .list [] => " []\n".toList
  | .map [] => " \x7b\x7d\n".toList
  | .list items => '\n' :: itemsText col true items
  | .map entries => '\n' :: entriesText (col + 2) true entries

/-- A node after a sign whose line it shares; its own lines begin in a column. -/
def sharedText (col : Nat) : Node → Text
  | .scalar plain t => nodeText plain false col t ++ ['\n']
  | .list [] => "[]\n".toList
  | .map [] => "\x7b\x7d\n".toList
  | .list items => itemsText col false items
  | .map entries => entriesText col false entries

/-- The items of a list, in a column; the first one shares its line unless it is `fresh`. -/
def itemsText (col : Nat) (fresh : Bool) : List Node → Text
  | [] => []
  | item :: items =>
    (if fresh then blanks col else []) ++ ['-', ' '] ++ sharedText (col + 2) item ++
      itemsText col true items

/-- The entries of a map, in a column; the first one shares its line unless it is `fresh`. -/
def entriesText (col : Nat) (fresh : Bool) : List (Node × Node) → Text
  | [] => []
  | (key, value) :: entries =>
    (if fresh then blanks col else []) ++
      (if isSimpleKey key then keyText col key ++ ':' :: valueText col value
      else '?' :: ' ' :: sharedText (col + 2) key ++ blanks col ++ [':', ' '] ++
        sharedText (col + 2) value) ++
      entriesText col true entries

/-- A key on the line of its value. -/
def keyText (col : Nat) : Node → Text
  | .scalar plain t => nodeText plain true (col + 2) t
  | .list _ => "[]".toList
  | .map _ => "\x7b\x7d".toList

end

/-- **The written form of a document.** -/
def write (n : Node) : Text := sharedText 0 n

end Reskin.Yaml
