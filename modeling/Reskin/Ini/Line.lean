import Reskin.Naming
import Reskin.Text.Word

/-!
# Lines of a mod file

What a single line is: a section header, a control line, a heading of a generated block, a comment
that generated blocks consist of, or data. Lines come with the line feed that ends them, so only
the part before the first line feed counts where a line is searched.

## Main definitions

* `Ini.Line.isHeader`, `Ini.Line.sectionName`: section headers
* `Ini.Line.isBlendHeader`, `Ini.Line.isRemapBlendHeader`, `Ini.Line.isGeneratedHeader`: headers
  that override a blend, and headers with a generated name
* `Ini.Line.isControl`: conditional lines
* `Ini.Line.isBlockHeading`, `Ini.Line.isBoilerplate`: comments of generated blocks
-/

namespace Reskin.Ini

namespace Line

/-- The text up to the first line feed. -/
def visible (t : Text) : Text := t.takeWhile (· ≠ '\n')

/-- What follows the bracket that opens a header. -/
def afterBracket? (line : Text) : Option Text :=
  Text.dropStart? ['['] (Text.trimStart line)

/-- **A section header**: a bracket opens it and another one closes it on the same line. -/
def isHeader (line : Text) : Bool :=
  match afterBracket? line with
  | some rest => (visible rest).contains ']'
  | none => false

/-- The trimmed text between the first opening and the last closing bracket. -/
def sectionName (line : Text) : Text :=
  Text.trim <|
    match Text.splitLast [']'] line with
    | some (left, _) =>
      match Text.splitFirst '[' left with
      | some (_, name) => name
      | none => left
    | none =>
      match Text.splitFirst '[' line with
      | some (_, name) => name
      | none => line

/-- Whether a closing bracket follows some place of the mark. -/
def closedAfter (mark rest : Text) : Bool :=
  match Text.after? mark (visible rest) with
  | some tail => tail.contains ']'
  | none => false

/-- The word that opens the name of a section which overrides a texture. -/
def textureOverride : Text := "TextureOverride".toList

/-- A header whose name begins with `TextureOverride` and holds the mark after it. -/
def isOverrideHeader (mark line : Text) : Bool :=
  match (afterBracket? line).bind fun rest =>
      Text.dropStart? textureOverride (Text.trimStart rest) with
  | some rest => closedAfter mark rest
  | none => false

/-- The header of a section that overrides blend weights: the root of a mod of any type. -/
def isBlendHeader (line : Text) : Bool := isOverrideHeader Naming.blendMark line

/-- The header of a blend override that an earlier run has generated. -/
def isRemapBlendHeader (line : Text) : Bool := isOverrideHeader Naming.remapBlendMark line

/-- A header that holds one of the marks of generated names. -/
def isGeneratedHeader (line : Text) : Bool :=
  match afterBracket? line with
  | some rest => closedAfter Naming.remapBlendMark rest || closedAfter Naming.remapFixMark rest
  | none => false

/-- Whether no word goes on at the beginning of the text. -/
def endsWord : Text → Bool
  | [] => true
  | c :: _ => !isWord c

/-- The keywords of conditional lines. -/
def controlWords : List Text :=
  ["endif".toList, "elif".toList, "else".toList, "if".toList]

/-- **A control line**: its first word is one of the four keywords. -/
def isControl (line : Text) : Bool :=
  controlWords.any fun word =>
    match Text.dropStart? word (Text.trimStart line) with
    | some rest => endsWord rest
    | none => false

/-- The line without the carriage returns and line feeds at its end. -/
def withoutBreak (line : Text) : Text :=
  (line.reverse.dropWhile fun c => c == '\r' || c == '\n').reverse

/-- The dashes on either side of the title of a block. -/
def blockDashes : Text := Text.rule 15 '-'

/-- What the titles of generated blocks end in: the present and the former word. -/
def titleWords : List Text := ["Remap".toList, "Boss Fix".toList]

/-- What follows the semicolon and the blank that a comment line begins with. -/
def afterSemicolon? (line : Text) : Option Text :=
  Text.dropStart? [';', ' '] (Text.trimStart line)

/-- The opening line of a generated block: a title between dashes. More may follow. -/
def isBlockHeading (line : Text) : Bool :=
  match (afterSemicolon? line).bind fun rest => Text.dropStart? (blockDashes ++ [' ']) rest with
  | some rest => titleWords.any fun word =>
      Text.holds (word ++ [' '] ++ blockDashes) (visible rest)
  | none => false

/-- The text between two equal sides with a blank inside each. -/
def between? (side : Text) (t : Text) : Option Text :=
  (Text.dropStart? (side ++ [' ']) t).bind fun rest => Text.dropEnd? (' ' :: side) rest

/-- The words of the line that gives credit. -/
def creditWords : Text := "remapped by iniremap".toList

/-- Whether the credit words occur, followed by the end of a word. -/
def givesCredit : Text → Bool
  | [] => false
  | c :: t =>
    (match Text.dropStart? creditWords (c :: t) with
      | some rest => endsWord rest
      | none => false) || givesCredit t

/-- **A line of boilerplate**: a heading of a block, a heading of a variant, a line of credit or a
closing rule, with nothing but blanks after it. -/
def isBoilerplate (line : Text) : Bool :=
  match afterSemicolon? line with
  | none => false
  | some rest =>
    let body := Text.trimEnd rest
    (match between? blockDashes body with
      | some title => titleWords.any fun word => Text.endsWith word title
      | none => false) ||
    (between? (Text.rule 5 '*') body).isSome ||
    givesCredit (visible rest) ||
    (32 ≤ body.length && body.all (· == '-'))

end Line

/-- A line of a section body. -/
inductive LineKind where
  /-- A conditional line, kept as it is written. -/
  | control (line : Text)
  /-- Any other line. -/
  | data (line : Text)
  deriving DecidableEq, Repr

/-- The kind of a line, without the break that ends it. -/
def LineKind.ofLine (line : Text) : LineKind :=
  let line := Line.withoutBreak line
  if Line.isControl line then .control line else .data line

end Reskin.Ini
