import Reskin.Pattern.Basic
import Reskin.Text.Numeral

/-!
# Tokens of written patterns

A written pattern is a row of tokens: sets of characters, assertions, repetitions, bars and
brackets. Brackets are not matched here.

## Main definitions

* `Pattern.Token`: the tokens
* `Pattern.tokens?`: the tokens of a written pattern; `none` if it is not well formed
-/

namespace Reskin.Pattern

/-- How letters, full stops and anchors are read. -/
structure Mode where
  /-- Letters stand for either case. -/
  anyCase : Bool
  /-- A full stop stands for line feeds too. -/
  dotAll : Bool
  /-- The anchors stand at the ends of every line. -/
  perLine : Bool
  deriving DecidableEq, Repr

/-- The mode that patterns begin in. -/
def Mode.plain : Mode := ⟨false, false, false⟩

/-- One token of a written pattern. -/
inductive Token where
  | set (s : CharSet)
  | anyChar
  | atStart
  | atEnd
  | textStart
  | textEnd
  | edge (kind : Edge)
  /-- A repetition with a least and, maybe, a greatest number. -/
  | repeated (least : Nat) (most : Option Nat)
  | bar
  /-- An opening bracket, maybe of a group with a name, after which the mode is changed. -/
  | opening (name : Option Text) (change : Mode → Mode)
  | closing
  /-- A change of mode up to the next closing bracket. -/
  | mode (change : Mode → Mode)

/-- The set of a named class. -/
def namedClass? : Char → Option CharSet
  | 'd' => some .decimal
  | 's' => some .blank
  | 'w' => some .word
  | 'D' => some (.complement .decimal)
  | 'S' => some (.complement .blank)
  | 'W' => some (.complement .word)
  | _ => none

/-- The sets of ASCII characters that have a name in square brackets. -/
def asciiClasses : List (String × List (Char × Char)) :=
  [("alnum", [('0', '9'), ('A', 'Z'), ('a', 'z')]), ("alpha", [('A', 'Z'), ('a', 'z')]),
    ("ascii", [('\x00', '\x7f')]), ("blank", [('\t', '\t'), (' ', ' ')]),
    ("cntrl", [('\x00', '\x1f'), ('\x7f', '\x7f')]), ("digit", [('0', '9')]),
    ("graph", [('!', '~')]), ("lower", [('a', 'z')]), ("print", [(' ', '~')]),
    ("punct", [('!', '/'), (':', '@'), ('[', '\x60'), ('\x7b', '~')]),
    ("space", [('\t', '\r'), (' ', ' ')]), ("upper", [('A', 'Z')]),
    ("word", [('0', '9'), ('A', 'Z'), ('_', '_'), ('a', 'z')]),
    ("xdigit", [('0', '9'), ('A', 'F'), ('a', 'f')])]

/-- The control character that a letter after a backslash stands for. -/
def controlChar? : Char → Option Char
  | 'a' => some '\x07'
  | 'f' => some '\x0c'
  | 't' => some '\t'
  | 'n' => some '\n'
  | 'r' => some '\r'
  | 'v' => some '\x0b'
  | _ => none

/-- Whether a backslash before the character makes it stand for itself. -/
def isEscapable (c : Char) : Bool :=
  c.toNat < 128 && !c.isAlphanum && c != '<' && c != '>'

/-- The character whose code point has the given hexadecimal digits. -/
def hexChar? (digits : Text) : Option Char := (Text.valueIn? 16 digits).bind Text.charOf?

/-- The character given by its code point: so many digits, or any number between braces. -/
def hexEscape? (digits : Nat) (t : Text) : Option (Char × Text) :=
  match t with
  | '\x7b' :: rest => do
    let (inside, rest) ← Text.splitFirst '\x7d' rest
    return (← hexChar? inside, rest)
  | _ => if t.length < digits then none else do return (← hexChar? (t.take digits), t.drop digits)

/-- The single character that an escape stands for. The backslash has been read. -/
def escapedChar? : Text → Option (Char × Text)
  | [] => none
  | 'x' :: rest => hexEscape? 2 rest
  | 'u' :: rest => hexEscape? 4 rest
  | 'U' :: rest => hexEscape? 8 rest
  | c :: rest =>
    match controlChar? c with
    | some d => some (d, rest)
    | none => if isEscapable c then some (c, rest) else none

/-- One end of a range inside square brackets, or a named class there. -/
def classItem? : Text → Option ((Char ⊕ CharSet) × Text)
  | [] => none
  | '\\' :: c :: rest =>
    match namedClass? c with
    | some s => some (.inr s, rest)
    | none => (escapedChar? (c :: rest)).map fun (d, rest) => (.inl d, rest)
  | c :: rest => some (.inl c, rest)

/-- The sets of a row as one set. -/
def unionOf : List CharSet → CharSet
  | [] => .complement (.range '\x00' (Char.ofNat 0x10FFFF))
  | [s] => s
  | s :: t :: ss => .union s (unionOf (t :: ss))

/-- A set of ASCII characters by its name between colons, which a caret ahead of the name turns into
its complement; a square bracket has been read. -/
def asciiClass? : Text → Option (CharSet × Text)
  | ':' :: rest =>
    let (negated, rest) := match rest with
      | '^' :: rest => (true, rest)
      | _ => (false, rest)
    match rest.span (· != ':') with
    | (name, ':' :: ']' :: rest) => do
      let (_, ranges) ← asciiClasses.find? (·.1.toList == name)
      let s := unionOf (ranges.map fun (lo, hi) => .range lo hi)
      return (if negated then .complement s else s, rest)
    | _ => none
  | _ => none

/-- What has been read of the sets between square brackets. -/
structure ClassReading where
  /-- What the sets after the last operator are combined with. -/
  combine : CharSet → CharSet
  /-- The sets after the last operator, the last one first. -/
  sets : List CharSet

namespace ClassReading

/-- A reading of some sets and no operator. -/
def ofSets (sets : List CharSet) : ClassReading := ⟨id, sets⟩

/-- The reading with one more set. -/
def push (r : ClassReading) (s : CharSet) : ClassReading := { r with sets := s :: r.sets }

/-- All that has been read as one set. -/
def set (r : ClassReading) : CharSet := r.combine (unionOf r.sets.reverse)

/-- The reading with an operator behind all that has been read. -/
def operator (r : ClassReading) (op : CharSet → CharSet → CharSet) : ClassReading := ⟨op r.set, []⟩

end ClassReading

mutual

/-- The sets up to the closing bracket, after those already read. Operators bind less than the sets
beside each other do, and are read from the left. -/
def classItems? : (fuel : Nat) → ClassReading → Text → Option (CharSet × Text)
  | 0, _, _ => none
  | _ + 1, _, [] => none
  | fuel + 1, r, '[' :: rest =>
    match asciiClass? rest with
    | some (s, rest) => classItems? fuel (r.push s) rest
    | none => do
      let (inner, rest) ← classOf? fuel rest
      classItems? fuel (r.push inner) rest
  | _ + 1, r, ']' :: rest => some (r.set, rest)
  | fuel + 1, r, '&' :: '&' :: rest => classItems? fuel (r.operator .inter) rest
  | fuel + 1, r, '-' :: '-' :: rest => classItems? fuel (r.operator .diff) rest
  | fuel + 1, r, '~' :: '~' :: rest => classItems? fuel (r.operator .symmDiff) rest
  | fuel + 1, r, t => do
    let (first, rest) ← classItem? t
    let s := first.elim .only id
    match rest with
    | '-' :: ']' :: _ | '-' :: '-' :: _ => classItems? fuel (r.push s) rest
    | '-' :: rest =>
      -- only single characters are the ends of a range
      match first, ← classItem? rest with
      | .inl lo, (.inl hi, rest) =>
        if lo ≤ hi then classItems? fuel (r.push (.range lo hi)) rest else none
      | _, _ => none
    | _ => classItems? fuel (r.push s) rest

/-- The set between square brackets; the opening one has been read. Hyphens right at the beginning
stand for themselves, and so does a closing bracket there. -/
def classOf? : (fuel : Nat) → Text → Option (CharSet × Text)
  | 0, _ => none
  | fuel + 1, t =>
    let (negated, t) := match t with
      | '^' :: rest => (true, rest)
      | _ => (false, t)
    let (hyphens, rest) := t.span (· == '-')
    let (sets, rest) := match hyphens, rest with
      | [], ']' :: rest => ([CharSet.only ']'], rest)
      | _, _ => (hyphens.map .only, rest)
    (classItems? fuel (.ofSets sets) rest).map fun (s, rest) =>
      (if negated then .complement s else s, rest)

end

/-- The change of mode that a row of flags makes; `on` until a minus sign. The flag `U`
tells only which of several pieces is found, and `u` is on in every mode. -/
def modeChange? (on : Bool) : Text → Option (Mode → Mode)
  | [] => some id
  | '-' :: rest => if on ∧ rest ≠ [] then modeChange? false rest else none
  | 'i' :: rest => (modeChange? on rest).map fun f m => f { m with anyCase := on }
  | 's' :: rest => (modeChange? on rest).map fun f m => f { m with dotAll := on }
  | 'm' :: rest => (modeChange? on rest).map fun f m => f { m with perLine := on }
  | 'U' :: rest => modeChange? on rest
  | 'u' :: rest => if on then modeChange? on rest else none
  | _ => none

/-- Whether a group may be called so. -/
def isGroupName : Text → Bool
  | [] => false
  | c :: rest => (c.isAlpha || c == '_') && rest.all fun d => d.isAlphanum || "_.[]".contains d

/-- The token that begins with an opening bracket and a question mark, both read. -/
def groupToken? (t : Text) : Option (Token × Text) :=
  match t with
  | 'P' :: '<' :: rest | '<' :: rest => do
    let (name, rest) ← Text.splitFirst '>' rest
    if isGroupName name then some (.opening (some name) id, rest) else none
  | ':' :: rest => some (.opening none id, rest)
  | _ =>
    match t.span fun c => c.isAlpha || c == '-' with
    | ([], _) => none
    | (flags, rest) =>
      if flags.Nodup then
        match rest with
        | ')' :: rest => (modeChange? true flags).map fun f => (.mode f, rest)
        | ':' :: rest => (modeChange? true flags).map fun f => (.opening none f, rest)
        | _ => none
      else none

/-- The token of a repetition between braces; the opening one has been read. -/
def countToken? (t : Text) : Option (Token × Text) := do
  let (inside, rest) ← Text.splitFirst '\x7d' t
  match Text.splitFirst ',' inside with
  | none =>
    let n ← Text.natural? (Text.trim inside)
    return (.repeated n (some n), rest)
  | some (least, most) =>
    let n ← Text.natural? (Text.trim least)
    if (Text.trim most).isEmpty then return (.repeated n none, rest)
    let m ← Text.natural? (Text.trim most)
    if n ≤ m then return (.repeated n (some m), rest) else none

/-- The ends of words that have a name. -/
def edgeNamed? (name : String) : Option Edge :=
  match name with
  | "start" => some .wordStart
  | "end" => some .wordEnd
  | "start-half" => some .startHalf
  | "end-half" => some .endHalf
  | _ => none

/-- The token of a word boundary. Letters or hyphens between braces name another end of words, where
anything else between braces is a repetition. -/
def edgeToken? (t : Text) : Option (Token × Text) :=
  match t with
  | '\x7b' :: inside =>
    match inside.span fun c => c.isAlpha || c == '-' with
    | ([], _) => some (.edge .boundary, t)
    | (name, '\x7d' :: rest) => (edgeNamed? (String.ofList name)).map fun kind => (.edge kind, rest)
    | _ => none
  | _ => some (.edge .boundary, t)

/-- The token of an escape; the backslash has been read. -/
def escapeToken? (t : Text) : Option (Token × Text) :=
  match t with
  | 'b' :: rest => edgeToken? rest
  | 'B' :: rest => some (.edge .noBoundary, rest)
  | '<' :: rest => some (.edge .wordStart, rest)
  | '>' :: rest => some (.edge .wordEnd, rest)
  | 'A' :: rest => some (.textStart, rest)
  | 'z' :: rest => some (.textEnd, rest)
  | c :: rest =>
    match namedClass? c with
    | some s => some (.set s, rest)
    | none => (escapedChar? (c :: rest)).map fun (d, rest) => (.set (.only d), rest)
  | [] => none

/-- A question mark after a repetition changes which piece is found, not whether one is. -/
def dropLazy : Text → Text
  | '?' :: rest => rest
  | t => t

/-- The first token of a text that is not empty. -/
def token? : Text → Option (Token × Text)
  | [] => none
  | '.' :: rest => some (.anyChar, rest)
  | '^' :: rest => some (.atStart, rest)
  | '$' :: rest => some (.atEnd, rest)
  | '|' :: rest => some (.bar, rest)
  | ')' :: rest => some (.closing, rest)
  | '*' :: rest => some (.repeated 0 none, dropLazy rest)
  | '+' :: rest => some (.repeated 1 none, dropLazy rest)
  | '?' :: rest => some (.repeated 0 (some 1), dropLazy rest)
  | '\x7b' :: rest => (countToken? rest).map fun (k, rest) => (k, dropLazy rest)
  | '(' :: '?' :: rest => groupToken? rest
  | '(' :: rest => some (.opening none id, rest)
  | '[' :: rest => (classOf? (rest.length + 1) rest).map fun (s, rest) => (.set s, rest)
  | '\\' :: rest => escapeToken? rest
  | c :: rest => some (.set (.only c), rest)

/-- The tokens of a text; every token takes at least one character, so its length suffices as
`fuel`. -/
def tokensWithin? : (fuel : Nat) → Text → Option (List Token)
  | _, [] => some []
  | 0, _ :: _ => none
  | fuel + 1, t => do
    let (k, rest) ← token? t
    return k :: (← tokensWithin? fuel rest)

/-- The tokens of a written pattern, or `none` if it is not well formed. -/
def tokens? (t : Text) : Option (List Token) := tokensWithin? t.length t

end Reskin.Pattern
