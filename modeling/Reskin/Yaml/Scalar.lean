import Reskin.Text.Numeral

/-!
# Plain scalars

What a scalar without quotes means: nothing, a truth value, a number, or itself.

## Main definitions

* `Yaml.isFeed`, `Yaml.isSpace`, `Yaml.atGap`: what stands between words
* `Yaml.isNull`, `Yaml.bool?`: nothing and truth values
* `Yaml.isInteger`, `Yaml.isFloat`: numbers
* `Yaml.needsQuotes`: the texts that mean something else without quotes
-/

namespace Reskin.Yaml

/-- A character that ends a line. -/
def isFeed (c : Char) : Bool :=
  c == '\n' || c == '\r' || c == '\u0085' || c == '\u2028' || c == '\u2029'

/-- A blank or a tab. -/
def isSpace (c : Char) : Bool := c == ' ' || c == '\t'

/-- Whether a word ends before the text. -/
def atGap : Text → Bool
  | [] => true
  | c :: _ => isSpace c || isFeed c

/-- The spellings of nothing. -/
def isNull (t : Text) : Bool :=
  t == "null".toList || t == "Null".toList || t == "NULL".toList || t == ['~']

/-- The truth value of a scalar. -/
def bool? (t : Text) : Option Bool :=
  if t = "true".toList ∨ t = "True".toList ∨ t = "TRUE".toList then some true
  else if t = "false".toList ∨ t = "False".toList ∨ t = "FALSE".toList then some false
  else none

/-- The text without one sign of the given kind. -/
def dropSign (sign : Char) (t : Text) : Text := (Text.dropStart? [sign] t).getD t

/-- Digits with a zero in front of them: a text, not a number. -/
def isPadded (t : Text) : Bool :=
  let digits :=
    match t with
    | '-' :: r => r
    | '+' :: r => r
    | r => r
  match digits with
  | '0' :: d :: r => (d :: r).all Char.isDigit
  | _ => false

/-- The prefixes of the bases that are not ten. -/
def bases : List (Text × Nat) := [(['0', 'x'], 16), (['0', 'o'], 8), (['0', 'b'], 2)]

/-- The value of digits after the mark of their base, or of decimal digits. -/
def magnitude? (t : Text) : Option Nat :=
  match bases.findSome? fun (mark, base) => (Text.dropStart? mark t).bind (Text.valueIn? base) with
  | some n => some n
  | none => Text.valueIn? 10 t

/-- Whether a scalar is an integer of at most 128 bits. -/
def isInteger (t : Text) : Bool :=
  !isPadded t &&
    match t with
    | '-' :: r => (magnitude? r).any fun n => n ≤ Nat.pow 2 127
    | t => (magnitude? (dropSign '+' t)).any fun n => n < Nat.pow 2 128

/-- Whether the digits, times ten to the power of `exponent`, are below the least number that
rounds to infinity in double precision. -/
def isFiniteDecimal (digits : Text) (exponent : Int) : Bool :=
  let digits := digits.dropWhile (· == '0')
  let places : Int := digits.length + exponent
  if digits = [] ∨ places < 300 then true
  else if places > 310 then false
  else
    let n := (Text.valueIn? 10 digits).getD 0
    let limit := Nat.pow 2 1024 - Nat.pow 2 970
    if exponent < 0 then n < limit * Nat.pow 10 exponent.natAbs
    else n * Nat.pow 10 exponent.natAbs < limit

/-- The exponent at the end of a number: nothing, or a letter and a signed row of digits. -/
def exponent? : Text → Option Int
  | [] => some 0
  | e :: t =>
    if e = 'e' ∨ e = 'E' then
      match t with
      | '-' :: r => (Text.valueIn? 10 r).map fun n => -(n : Int)
      | '+' :: r => (Text.valueIn? 10 r).map Int.ofNat
      | r => (Text.valueIn? 10 r).map Int.ofNat
    else none

/-- Whether a text is a decimal number of finite value: digits around a point that may be missing,
at least one of them, and maybe an exponent. -/
def isDecimalNumber (t : Text) : Bool :=
  let whole := t.takeWhile Char.isDigit
  let rest := t.dropWhile Char.isDigit
  let (fraction, rest) :=
    match rest with
    | '.' :: r => (r.takeWhile Char.isDigit, r.dropWhile Char.isDigit)
    | r => ([], r)
  !(whole ++ fraction).isEmpty &&
    (exponent? rest).any fun e => isFiniteDecimal (whole ++ fraction) (e - fraction.length)

/-- The spellings of infinity. -/
def isInfinity (t : Text) : Bool :=
  t == ".inf".toList || t == ".Inf".toList || t == ".INF".toList

/-- Whether a scalar is a number with a point or an exponent, infinite, or not a number. -/
def isFloat (t : Text) : Bool :=
  match t with
  | '+' :: '+' :: _ => false
  | '+' :: '-' :: _ => false
  | '+' :: r => isInfinity r || isDecimalNumber r
  | '-' :: r => isInfinity r || isDecimalNumber r
  | t => isInfinity t || t == ".nan".toList || t == ".NaN".toList || t == ".NAN".toList ||
      isDecimalNumber t

/-- Whether a text means something else, or looks like a number, if it stands without quotes. -/
def needsQuotes (t : Text) : Bool :=
  t.isEmpty || isNull t || (bool? t).isSome || isPadded t || isInteger t || isFloat t

end Reskin.Yaml
