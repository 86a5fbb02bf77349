import Reskin.Text.Basic

/-!
# Numerals

## Main definitions

* `Text.digitIn?`, `Text.valueIn?`: the values of digits in a base, and of a row of them
* `Text.charOf?`: the character of a code point
* `Text.natural?`: the value of a row of ASCII digits
* `Text.signed64?`: the value of a signed numeral, if it is in range
-/

namespace Reskin.Text

/-- The value of a digit in a base up to sixteen. -/
def digitIn? (base : Nat) (c : Char) : Option Nat :=
  let n :=
    if '0' ≤ c ∧ c ≤ '9' then c.toNat - 48
    else if 'a' ≤ c ∧ c ≤ 'f' then c.toNat - 87
    else if 'A' ≤ c ∧ c ≤ 'F' then c.toNat - 55
    else base
  if n < base then some n else none

/-- The value of a row of digits. -/
def valueIn? (base : Nat) (t : Text) : Option Nat :=
  if t = [] then none
  else (t.mapM (digitIn? base)).map fun ds => ds.foldl (fun n d => base * n + d) 0

/-- The character of a code point. -/
def charOf? (n : Nat) : Option Char :=
  if n < 0x110000 ∧ (n < 0xD800 ∨ 0xDFFF < n) then some (Char.ofNat n) else none

/-- The value of a row of at least one ASCII digit. -/
def natural? (t : Text) : Option Nat :=
  if t ≠ [] ∧ t.all Char.isDigit then
    some (t.foldl (fun n c => 10 * n + (c.toNat - 48)) 0)
  else none

/-- The value of a numeral with an optional sign, from -2^63 to 2^63 - 1. -/
def signed64? : Text → Option Int
  | '-' :: t => (natural? t).bind fun n => if n ≤ Nat.pow 2 63 then some (-n) else none
  | '+' :: t => (natural? t).bind fun n => if n < Nat.pow 2 63 then some n else none
  | t => (natural? t).bind fun n => if n < Nat.pow 2 63 then some n else none

end Reskin.Text
