import Reskin.Text.Basic

/-!
# Comparison without case

Texts that differ only in the case of ASCII letters. No other letter is folded.

## Main results

* `Text.eqCaseless_iff`: two texts agree when their folded forms are equal
-/

namespace Reskin.Text

/-- An ASCII capital as its small letter; every other character as it is. -/
def foldChar (c : Char) : Char :=
  if 'A' ≤ c ∧ c ≤ 'Z' then Char.ofNat (c.toNat + 32) else c

/-- The text with ASCII capitals as small letters. -/
def fold (t : Text) : Text := t.map foldChar

/-- Whether two texts differ at most in the case of ASCII letters. -/
def eqCaseless (a b : Text) : Bool := fold a == fold b

theorem eqCaseless_iff {a b : Text} : eqCaseless a b = true ↔ fold a = fold b := by
  simp [eqCaseless]

theorem eqCaseless_refl (a : Text) : eqCaseless a a = true := by simp [eqCaseless]

end Reskin.Text
