import Reskin.Text.Basic

/-!
# Blank characters

The characters with the Unicode property White_Space, and the text without its blank ends.

## Main definitions

* `isBlank`: the property
* `Text.trimStart`, `Text.trimEnd`, `Text.trim`: a text without blanks at an end
-/

namespace Reskin

/-- The Unicode property White_Space: twenty-five characters. -/
def isBlank (c : Char) : Bool :=
  let n := c.toNat
  (9 ≤ n && n ≤ 13) || n == 0x20 || n == 0x85 || n == 0xA0 || n == 0x1680 ||
    (0x2000 ≤ n && n ≤ 0x200A) || n == 0x2028 || n == 0x2029 || n == 0x202F || n == 0x205F ||
    n == 0x3000

namespace Text

/-- The text without the blanks it begins with. -/
def trimStart (t : Text) : Text := t.dropWhile isBlank

/-- The text without the blanks it ends with. -/
def trimEnd (t : Text) : Text := (t.reverse.dropWhile isBlank).reverse

/-- The text without blanks at either end. -/
def trim (t : Text) : Text := trimEnd (trimStart t)

@[simp] theorem trimStart_nil : trimStart [] = [] := rfl

@[simp] theorem trimEnd_nil : trimEnd [] = [] := rfl

/-- A text that ends in a character that is not blank keeps its end. -/
theorem trimEnd_append_singleton {t : Text} {c : Char} (h : isBlank c = false) :
    trimEnd (t ++ [c]) = t ++ [c] := by
  simp [trimEnd, h]

/-- Blanks at the end do not matter. -/
theorem trimEnd_append_blank {t : Text} {c : Char} (h : isBlank c = true) :
    trimEnd (t ++ [c]) = trimEnd t := by
  simp [trimEnd, h]

end Text

end Reskin
