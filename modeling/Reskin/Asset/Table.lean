import Reskin.Table
import Reskin.VariantSet

/-!
# Replacement of asset ids

The loader finds an asset by a hash or by a first index. A table of replacements says which id an
asset has on the models of other variants.

## Main definitions

* `Asset.Kind`: hashes and first indices
* `Asset.Replacements`: old id, then variant, then new id
* `Asset.Replacements.replace`: the new id of an asset
* `Asset.Replacements.variantsOf?`, `Asset.Replacements.variants`: what a table can be asked for
-/

namespace Reskin.Asset

/-- What an id is found by. -/
inductive Kind where
  | hash
  | index
  deriving DecidableEq, Repr

/-- Why an id has no replacement. -/
inductive Fault where
  /-- No row of the table is about the id. -/
  | unknown (id : Text)
  /-- The row of the id has no entry for the variant. -/
  | unmapped (id variant : Text)
  deriving DecidableEq, Repr

/-- The message of a fault. -/
def Fault.message : Fault → Text
  | .unknown id => "Asset ".toList ++ id ++ " is not recognized".toList
  | .unmapped id variant =>
    "Asset ".toList ++ id ++ " has no replacement for ".toList ++ variant

/-- New ids by old id and variant. -/
abbrev Replacements := Table (Table Text)

namespace Replacements

/-- The new id of an asset for a variant. -/
def replace (t : Replacements) (id variant : Text) : Except Fault Text :=
  match t.get? id with
  | none => .error (.unknown id)
  | some row =>
    match row.get? variant with
    | none => .error (.unmapped id variant)
    | some new => .ok new

/-- The variants an id has a replacement for; `none` if no row is about it. -/
def variantsOf? (t : Replacements) (id : Text) : Option VariantSet :=
  (t.get? id).map fun row => .ofList row.names

/-- The variants of every row. -/
def variants (t : Replacements) : VariantSet := .ofList (t.flatMap (·.2.names))

end Replacements

end Reskin.Asset
