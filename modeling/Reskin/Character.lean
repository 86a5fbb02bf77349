import Reskin.Asset.Table
import Reskin.Pattern.Reader
import Reskin.Text.Blank
import Reskin.Text.Caseless

/-!
# Characters

A mod is written for one character: for its skeleton, and for the ids of its assets. A character
is known by the section that mods of it begin with, and it says which variants a mod of it can be
remapped to and which ids assets have there.

## Main definitions

* `Character`: one character
* `Character.isRoot`: whether a header opens the root section of a mod of the character
* `Character.commonVariants?`: the variants that every known id of a section has a replacement for
* `Character.search?`: a character by name or alias
-/

namespace Reskin

/-- What is known about the mods of one character. -/
structure Character where
  name : Text
  aliases : List Text
  /-- Occurs in the header of the root section of a mod. -/
  root : Pattern
  /-- The variants to generate; if there are none, those of the tables. -/
  listed : List Text
  hashes : Asset.Replacements
  indices : Asset.Replacements
  deriving DecidableEq, Repr

namespace Character

/-- The name without line feeds and tabs, so that it fits into a comment line. -/
def title (c : Character) : Text := c.name.filter fun d => d != '\n' && d != '\t'

/-- Whether a header line opens the root section of a mod of the character. -/
def isRoot (c : Character) (header : Text) : Bool := c.root.occursIn header

/-- Whether the character is called so: by name or alias, without regard to case. -/
def isCalled (c : Character) (name : Text) : Bool :=
  (c.name :: c.aliases).any (Text.eqCaseless · (Text.trim name))

/-- The table of a kind of ids. -/
def table (c : Character) : Asset.Kind → Asset.Replacements
  | .hash => c.hashes
  | .index => c.indices

/-- The new id of an asset for a variant. -/
def replace (c : Character) (kind : Asset.Kind) (id variant : Text) : Except Asset.Fault Text :=
  (c.table kind).replace id variant

/-- Whether an id is in the table of its kind. -/
def knows (c : Character) (kind : Asset.Kind) (id : Text) : Bool := (c.table kind).has id

/-- The variants that every known id has a replacement for; `none` if no id is known. -/
def commonVariants? (c : Character) (hashes indices : List Text) : Option VariantSet :=
  VariantSet.interAll
    (hashes.filterMap c.hashes.variantsOf? ++ indices.filterMap c.indices.variantsOf?)

/-- Every variant that can be generated: those listed or, if none is, those of the tables. -/
def variants (c : Character) : VariantSet :=
  if c.listed = [] then .ofList (c.hashes.variants.toList ++ c.indices.variants.toList)
  else .ofList c.listed

/-- The first of the characters that is called so. -/
def search? (cs : List Character) (name : Text) : Option Character := cs.find? (·.isCalled name)

end Character

end Reskin
