import Reskin.Character
import Reskin.Fault

/-!
# Catalogues

A catalogue lists the characters that are known, with their patterns as they are written. Patterns
are read when the characters are needed.

## Main definitions

* `Catalogue`, `Catalogue.Entry`
* `Catalogue.builtIn`: the catalogue that is used where there is no other
* `Catalogue.characters`: the characters of a catalogue
-/

namespace Reskin

/-- What a catalogue says about a character. -/
structure Catalogue.Entry where
  /-- The pattern of root headers, as it is written. -/
  root : Text
  aliases : List Text
  variants : List Text
  hashes : Asset.Replacements
  indices : Asset.Replacements
  deriving DecidableEq, Repr

/-- The characters that are known, by name. -/
structure Catalogue where
  version : Text
  entries : Table Catalogue.Entry
  deriving DecidableEq, Repr

namespace Catalogue

/-- The character of an entry. -/
def Entry.character (e : Entry) (name : Text) : Except Fault Character :=
  match Pattern.read? e.root with
  | none => .error (.badRootPattern name)
  | some root => .ok ⟨name, e.aliases, root, e.variants, e.hashes, e.indices⟩

/-- The characters of some entries, or the first fault. -/
def charactersOf : Table Entry → Except Fault (List Character)
  | [] => .ok []
  | (name, e) :: es => do
    let c ← e.character name
    let cs ← charactersOf es
    return c :: cs

/-- The characters of a catalogue, in order. -/
def characters (c : Catalogue) : Except Fault (List Character) := charactersOf c.entries

/-- The entry of a name. -/
def get? (c : Catalogue) (name : Text) : Option Entry := c.entries.get? name

/-- The pattern of root headers of the one character known without a catalogue. -/
def raidenRoot : Text := "^\\s*\\[\\s*TextureOverride.*(Raiden|Shogun).*Blend.*\\s*\\]".toList

/-- **The built-in catalogue**: one character with one variant, and no ids to replace. -/
def builtIn : Catalogue :=
  { version := "1.0".toList
    entries := [("Raiden".toList,
      { root := raidenRoot
        aliases := ["Ei", "RaidenEi", "RaidenShogun", "Shogun", "ShogunEi"].map String.toList
        variants := ["RaidenBoss".toList]
        hashes := []
        indices := [] })] }

end Catalogue

end Reskin
