import Reskin.Text.Basic

/-!
# Nodes

## Main definitions

* `Yaml.Node`: a scalar, a list or a map
-/

namespace Reskin.Yaml

/-- A value of a document. -/
inductive Node where
  /-- A text, and whether it stands without quotes. -/
  | scalar (plain : Bool) (text : Text)
  | list (items : List Node)
  | map (entries : List (Node × Node))
  deriving Repr

namespace Node

/-- The value of a key that nothing follows. -/
def nothing : Node := scalar true []

/-- Whether nothing is written for a value. -/
def isBlank : Node → Bool
  | scalar plain text => plain && text.isEmpty
  | _ => false

end Node

end Reskin.Yaml
