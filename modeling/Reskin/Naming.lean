import Reskin.Text.Blank
import Reskin.Text.Numeral

/-!
# Names of generated sections and buffer files

Every generated section and every generated buffer file is named after the one it stands in for
and the variant it is made for. There are three styles of section names, one for each kind of
section.

## Main definitions

* `NameStyle`, `NameStyle.rename`: the three styles
* `Naming.bufferFile`: the path of a generated buffer file
* `Naming.isGenerated`: whether a name carries one of the two marks of generated sections
* `Naming.mergeIndex?`, `Naming.compareResources`, `Naming.sortResources`: the order of resources
-/

namespace Reskin

namespace Naming

/-- The word that marks sections and files of blend weights. -/
def blendMark : Text := ['B', 'l', 'e', 'n', 'd']

/-- The mark of generated blend sections, resources and buffer files. -/
def remapBlendMark : Text := ['R', 'e', 'm', 'a', 'p'] ++ blendMark

/-- The mark of the other generated sections. -/
def remapFixMark : Text := ['R', 'e', 'm', 'a', 'p', 'F', 'i', 'x']

/-- The word that names of resources begin with. -/
def resourceMark : Text := ['R', 'e', 's', 'o', 'u', 'r', 'c', 'e']

/-- The extension of generated buffer files. -/
def bufferExtension : Text := ['.', 'b', 'u', 'f']

/-- The last `Blend` becomes the variant followed by `RemapBlend`; without one, that is appended. -/
def blendName (name variant : Text) : Text :=
  match Text.splitLast blendMark name with
  | some (left, right) => left ++ variant ++ remapBlendMark ++ right
  | none => name ++ variant ++ remapBlendMark

/-- The name ends in the variant followed by `RemapFix`, which takes the place of a `RemapFix` at
its end. -/
def fixName (name variant : Text) : Text :=
  let ending := variant ++ remapFixMark
  if Text.endsWith ending name then name
  else
    match Text.dropEnd? remapFixMark name with
    | some stem => stem ++ ending
    | none => name ++ ending

/-- The name with `Resource` in front, unless it begins so. -/
def resourceNamed (name : Text) : Text :=
  if Text.startsWith resourceMark name then name else resourceMark ++ name

/-- The blend name, led by `Resource`. -/
def resourceName (name variant : Text) : Text := resourceNamed (blendName name variant)

/-- Whether a name carries the mark of a generated section. -/
def isGenerated (name : Text) : Bool :=
  Text.holds remapBlendMark name || Text.holds remapFixMark name

/-- A slash of either kind. -/
def isSlash (c : Char) : Bool := c == '/' || c == '\\'

/-- The folder of a path with its last slash of either kind, and the name after it. -/
def splitFolder (path : Text) : Text × Text :=
  ((path.reverse.dropWhile (!isSlash ·)).reverse, (path.reverse.takeWhile (!isSlash ·)).reverse)

/-- A file name up to its last full stop. -/
def stem (file : Text) : Text :=
  match Text.splitLast ['.'] file with
  | some (left, _) => left
  | none => file

/-- The generated buffer file: same folder as written, the stem renamed in the blend style. -/
def bufferFile (path variant : Text) : Text :=
  let (folder, file) := splitFolder (Text.trim path)
  folder ++ blendName (stem file) variant ++ bufferExtension

/-- The number after the last full stop, which marks copies of one resource. -/
def mergeIndex? (name : Text) : Option Int :=
  (Text.splitLast ['.'] name).bind fun (_, copy) => Text.signed64? (Text.trim copy)

/-- Names without a merge index come first, by code points; the others follow by that index. -/
def compareResources (a b : Text) : Ordering :=
  match mergeIndex? a, mergeIndex? b with
  | none, none => compare a b
  | none, some _ => .lt
  | some _, none => .gt
  | some i, some j => compare i j

/-- The names in order; names that compare equal stay in the order given. -/
def sortResources (names : List Text) : List Text :=
  names.mergeSort fun a b => (compareResources a b).isLE

end Naming

/-- The three styles of generated names. -/
inductive NameStyle where
  | blend
  | fix
  | resource
  deriving DecidableEq, Repr

/-- The generated name of a section for a variant. -/
def NameStyle.rename : NameStyle → (name variant : Text) → Text
  | .blend => Naming.blendName
  | .fix => Naming.fixName
  | .resource => Naming.resourceName

end Reskin
