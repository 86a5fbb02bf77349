import Reskin.Banner
import Reskin.Remap.Policy

/-!
# Generated blocks

A generated block holds, for every variant, the sections of the three graphs. A banner opens it, a
line of credit follows, and the rule of the banner closes it.

## Main definitions

* `Remap.Sources.sections`: the generated sections of one graph
* `Remap.Sources.variantText`: the generated sections for one variant
* `Remap.blockBanner`, `Remap.creditLine`: what stands around them
* `Remap.Sources.block`: the whole block
-/

namespace Reskin.Remap

/-- The results of a fallible function on a list, or the first fault. -/
def collect {α β ε : Type} (f : α → Except ε β) : List α → Except ε (List β)
  | [] => .ok []
  | a :: as => do
    let b ← f a
    let bs ← collect f as
    return b :: bs

namespace Sources

/-- The generated section for one that a graph has reached. -/
def sectionText (s : Sources) (part : Part) (variant : Text) (e : Text × Ini.Body) :
    Except Fault Text :=
  fill (s.write part) variant ((s.graph part).nameFor e.1 variant) e.1 e.2

/-- The generated sections of a graph, in the order of its walk. -/
def sections (s : Sources) (part : Part) (variant : Text) : Except Fault (List Text) :=
  collect (s.sectionText part variant) (s.graph part).reached

/-- The generated sections of a graph, each with an empty line after it. -/
def sectionsText (s : Sources) (part : Part) (variant : Text) : Except Fault Text := do
  let ts ← s.sections part variant
  return ts.flatMap fun t => t ++ ['\n']

/-- **The generated sections for a variant.** Nothing at all if the graphs are empty; no empty line
after the last resource. -/
def variantText (s : Sources) (variant : Text) : Except Fault Text := do
  let gap (shown : Bool) : Text := if shown then ['\n'] else []
  let hasOthers := !s.others.isEmpty
  let hasResources := !s.resources.isEmpty
  let blend ← s.sectionsText .blend variant
  let others ← if hasOthers then s.sectionsText .others variant else .ok []
  let resources ← if hasResources then s.sections .resources variant else .ok []
  return gap (!s.blend.isEmpty || hasOthers || hasResources) ++ blend ++
    gap hasOthers ++ others ++ gap hasResources ++ Text.join ['\n'] resources

end Sources

/-- The title of blocks that no character is known for. -/
def unknownTitle : Text := "GI".toList

/-- The banner around a block. -/
def blockBanner (title : Option Text) : Banner :=
  ⟨title.getD unknownTitle ++ " Remap".toList, 15, '-'⟩

/-- The banner above the sections of a variant. -/
def variantBanner (variant : Text) : Banner := ⟨variant, 5, '*'⟩

/-- The credit under the opening banner, with the line feed before it. -/
def creditLine (title : Option Text) : Text :=
  let named (t : Text) : Text := if t = [] then [] else t ++ [' ']
  let (first, second) :=
    match title with
    | some t => (named t, named t)
    | none => ("Mod ".toList, [])
  "\n; ".toList ++ first ++ "remapped by iniremap. When sharing remapped ".toList ++ second ++
    "mods, credit the original mod author".toList

/-- A comment with a banner or a rule. -/
def commentLine (t : Text) : Text := ';' :: ' ' :: t

/-- The part of a block for one variant; nothing if nothing is generated for it. -/
def variantPart (variant text : Text) : Text :=
  if text = [] then []
  else ['\n', '\n'] ++ commentLine (variantBanner variant).opening ++ text

namespace Sources

/-- The parts of a block for some variants. -/
def variantParts (s : Sources) (variants : List Text) : Except Fault (List Text) :=
  collect (fun v => (s.variantText v).map (variantPart v)) variants

/-- **The whole block** for some variants, in the order given. -/
def block (s : Sources) (variants : List Text) (title : Option Text) : Except Fault Text := do
  let banner := blockBanner title
  let parts ← s.variantParts variants
  return commentLine banner.opening ++ creditLine title ++ parts.flatten ++ ['\n', '\n'] ++
    commentLine banner.closing

end Sources

end Reskin.Remap
