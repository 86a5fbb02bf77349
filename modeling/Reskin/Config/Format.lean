import Reskin.Catalogue
import Reskin.Settings
import Reskin.Yaml.Node
import Reskin.Yaml.Scalar

/-!
# Catalogues and settings as documents

A catalogue or the settings of a user are a map with fixed keys. Other keys are passed over, and a
fixed key must not stand twice. Where a list or a map is expected, nothing at all counts as an empty
one, but a written null does not.

## Main definitions

* `Config.catalogue?`, `Config.settings?`: what a document says; `none` if it has another shape
* `Config.catalogueNode`, `Config.settingsNode`: the documents
-/

namespace Reskin.Config

open Yaml (Node)

/-- A scalar of any form, as a text. -/
def text? : Node → Option Text
  | .scalar _ t => some t
  | _ => none

/-- A list of texts. -/
def texts? : Node → Option (List Text)
  | .list items => items.mapM text?
  | n => if n.isBlank then some [] else none

/-- A text that may be null. -/
def optionalText? : Node → Option (Option Text)
  | .scalar plain t => some (if plain && (t.isEmpty || Yaml.isNull t) then none else some t)
  | _ => none

/-- A truth value, without quotes. -/
def bool? : Node → Option Bool
  | .scalar true t => Yaml.bool? t
  | _ => none

/-- The entries of a map by the text of their keys. -/
def entries? : Node → Option (List (Text × Node))
  | .map es => es.mapM fun (key, value) => (text? key).map (·, value)
  | n => if n.isBlank then some [] else none

/-- A map whose values are all of one shape; of equal keys the last one counts. -/
def table? {α : Type} (value? : Node → Option α) (n : Node) : Option (Table α) := do
  let es ← entries? n
  let es ← es.mapM fun (key, value) => (value? value).map (key, ·)
  return Table.ofList es

/-- The value of a fixed key: `some none` if it is missing, and `none` if it stands twice. -/
def field? (es : List (Text × Node)) (key : String) : Option (Option Node) :=
  match es.filter (·.1 == key.toList) with
  | [] => some none
  | [e] => some (some e.2)
  | _ => none

/-- The value of a fixed key that has to be there. -/
def required? {α : Type} (es : List (Text × Node)) (key : String) (value? : Node → Option α) :
    Option α := do
  let value ← field? es key
  value.bind value?

/-- The value of a fixed key, or a default. -/
def given? {α : Type} (es : List (Text × Node)) (key : String) (value? : Node → Option α)
    (default : α) : Option α := do
  match ← field? es key with
  | none => some default
  | some n => value? n

/-- A table of replacements. -/
def replacements? : Node → Option Asset.Replacements := table? (table? text?)

/-- An entry of a catalogue. -/
def entry? (n : Node) : Option Catalogue.Entry := do
  let es ← entries? n
  let root ← required? es "root_pattern" text?
  let aliases ← given? es "aliases" texts? []
  let variants ← given? es "variants" texts? []
  let hashes ← given? es "hashes" replacements? []
  let indices ← given? es "indices" replacements? []
  return ⟨root, aliases, variants, hashes, indices⟩

/-- The catalogue under the key of a document. -/
def catalogueData? (n : Node) : Option Catalogue := do
  let es ← entries? n
  let version ← required? es "version" text?
  let entries ← required? es "Mod_Types" (table? entry?)
  return ⟨version, entries⟩

/-- The catalogue that a document holds. -/
def catalogue? (n : Node) : Option Catalogue := do
  let es ← entries? n
  required? es "Remap_Data" catalogueData?

/-- The settings under the key of a document. -/
def settingsData? (n : Node) : Option Settings := do
  let es ← entries? n
  let d := Settings.default
  let types ← given? es "Types" texts? d.types
  let defaultType ← given? es "Default Type" optionalText? d.defaultType
  let variants ← given? es "Variants" texts? d.variants
  let managed ← given? es "Managed Resource Pattern" text? d.managed
  let logFolder ← given? es "Log Dir" text? d.logFolder
  let debug ← given? es "Debug Mode" bool? d.debug
  return ⟨types, defaultType, variants, managed, logFolder, debug⟩

/-- The settings that a document holds. -/
def settings? (n : Node) : Option Settings := do
  let es ← entries? n
  required? es "Remap_Settings" settingsData?

/-- A text that is written with or without quotes, as it needs. -/
def textNode (t : Text) : Node := .scalar false t

/-- A key. -/
def keyNode (key : String) : Node := textNode key.toList

/-- A list of texts. -/
def textsNode (ts : List Text) : Node := .list (ts.map textNode)

/-- A table of replacements. -/
def replacementsNode (t : Asset.Replacements) : Node :=
  .map (t.map fun (id, row) =>
    (textNode id, .map (row.map fun (variant, new) => (textNode variant, textNode new))))

/-- An entry of a catalogue. -/
def entryNode (e : Catalogue.Entry) : Node :=
  .map [(keyNode "root_pattern", textNode e.root), (keyNode "aliases", textsNode e.aliases),
    (keyNode "variants", textsNode e.variants), (keyNode "hashes", replacementsNode e.hashes),
    (keyNode "indices", replacementsNode e.indices)]

/-- The document of a catalogue. -/
def catalogueNode (c : Catalogue) : Node :=
  .map [(keyNode "Remap_Data", .map [(keyNode "version", textNode c.version),
    (keyNode "Mod_Types", .map (c.entries.map fun (name, e) => (textNode name, entryNode e)))])]

/-- A word that is written without quotes. -/
def wordNode (word : String) : Node := .scalar true word.toList

/-- The document of settings. -/
def settingsNode (s : Settings) : Node :=
  .map [(keyNode "Remap_Settings", .map [(keyNode "Types", textsNode s.types),
    (keyNode "Default Type", (s.defaultType.map textNode).getD (wordNode "null")),
    (keyNode "Variants", textsNode s.variants),
    (keyNode "Managed Resource Pattern", textNode s.managed),
    (keyNode "Log Dir", textNode s.logFolder),
    (keyNode "Debug Mode", wordNode (if s.debug then "true" else "false"))])]

end Reskin.Config
