import Reskin.Ini.Body
import Reskin.Path
import Reskin.Table

/-!
# Buffer files of a section

A resource section names the buffer files it loads, one for each part at most. Paths stay as they
are written; seen from the folder of the mod file they are whole paths.

## Main definitions

* `Buffers`: the files of one section, and those that variants load in their place
* `Buffers.ofBody`: the files that a body names
* `Buffers.whole`: a written path as seen from the folder
-/

namespace Reskin

/-- A file that one part of a section names. -/
structure BufferRow where
  /-- The place of the part among the entries of the section. -/
  place : Nat
  /-- The path as it is written. -/
  path : Text
  /-- The path that each variant has in its place. -/
  fixed : Table Text
  deriving DecidableEq, Repr

/-- The files of one section. -/
structure Buffers where
  /-- The folder of the mod file. -/
  folder : Text
  rows : List BufferRow
  deriving DecidableEq, Repr

namespace Buffers

/-- The files that a body names, and for every variant those that the rule gives. -/
def ofBody (folder : Text) (b : Ini.Body) (variants : List Text)
    (rule : (path variant : Text) → Text) : Buffers :=
  ⟨folder, (b.placed .filename).map fun (place, path) =>
    ⟨place, path, Table.ofList (variants.map fun v => (v, rule path v))⟩⟩

/-- The path that a variant has for the file of a part. -/
def fixedPath? (b : Buffers) (place : Nat) (variant : Text) : Option Text :=
  (b.rows.find? (·.place == place)).bind (·.fixed.get? variant)

/-- A written path as seen from the folder: without blanks around it, with slashes for
backslashes, and without one leading `./`. -/
def whole (b : Buffers) (path : Text) : Text :=
  let path := Text.replace '\\' ['/'] (Text.trim path)
  Path.join b.folder ((Text.dropStart? ['.', '/'] path).getD path)

/-- The whole paths of the files as the section names them. -/
def namedFiles (b : Buffers) : List Text := b.rows.map fun r => b.whole r.path

/-- The whole paths of the files that variants load, file by file. -/
def fixedFiles (b : Buffers) : List Text :=
  b.rows.flatMap fun r => r.fixed.map fun (_, path) => b.whole path

end Buffers

end Reskin
