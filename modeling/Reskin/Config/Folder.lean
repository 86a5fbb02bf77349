import Reskin.Config.Format
import Reskin.Yaml.Reader
import Reskin.Yaml.Writer

/-!
# The folder of configuration files

One file holds the catalogue of characters and another one the settings of the user. A file that is
not there stands for the built-in catalogue or the default settings.

## Main definitions

* `Config.Folder`, `Config.openFolder`: the folder, made if it is not there
* `Config.Folder.loadCatalogue`, `Config.Folder.loadSettings`: reading
* `Config.Folder.saveCatalogue`, `Config.Folder.saveSettings`: writing
* `Config.Fault`: why a file cannot be read or written
-/

namespace Reskin.Config

/-- The two files of the folder. -/
inductive File where
  | catalogue
  | settings
  deriving DecidableEq, Repr

/-- The name of a file. -/
def File.name : File → Text
  | .catalogue => "Remap Main.yaml".toList
  | .settings => "Remap Config.yaml".toList

/-- What a file is called in messages. -/
def File.title : File → Text
  | .catalogue => "main config".toList
  | .settings => "user config".toList

/-- Why the folder cannot be used, or a file in it. -/
inductive Fault where
  /-- The folder is not there and cannot be made. -/
  | notCreated (folder : Text) (cause : Disk.Fault)
  | notRead (file : File) (path : Text) (cause : Disk.Fault)
  /-- The file is no document, or one of another shape. -/
  | notParsed (file : File) (path : Text)
  | notWritten (file : File) (path : Text) (cause : Disk.Fault)
  deriving DecidableEq, Repr

/-- The message of a fault, without its cause. -/
def Fault.message : Fault → Text
  | .notCreated folder _ => "Failed to create config directory: ".toList ++ folder
  | .notRead file path _ => "Failed to read ".toList ++ file.title ++ ": ".toList ++ path
  | .notParsed file path => "Failed to parse ".toList ++ file.title ++ ": ".toList ++ path
  | .notWritten file path _ => "Failed to write ".toList ++ file.title ++ ": ".toList ++ path

/-- The cause of a fault, if the disk has one. -/
def Fault.cause? : Fault → Option Disk.Fault
  | .notCreated _ cause => some cause
  | .notRead _ _ cause => some cause
  | .notParsed _ _ => none
  | .notWritten _ _ cause => some cause

/-- The message of a fault, followed by that of its cause. -/
def Fault.fullMessage (f : Fault) : Text :=
  match f.cause? with
  | some cause => f.message ++ ": ".toList ++ cause.message
  | none => f.message

/-- A folder of configuration files. -/
structure Folder where
  path : Text
  deriving DecidableEq, Repr

/-- The folder at a path, which is made if it is not there. -/
def openFolder (d : Disk) (path : Text) : Except Fault (Folder × Disk) :=
  if d.isThere path then .ok (⟨path⟩, d)
  else
    match d.createFolders path with
    | .ok d => .ok (⟨path⟩, d)
    | .error cause => .error (.notCreated path cause)

namespace Folder

/-- The path of a file. -/
def pathOf (f : Folder) (file : File) : Text := Path.join f.path file.name

/-- What a file holds, or the default if it is not there. -/
def load {α : Type} (f : Folder) (d : Disk) (file : File) (read? : Yaml.Node → Option α)
    (default : α) : Except Fault α :=
  let path := f.pathOf file
  if d.isThere path then
    match d.readText path with
    | .error cause => .error (.notRead file path cause)
    | .ok text =>
      match (Yaml.read? text).bind read? with
      | some a => .ok a
      | none => .error (.notParsed file path)
  else .ok default

/-- The catalogue of the folder. -/
def loadCatalogue (f : Folder) (d : Disk) : Except Fault Catalogue :=
  f.load d .catalogue catalogue? .builtIn

/-- The settings of the folder. -/
def loadSettings (f : Folder) (d : Disk) : Except Fault Settings :=
  f.load d .settings settings? .default

/-- The disk with a document in a file. -/
def save (f : Folder) (d : Disk) (file : File) (node : Yaml.Node) : Except Fault Disk :=
  let path := f.pathOf file
  match d.writeText path (Yaml.write node) with
  | .ok d => .ok d
  | .error cause => .error (.notWritten file path cause)

/-- The disk with another catalogue in the folder. -/
def saveCatalogue (f : Folder) (d : Disk) (c : Catalogue) : Except Fault Disk :=
  f.save d .catalogue (catalogueNode c)

/-- The disk with other settings in the folder. -/
def saveSettings (f : Folder) (d : Disk) (s : Settings) : Except Fault Disk :=
  f.save d .settings (settingsNode s)

end Folder

end Reskin.Config
