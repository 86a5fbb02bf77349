import Reskin.Path
import Reskin.Text.Utf8

/-!
# Disk

A disk is a finite map from locations to folders and files. A location lists the parts of a path as
seen from the working folder, which itself has the empty location.

## Main definitions

* `Disk`, `Disk.Node`, `Disk.Location`
* `Disk.locate`: the location a path leads to
* `Disk.read`, `Disk.readText`, `Disk.write`, `Disk.createFolders`: what programs do with a disk
* `Disk.waypoints`: the locations that a path leads through
* `Disk.changes`: what one disk has and another one has not
* `Disk.Fault`: why a path cannot be read or written
-/

namespace Reskin

namespace Disk

/-- The parts of a path, seen from the working folder. -/
abbrev Location := List Text

/-- What stands at a location. -/
inductive Node where
  | folder
  | file (bytes : ByteArray)

/-- Whether two nodes are the same. -/
def Node.same : Node → Node → Bool
  | .folder, .folder => true
  | .file bytes, .file bytes' => bytes.toList == bytes'.toList
  | _, _ => false

/-- Why a path cannot be read or written. -/
inductive Fault where
  | missing
  | isFolder
  | notFolder
  | notText
  deriving DecidableEq, Repr

/-- The message of a fault. -/
def Fault.message : Fault → Text
  | .missing => "No such file or directory (os error 2)".toList
  | .isFolder => "Is a directory (os error 21)".toList
  | .notFolder => "Not a directory (os error 20)".toList
  | .notText => "stream did not contain valid UTF-8".toList

end Disk

/-- Folders and files by location. The working folder is always there and is not listed. -/
structure Disk where
  nodes : List (Disk.Location × Disk.Node)

namespace Disk

/-- The disk without folders and files. -/
def empty : Disk := ⟨[]⟩

/-- What stands at a location. -/
def node? (d : Disk) : Location → Option Node
  | [] => some .folder
  | l => (d.nodes.find? (·.1 == l)).map (·.2)

/-- The list with the node at the location, in the place of the old one. -/
def putNode (l : Location) (n : Node) :
    List (Location × Node) → List (Location × Node)
  | [] => [(l, n)]
  | e :: es => if e.1 = l then (l, n) :: es else e :: putNode l n es

/-- The disk with a node at a location. -/
def put (d : Disk) (l : Location) (n : Node) : Disk := ⟨putNode l n d.nodes⟩

theorem node?_put_self (d : Disk) {l : Location} (n : Node) (h : l ≠ []) :
    (d.put l n).node? l = some n := by
  obtain ⟨es⟩ := d
  cases l with
  | nil => exact absurd rfl h
  | cons p l =>
    simp only [put, node?]
    induction es with
    | nil => simp [putNode]
    | cons e es ih =>
      by_cases he : e.1 = p :: l
      · simp [putNode, he]
      · simpa [putNode, he] using ih

theorem node?_put_of_ne (d : Disk) {l m : Location} (n : Node) (h : m ≠ l) :
    (d.put l n).node? m = d.node? m := by
  obtain ⟨es⟩ := d
  cases m with
  | nil => rfl
  | cons p m =>
    simp only [put, node?]
    induction es with
    | nil => simp [putNode, Ne.symm h]
    | cons e es ih =>
      by_cases he : e.1 = l
      · subst he
        simp [putNode, Ne.symm h]
      · by_cases hm : e.1 = p :: m
        · simp [putNode, hm, h]
        · simpa [putNode, he, hm] using ih

/-- One part further: up, down, or nowhere. -/
def step (l : Location) (part : Text) : Location :=
  if part = [] ∨ part = ['.'] then l
  else if part = ['.', '.'] ∧ l ≠ [] ∧ l.getLast? ≠ some ['.', '.'] then l.dropLast
  else l ++ [part]

/-- The location that the parts lead to from another one. All but the last of the locations on the
way have to be folders. -/
def follow (d : Disk) (l : Location) : List Text → Except Fault Location
  | [] => .ok l
  | part :: parts =>
    match d.node? l with
    | none => .error .missing
    | some (.file _) => .error .notFolder
    | some .folder => d.follow (step l part) parts

/-- The parts of a path. The root of an absolute path is a part of its own. -/
def partsOf (path : Text) : List Text :=
  match path with
  | '/' :: rest => ['/'] :: Text.split '/' rest
  | _ => Text.split '/' path

/-- The location that a path leads to. -/
def locate (d : Disk) (path : Text) : Except Fault Location :=
  if path = [] then .error .missing else d.follow [] (partsOf path)

/-- The locations on the way from another one. -/
def waypointsFrom (l : Location) : List Text → List Location
  | [] => [l]
  | part :: parts => l :: waypointsFrom (step l part) parts

/-- The locations that a path leads through, the last of them where it leads to. -/
def waypoints (path : Text) : List Location := waypointsFrom [] (partsOf path)

/-- Whether a path leads to a folder or a file. -/
def isThere (d : Disk) (path : Text) : Bool :=
  match d.locate path with
  | .ok l => (d.node? l).isSome
  | .error _ => false

/-- Whether a path leads to a folder. -/
def isFolder (d : Disk) (path : Text) : Bool :=
  match d.locate path with
  | .ok l => (d.node? l).any (Node.folder.same ·)
  | .error _ => false

/-- The bytes of a file. -/
def read (d : Disk) (path : Text) : Except Fault ByteArray :=
  match d.locate path with
  | .error fault => .error fault
  | .ok l =>
    match d.node? l with
    | none => .error .missing
    | some .folder => .error .isFolder
    | some (.file bytes) => .ok bytes

/-- The text of a file. -/
def readText (d : Disk) (path : Text) : Except Fault Text :=
  match d.read path with
  | .error fault => .error fault
  | .ok bytes =>
    match Text.ofUtf8? bytes with
    | none => .error .notText
    | some t => .ok t

/-- The disk with new bytes in a file, which is made if its folder is there. -/
def write (d : Disk) (path : Text) (bytes : ByteArray) : Except Fault Disk :=
  match d.locate path with
  | .error fault => .error fault
  | .ok l =>
    match d.node? l with
    | some .folder => .error .isFolder
    | _ => .ok (d.put l (.file bytes))

/-- The disk with a new text in a file. -/
def writeText (d : Disk) (path : Text) (t : Text) : Except Fault Disk := d.write path t.utf8

/-- The disk with every folder on the way made, where it is not there. -/
def makeFolders (d : Disk) (l : Location) : List Text → Except Fault Disk
  | [] =>
    match d.node? l with
    | none => .ok (d.put l .folder)
    | some (.file _) => .error .notFolder
    | some .folder => .ok d
  | part :: parts =>
    match d.node? l with
    | none => (d.put l .folder).makeFolders (step l part) parts
    | some (.file _) => .error .notFolder
    | some .folder => d.makeFolders (step l part) parts

/-- The disk with a folder, and the folders above it, made where they are not there. -/
def createFolders (d : Disk) (path : Text) : Except Fault Disk :=
  if path = [] then .ok d else d.makeFolders [] (partsOf path)

/-- The path of a location. -/
def pathOf (l : Location) : Text := Text.join ['/'] l

/-- What a disk has and an earlier one has not, in the order in which it came there. -/
def changes (before after : Disk) : List (Location × Node) :=
  after.nodes.filter fun (l, n) => !(before.node? l).any n.same

/-- The paths and bytes of the files, in the order of the paths. -/
def files (d : Disk) : List (Text × ByteArray) :=
  (d.nodes.filterMap fun (l, n) =>
    match n with
    | .folder => none
    | .file bytes => some (pathOf l, bytes)).mergeSort fun a b => !decide (b.1 < a.1)

/-- The paths of the folders, in order. -/
def folders (d : Disk) : List Text :=
  (d.nodes.filterMap fun (l, n) =>
    match n with
    | .folder => some (pathOf l)
    | .file _ => none).mergeSort fun a b => !decide (b < a)

end Disk

end Reskin
