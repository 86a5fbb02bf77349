import Reskin.Journal.Note

/-!
# The lines of a journal

A note is written as a line for people, or as a JSON object on a line of its own.

## Main definitions

* `Journal.Note.line`, `Journal.Note.jsonLine`: one note
* `Journal.written`: all notes of a journal
-/

namespace Reskin.Journal

/-- One character inside a JSON string. -/
def jsonChar (c : Char) : Text :=
  if c = '\x22' then ['\\', '\x22']
  else if c = '\\' then ['\\', '\\']
  else if c = '\x08' then ['\\', 'b']
  else if c = '\x0c' then ['\\', 'f']
  else if c = '\n' then ['\\', 'n']
  else if c = '\r' then ['\\', 'r']
  else if c = '\t' then ['\\', 't']
  else if c.toNat < 0x10 then ['\\', 'u', '0', '0', '0'] ++ Nat.toDigits 16 c.toNat
  else if c.toNat < 0x20 then ['\\', 'u', '0', '0'] ++ Nat.toDigits 16 c.toNat
  else [c]

/-- A text as a JSON string. -/
def jsonText (t : Text) : Text := '\x22' :: t.flatMap jsonChar ++ ['\x22']

/-- A JSON object whose members are written already. -/
def jsonObject (members : List (Text × Text)) : Text :=
  '\x7b' :: Text.join [','] (members.map fun (k, v) => jsonText k ++ ':' :: v) ++ ['\x7d']

/-- The line for people. -/
def Note.line (time : Text) (n : Note) : Text :=
  time ++ ' ' :: n.level.name ++ ' ' :: n.source.name ++ ':' :: ' ' :: n.message ++ ['\n']

/-- The line with a JSON object. -/
def Note.jsonLine (time : Text) (n : Note) : Text :=
  jsonObject [("timestamp".toList, jsonText time), ("level".toList, jsonText n.level.name),
    ("fields".toList, jsonObject [("message".toList, jsonText n.message)]),
    ("target".toList, jsonText n.source.name)] ++ ['\n']

/-- The text of a journal whose notes are all made at one time. -/
def written (json : Bool) (time : Text) (ns : List Note) : Text :=
  ns.flatMap fun n => if json then n.jsonLine time else n.line time

end Reskin.Journal
