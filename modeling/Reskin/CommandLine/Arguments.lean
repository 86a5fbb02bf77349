import Reskin.Settings

/-!
# Arguments

## Main definitions

* `CommandLine.Arguments`: what a command line asks for
* `CommandLine.Request`: a run, or one of the texts the program tells about itself
* `CommandLine.Request.ofList?`: the request of a command line; `none` if it is misused
* `CommandLine.Arguments.options`: settings, and the arguments that take their place
-/

namespace Reskin.CommandLine

/-- What a command line asks for. -/
structure Arguments where
  files : List Text
  fixOnly : Bool
  undoOnly : Bool
  types : List Text
  defaultType : Option Text
  variants : List Text
  /-- The folder of configuration files. -/
  configFolder : Option Text
  logFolder : Option Text
  /-- Whether the journal is written as JSON lines. -/
  logJson : Bool
  debug : Bool
  deriving DecidableEq, Repr

/-- The folder of configuration files that is used unless another one is given. -/
def Arguments.folder (a : Arguments) : Text := a.configFolder.getD "Remap Data".toList

/-- The arguments of an empty command line. -/
def Arguments.blank : Arguments := ⟨[], false, false, [], none, [], none, none, false, false⟩

/-- What is to be done. -/
inductive Request where
  | run (a : Arguments)
  | version
  | help
  deriving DecidableEq, Repr

/-- The switches of the command line. -/
inductive Switch where
  | fixOnly
  | undoOnly
  | logJson
  | debug
  deriving DecidableEq, Repr

/-- The options of the command line that take a value. -/
inductive Valued where
  | types
  | defaultType
  | variants
  | configFolder
  | logFolder
  deriving DecidableEq, Repr

/-- What a name on the command line stands for. -/
inductive Flag where
  | switch (s : Switch)
  | valued (v : Valued)
  | version
  | help
  deriving DecidableEq, Repr

/-- The flags that have a long name. -/
def Flag.ofLong? (name : Text) : Option Flag :=
  match String.ofList name with
  | "fix-only" => some (.switch .fixOnly)
  | "undo-only" => some (.switch .undoOnly)
  | "log-json" => some (.switch .logJson)
  | "debug" => some (.switch .debug)
  | "types" => some (.valued .types)
  | "default-type" => some (.valued .defaultType)
  | "variants" => some (.valued .variants)
  | "config-dir" => some (.valued .configFolder)
  | "log-dir" => some (.valued .logFolder)
  | "version" => some .version
  | "help" => some .help
  | _ => none

/-- The flags that have a letter. -/
def Flag.ofShort? : Char → Option Flag
  | 't' => some (.valued .types)
  | 'v' => some (.valued .variants)
  | 'c' => some (.valued .configFolder)
  | 'd' => some (.switch .debug)
  | 'V' => some .version
  | 'h' => some .help
  | _ => none

namespace Arguments

/-- The arguments with a switch, which must not be there already. -/
def turn? (a : Arguments) : Switch → Option Arguments
  | .fixOnly => if a.fixOnly then none else some { a with fixOnly := true }
  | .undoOnly => if a.undoOnly then none else some { a with undoOnly := true }
  | .logJson => if a.logJson then none else some { a with logJson := true }
  | .debug => if a.debug then none else some { a with debug := true }

/-- The arguments with a value. Lists grow by the parts between commas; other values must not be
there already. -/
def give? (a : Arguments) (value : Text) : Valued → Option Arguments
  | .types => some { a with types := a.types ++ Text.split ',' value }
  | .variants => some { a with variants := a.variants ++ Text.split ',' value }
  | .defaultType =>
    if a.defaultType.isSome then none else some { a with defaultType := some value }
  | .configFolder =>
    if a.configFolder.isSome then none else some { a with configFolder := some value }
  | .logFolder => if a.logFolder.isSome then none else some { a with logFolder := some value }

end Arguments

/-- What a word of the command line leads to. -/
inductive Progress where
  /-- The word is understood. -/
  | done (a : Arguments)
  /-- The next word is a value. -/
  | awaits (a : Arguments) (v : Valued)
  /-- Nothing else matters any more. -/
  | answers (r : Request)

/-- The letters of a word after a dash. What follows the letter of an option is its value. -/
def letters? (a : Arguments) : Text → Option Progress
  | [] => some (.done a)
  | c :: t =>
    match Flag.ofShort? c with
    | none => none
    | some .version => some (.answers .version)
    | some .help => some (.answers .help)
    | some (.switch s) => (a.turn? s).bind (letters? · t)
    | some (.valued v) =>
      match t with
      | [] => some (.awaits a v)
      | '=' :: value => (a.give? value v).map .done
      | value => (a.give? value v).map .done

/-- A word after two dashes, maybe with an equals sign and a value. -/
def long? (a : Arguments) (word : Text) : Option Progress :=
  let (name, value) :=
    match Text.splitFirst '=' word with
    | some (name, value) => (name, some value)
    | none => (word, none)
  match Flag.ofLong? name, value with
  | some .version, none => some (.answers .version)
  | some .help, none => some (.answers .help)
  | some (.switch s), none => (a.turn? s).map .done
  | some (.valued v), some value => (a.give? value v).map .done
  | some (.valued v), none => some (.awaits a v)
  | _, _ => none

/-- Whether a word cannot be a value: it begins with a dash, and is more than one. -/
def isFlagWord : Text → Bool
  | '-' :: _ :: _ => true
  | _ => false

/-- A run, if there is a file to process. -/
def finish? (a : Arguments) : Option Request := if a.files = [] then none else some (.run a)

/-- The request of the words that follow; `pending` is an option that waits for its value. -/
def read? (a : Arguments) (pending : Option Valued) : List Text → Option Request
  | [] => if pending.isSome then none else finish? a
  | word :: words =>
    match pending with
    | some v => if isFlagWord word then none else (a.give? word v).bind (read? · none words)
    | none =>
      let next : Option Progress → Option Request
        | none => none
        | some (.done a) => read? a none words
        | some (.awaits a v) => read? a (some v) words
        | some (.answers r) => some r
      match word with
      | ['-', '-'] => finish? { a with files := a.files ++ words }
      | '-' :: '-' :: name => next (long? a name)
      | '-' :: c :: t => next (letters? a (c :: t))
      | file => read? { a with files := a.files ++ [file] } none words

/-- **The request of a command line**; `none` if a flag is not known or stands twice, a value is
missing or not wanted, or no file is given. -/
def Request.ofList? (words : List Text) : Option Request := read? .blank none words

/-- The options of a run: the settings, and what the command line puts in their place. -/
def Arguments.options (a : Arguments) (s : Settings) : Batch.Options :=
  let o := s.options
  { o with
    fixOnly := a.fixOnly
    undoOnly := a.undoOnly
    types := if a.types = [] then o.types else a.types
    defaultType := a.defaultType.or o.defaultType
    variants := if a.variants = [] then o.variants else a.variants }

end Reskin.CommandLine
