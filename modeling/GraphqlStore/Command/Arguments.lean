import GraphqlStore.Files.Path

/-!
The arguments of a command line. A command is followed by options in any
order, each at most once. An option that takes a value has it in the next
argument or after an equals sign.
-/

set_option autoImplicit false

namespace GraphqlStore

/-- What every command needs. -/
structure Inputs where
  config : Path
  documents : Path
  /-- Whether the report goes to standard output as data. -/
  json : Bool
  verbose : Bool
deriving DecidableEq, Repr

/-- What the program is asked to do. -/
inductive Command where
  /-- Compiles documents and writes the output files. -/
  | compile (inputs : Inputs) (out : Path)
  /-- Compiles documents without writing anything. -/
  | check (inputs : Inputs)
deriving DecidableEq, Repr

/-- Why arguments are no command. The first two ask for a text instead. -/
inductive UsageError where
  | help
  | version
  | missingCommand
  | unexpected (argument : String)
  | repeated (name : String)
  | missingValue (name : String)
  | missingOption (name : String)
deriving DecidableEq, Repr

def UsageError.message : UsageError → String
  | .help => "help requested"
  | .version => "version requested"
  | .missingCommand => "a command is required"
  | .unexpected argument => "unexpected argument '" ++ argument ++ "'"
  | .repeated name => "the option '--" ++ name ++ "' cannot be used multiple times"
  | .missingValue name => "a value is required for '--" ++ name ++ "'"
  | .missingOption name => "the option '--" ++ name ++ "' is required"

/-- The options that follow a command: those with values, and flags. -/
structure Options where
  values : List (String × String)
  flags : List String
deriving DecidableEq, Repr

namespace Options

def empty : Options := ⟨[], []⟩

def has (options : Options) (name : String) : Bool :=
  (options.values.map Prod.fst).contains name || options.flags.contains name

def addValue (options : Options) (name value : String) : Except UsageError Options :=
  if options.has name then .error (.repeated name)
  else if value = "" then .error (.missingValue name)
  else .ok { options with values := (name, value) :: options.values }

def addFlag (options : Options) (name : String) : Except UsageError Options :=
  if options.has name then .error (.repeated name)
  else .ok { options with flags := name :: options.flags }

def path (options : Options) (name : String) : Except UsageError Path :=
  match options.values.lookup name with
  | some value => .ok (.ofText value)
  | none => .error (.missingOption name)

def inputs (options : Options) : Except UsageError Inputs := do
  let config ← options.path "config"
  let documents ← options.path "documents"
  return ⟨config, documents, options.has "json", options.has "verbose"⟩

end Options

namespace Command

/-- A word of a command line. -/
inductive Word where
  /-- Two dashes: what follows is no option. -/
  | separator
  /-- The name of an option. -/
  | name (name : String)
  /-- The name of an option with its value. -/
  | assignment (name value : String)
  | dashes (text : String)
  | plain (text : String)
deriving DecidableEq, Repr

namespace Word

def ofNameText (text : List Char) : Word :=
  let name := String.ofList (text.takeWhile (· != '='))
  match text.dropWhile (· != '=') with
  | [] => .name name
  | _ :: value => .assignment name (String.ofList value)

/-- Reads a word. A single dash is a plain text. -/
def ofText (text : String) : Word :=
  match text.toList with
  | ['-', '-'] => .separator
  | '-' :: '-' :: rest => ofNameText rest
  | ['-'] => .plain text
  | '-' :: _ => .dashes text
  | _ => .plain text

end Word

/-- The flags of every command. -/
def flagNames : List String := ["json", "verbose"]

/-- Whether a word is a single dash and a letter. What follows the letter is not looked at. -/
def asks (letter : Char) (text : String) : Bool := ['-', letter].isPrefixOf text.toList

/-- Reads the arguments after a command that takes values under the given names. -/
def readOptions (valueNames : List String) (options : Options) :
    List String → Except UsageError Options
  | [] => .ok options
  | argument :: rest =>
      match Word.ofText argument with
      | .separator =>
          match rest with
          | [] => .ok options
          | next :: _ => .error (.unexpected next)
      | .assignment name value =>
          if valueNames.contains name then do
            readOptions valueNames (← options.addValue name value) rest
          else .error (.unexpected argument)
      | .name name =>
          if name = "help" then .error .help
          else if flagNames.contains name then do
            readOptions valueNames (← options.addFlag name) rest
          else if valueNames.contains name then
            match rest with
            | [] => .error (.missingValue name)
            | value :: later =>
                match Word.ofText value with
                | .plain _ => do readOptions valueNames (← options.addValue name value) later
                | _ => .error (.missingValue name)
          else .error (.unexpected argument)
      | .dashes text => .error (if asks 'h' text then .help else .unexpected argument)
      | .plain _ => .error (.unexpected argument)

/-- What a request for help is about: all commands, or one of them. -/
def readHelp : List String → UsageError
  | [] => .help
  | [topic] => if ["compile", "check", "help"].contains topic then .help else .unexpected topic
  | topic :: next :: _ =>
      .unexpected (if ["compile", "check", "help"].contains topic then next else topic)

def parse : List String → Except UsageError Command
  | [] => .error .missingCommand
  | "compile" :: rest => do
      let options ← readOptions ["config", "documents", "out"] .empty rest
      return .compile (← options.inputs) (← options.path "out")
  | "check" :: rest => do
      let options ← readOptions ["config", "documents"] .empty rest
      return .check (← options.inputs)
  | "help" :: topics => .error (readHelp topics)
  | first :: _ =>
      if first = "--help" || asks 'h' first then .error .help
      else if first = "--version" || asks 'V' first then .error .version
      else .error (.unexpected first)

end Command

end GraphqlStore
