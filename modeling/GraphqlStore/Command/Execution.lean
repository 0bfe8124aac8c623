import GraphqlStore.Command.Arguments
import GraphqlStore.Files.Publication
import GraphqlStore.Project

/-!
What a command does, and what it prints.
-/

set_option autoImplicit false

namespace GraphqlStore

/-- What a command leaves behind for its caller. -/
structure Outcome where
  exit : UInt8
  stdout : String
  stderr : String
deriving DecidableEq, Repr

/-- Why a command fails. -/
inductive CommandError where
  | load (reason : LoadError)
  | documents (root : Path) (reason : LoadError)
  | publish (root : Path) (reason : PublishError)
  | failedRun (count : Nat)
  | interrupted (cause : Interruption)

namespace CommandError

/-- What was attempted, and then what prevented it. -/
def chain : CommandError → List String
  | .load reason => reason.chain
  | .documents root reason => ("load documents from " ++ root.text) :: reason.chain
  | .publish root reason => ("write outputs to " ++ root.text) :: reason.chain
  | .failedRun count => ["compilation failed with " ++ toString count ++ " error(s)"]
  | .interrupted cause => ["interrupted at " ++ cause.position.text]

def exit : CommandError → UInt8
  | .interrupted _ => 101
  | .load (.schema (.interrupted _)) => 101
  | _ => 1

end CommandError

namespace Command

variable {m : Type → Type} [Monad m] [FileSystem m]

/-- A text behind a mark; its further lines are indented by the width of the mark. -/
def indented (mark text : String) : String :=
  let margin := String.ofList (List.replicate mark.length ' ')
  mark ++ ("\n" ++ margin).intercalate (text.splitOn "\n") ++ "\n"

/-- A number in five columns, and a colon. -/
def numberMark (number : Nat) : String :=
  let digits := toString number
  String.ofList (List.replicate (5 - digits.length) ' ') ++ digits ++ ": "

/-- The causes of a failure, numbered if there are several. -/
def causesText : List String → String
  | [] => ""
  | [cause] => "\nCaused by:\n" ++ indented "    " cause
  | causes =>
      "\nCaused by:\n" ++
        String.join (causes.zipIdx.map fun (cause, number) => indented (numberMark number) cause)

def failureText : List String → String
  | [] => ""
  | first :: causes => "Error: " ++ first ++ "\n" ++ causesText causes

def compileProject (inputs : Inputs) :
    ExceptT CommandError m (Except (List Diagnostic) CompileOutput) := do
  let config ← ExceptT.adapt CommandError.load (Project.loadConfig inputs.config)
  let batch ← ExceptT.adapt (CommandError.documents inputs.documents)
    (Project.loadDocuments inputs.documents)
  match Compilation.run config (Pass.standard []) false batch with
  | .ok result => return result
  | .error cause => throw (.interrupted cause)

/-- What a command does with compiled documents: a line for standard error. -/
def deliver : Command → CompileOutput → ExceptT CommandError m String
  | .check _, _ => return "ok\n"
  | .compile _ out, output => do
      let published ← ExceptT.adapt (CommandError.publish out) (Publication.writeAll out output.files)
      return "wrote " ++ toString published.length ++ " files to " ++ out.text ++ "\n"

def inputs : Command → Inputs
  | .compile inputs _ => inputs
  | .check inputs => inputs

def reportText (result : Except (List Diagnostic) CompileOutput) : String :=
  (RunReport.ofResult result).toJson.pretty ++ "\n"

/-- Runs a command up to the first thing that prevents it. -/
def attempt (command : Command) : ExceptT CommandError m Outcome := do
  let json := command.inputs.json
  let result ← compileProject command.inputs
  let report := if json then reportText result else ""
  match result with
  | .ok output =>
      let line ← deliver command output
      return ⟨0, report, if json then "" else line⟩
  | .error errors =>
      let summary := if json then "" else Diagnostic.summary errors ++ "\n"
      let failure := CommandError.failedRun errors.length
      return ⟨failure.exit, report, summary ++ failureText failure.chain⟩

def run (command : Command) : m Outcome := do
  match ← (attempt command).run with
  | .ok outcome => return outcome
  | .error reason => return ⟨reason.exit, "", failureText reason.chain⟩

/-- How the program is used. -/
def usage : String :=
  "Compile GraphQL documents into cache artifacts and store modules\n\n" ++
  "Usage:\n" ++
  "  storegen compile --config <file> --documents <dir> --out <dir> [--json] [--verbose]\n" ++
  "  storegen check --config <file> --documents <dir> [--json] [--verbose]\n"

/-- The name and version of the program. -/
def versionText : String := "storegen 0.1.0\n"

def usageOutcome : UsageError → Outcome
  | .help => ⟨0, usage, ""⟩
  | .version => ⟨0, versionText, ""⟩
  | reason => ⟨2, "", "error: " ++ reason.message ++ "\n\n" ++ usage⟩

def execute (arguments : List String) : m Outcome :=
  match parse arguments with
  | .ok command => run command
  | .error reason => return usageOutcome reason

end Command

end GraphqlStore
