import GraphqlStore.Document.Selection
import GraphqlStore.Text.Blank
import GraphqlStore.Text.Lines

/-!
Executable documents as they are written: two blanks of indent, one selection
a line, an empty line between definitions.
-/

set_option autoImplicit false

namespace GraphqlStore.Printer

def blanks (indent : Nat) : String := String.ofList (List.replicate indent ' ')

/-! ## Values -/

/-- Characters that a string over several lines can hold as they are. -/
def isPlain (c : Char) : Bool :=
  c = '\n' || c = '\r' || c = '\t' || (0x20 ≤ c.toNat && c.toNat ≤ 0xFFFF)

/-- The digits of a number, padded with zeros to four. -/
def fourDigits (number : Nat) : String :=
  let digits := Nat.toDigits 10 number
  String.ofList (List.replicate (4 - digits.length) '0' ++ digits)

/-- One character of a string in one line. A character that cannot stand raw is written by the
decimal digits of its code. -/
def stringChar (c : Char) : String :=
  if c = '\r' then "\\r"
  else if c = '\n' then "\\n"
  else if c = '\t' then "\\t"
  else if c = '"' then "\\\""
  else if c = '\\' then "\\\\"
  else if 0x20 ≤ c.toNat ∧ c.toNat ≤ 0xFFFF then c.toString
  else "\\u" ++ fourDigits c.toNat

/-- A line of a string over several lines. A line of white space is left empty. -/
def blockLine (indent : Nat) (line : List Char) : String :=
  if Text.isBlankLine line then "\n"
  else
    blanks indent ++
      String.ofList (Text.replaceAll ['"', '"', '"'] ['\\', '"', '"', '"'] line) ++ "\n"

/-- A string: over several lines if it has a line break and every character can stand there. -/
def stringText (indent : Nat) (text : String) : String :=
  let chars := text.toList
  if chars.contains '\n' && chars.all isPlain then
    "\"\"\"\n" ++ String.join ((Text.lines chars).map (blockLine (indent + 2))) ++
      blanks indent ++ "\"\"\""
  else "\"" ++ String.join (chars.map stringChar) ++ "\""

mutual
def valueText (indent : Nat) : Value → String
  | .variable name => "$" ++ name
  | .int value => toString value
  | .float value => NumberLayout.document.text value
  | .string value => stringText indent value
  | .boolean value => if value then "true" else "false"
  | .null => "null"
  | .enum name => name
  | .list items => "[" ++ ", ".intercalate (itemTexts indent items) ++ "]"
  | .object fields => "\x7b" ++ ", ".intercalate (fieldTexts indent fields) ++ "\x7d"

def itemTexts (indent : Nat) : List Value → List String
  | [] => []
  | item :: rest => valueText indent item :: itemTexts indent rest

def fieldTexts (indent : Nat) : List (String × Value) → List String
  | [] => []
  | (name, value) :: rest => (name ++ ": " ++ valueText indent value) :: fieldTexts indent rest
end

/-! ## Selections -/

/-- Arguments in parentheses, if there are any. -/
def argumentsText (indent : Nat) (arguments : List Argument) : String :=
  if arguments.isEmpty then ""
  else "(" ++ ", ".intercalate (fieldTexts indent arguments) ++ ")"

/-- Directives, each after a blank. -/
def directivesText (indent : Nat) (directives : List Directive) : String :=
  String.join (directives.map fun directive =>
    " @" ++ directive.name ++ argumentsText indent directive.arguments)

def fieldText (indent : Nat) (field : Field) : String :=
  let label := match field.aliasName with
    | some aliasName => aliasName ++ ": "
    | none => ""
  blanks indent ++ label ++ field.name ++ argumentsText indent field.arguments ++
    directivesText indent field.directives

def inlineText (indent : Nat) (fragment : InlineFragment) : String :=
  let condition := match fragment.condition with
    | some name => " on " ++ name
    | none => ""
  blanks indent ++ "..." ++ condition ++ directivesText indent fragment.directives

mutual
def selectionText (indent : Nat) : Selection → String
  | .field head [] => fieldText indent head ++ "\n"
  | .field head (item :: rest) =>
      fieldText indent head ++ " \x7b\n" ++ selectionsText (indent + 2) (item :: rest) ++
        blanks indent ++ "\x7d\n"
  | .spread head =>
      blanks indent ++ "..." ++ head.name ++ directivesText indent head.directives ++ "\n"
  | .inline head items =>
      inlineText indent head ++ " \x7b\n" ++ selectionsText (indent + 2) items ++
        blanks indent ++ "\x7d\n"

def selectionsText (indent : Nat) : List Selection → String
  | [] => ""
  | selection :: rest => selectionText indent selection ++ selectionsText indent rest
end

/-! ## Definitions -/

def variableText (declared : VariableDefinition) : String :=
  let default := match declared.default with
    | some value => " = " ++ valueText 0 value
    | none => ""
  "$" ++ declared.name ++ ": " ++ declared.type.text ++ default

/-- The variables of an operation. A subscription puts nothing between them, and leaves them out if
it has no name. -/
def variablesText (operation : Operation) : String :=
  let texts := operation.variableDefinitions.map variableText
  if texts.isEmpty then ""
  else match operation.kind with
    | .subscription => if operation.name.isSome then "(" ++ String.join texts ++ ")" else ""
    | _ => "(" ++ ", ".intercalate texts ++ ")"

/-- Selections at the end of the line that introduces them. -/
def blockText (selections : SelectionSet) : String :=
  "\x7b\n" ++ selectionsText 2 selections.items ++ "\x7d\n"

def definitionText : Definition → String
  | .shorthand selections => blockText selections
  | .operation operation =>
      let name := match operation.name with
        | some name => " " ++ name
        | none => ""
      operation.kind.keyword ++ name ++ variablesText operation ++
        directivesText 0 operation.directives ++ " " ++ blockText operation.selections
  | .fragment fragment =>
      "fragment " ++ fragment.name ++ " on " ++ fragment.condition ++
        directivesText 0 fragment.directives ++ " " ++ blockText fragment.selections

def documentText (document : ExecutableDocument) : String :=
  "\n".intercalate (document.map definitionText)

end GraphqlStore.Printer
