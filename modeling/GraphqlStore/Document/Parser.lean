import GraphqlStore.Document.Selection
import GraphqlStore.Names.NameMap
import GraphqlStore.Source.Parse

/-!
Reading executable documents. Each step looks one token ahead; a text is
refused at the first token that cannot go on with it.
-/

set_option autoImplicit false

namespace GraphqlStore.Parse

/-! ## Values and types -/

def wordValue (text : String) : Value :=
  if text = "true" then .boolean true
  else if text = "false" then .boolean false
  else if text = "null" then .null
  else .enum text

mutual
/-- A value. A constant one holds no variable. -/
def value (constant : Bool) (tokens : List Token) : Step Value tokens :=
  match tokens with
  | [] => .error (.unexpected [])
  | ⟨.name text, _⟩ :: rest => .ok (wordValue text, ⟨rest, by simp⟩)
  | ⟨.int number, _⟩ :: rest => .ok (.int number, ⟨rest, by simp⟩)
  | ⟨.float number, _⟩ :: rest => .ok (.float number, ⟨rest, by simp⟩)
  | ⟨.string text, _⟩ :: rest => .ok (.string text, ⟨rest, by simp⟩)
  | ⟨.unevenString, place⟩ :: _ => .error (.interrupted ⟨place⟩)
  | ⟨.mark c, place⟩ :: rest =>
      if c = '$' ∧ !constant then
        match name rest with
        | .ok (text, ⟨left, fewer⟩) => .ok (.variable text, ⟨left, Nat.lt_succ_of_lt fewer⟩)
        | .error stuck => .error stuck
      else if c = '[' then
        match valueItems constant rest with
        | .ok (items, ⟨left, fewer⟩) => .ok (.list items, ⟨left, Nat.lt_succ_of_lt fewer⟩)
        | .error stuck => .error stuck
      else if c = '\x7b' then
        match valueFields constant rest with
        | .ok (fields, ⟨left, fewer⟩) =>
            .ok (.object (NameMap.ofList fields).entries, ⟨left, Nat.lt_succ_of_lt fewer⟩)
        | .error stuck => .error stuck
      else .error (.unexpected (⟨.mark c, place⟩ :: rest))
  | tokens => .error (.unexpected tokens)
termination_by 2 * tokens.length
decreasing_by all_goals (simp only [List.length_cons] at *; omega)

def valueItems (constant : Bool) (tokens : List Token) : Step (List Value) tokens :=
  match tokens with
  | [] => .error (.unexpected [])
  | token :: rest =>
      if token.kind = .mark ']' then .ok ([], ⟨rest, by simp⟩)
      else
        match value constant (token :: rest) with
        | .error stuck => .error stuck
        | .ok (item, ⟨left, fewer⟩) =>
            match valueItems constant left with
            | .error stuck => .error stuck
            | .ok (items, ⟨last, fewest⟩) => .ok (item :: items, ⟨last, Nat.lt_trans fewest fewer⟩)
termination_by 2 * tokens.length + 1
decreasing_by all_goals (simp only [List.length_cons] at *; omega)

def valueFields (constant : Bool) (tokens : List Token) : Step (List (String × Value)) tokens :=
  match tokens with
  | [] => .error (.unexpected [])
  | token :: rest =>
      if token.kind = .mark '\x7d' then .ok ([], ⟨rest, by simp⟩)
      else
        match name (token :: rest) with
        | .error stuck => .error stuck
        | .ok (key, ⟨afterName, fewerName⟩) =>
            match mark ':' afterName with
            | .error stuck => .error stuck
            | .ok (_, ⟨afterColon, fewerColon⟩) =>
                match value constant afterColon with
                | .error stuck => .error stuck
                | .ok (item, ⟨left, fewer⟩) =>
                    match valueFields constant left with
                    | .error stuck => .error stuck
                    | .ok (items, ⟨last, fewest⟩) =>
                        .ok ((key, item) :: items,
                          ⟨last, by omega⟩)
termination_by 2 * tokens.length + 1
decreasing_by all_goals (simp only [List.length_cons] at *; omega)
end

def typeRef (tokens : List Token) : Step TypeRef tokens :=
  match tokens with
  | ⟨.name text, _⟩ :: rest =>
      match optionalMark '!' rest with
      | (true, left) => .ok (.nonNull (.named text), afterFirst left)
      | (false, left) => .ok (.named text, afterFirst left)
  | ⟨.mark '[', _⟩ :: rest =>
      match typeRef rest with
      | .error stuck => .error stuck
      | .ok (item, afterItem) =>
          match mark ']' afterItem.val with
          | .error stuck => .error stuck
          | .ok (_, afterClose) =>
              match optionalMark '!' afterClose.val with
              | (true, left) =>
                  .ok (.nonNull (.list item), afterFirst (atMost (within (restWithin left))))
              | (false, left) => .ok (.list item, afterFirst (atMost (within (restWithin left))))
  | tokens => .error (.unexpected tokens)
termination_by tokens.length

/-! ## Arguments, directives, variables -/

def argument (constant : Bool) (tokens : List Token) : Step Argument tokens := do
  let (key, rest) ← name tokens
  let (_, rest') ← mark ':' rest.val
  let (passed, left) ← value constant rest'.val
  return ((key, passed), within (within left))

/-- Arguments in parentheses, if there are any. -/
def arguments (tokens : List Token) : MaybeStep (List Argument) tokens :=
  optionalBetween '(' ')' (argument false) tokens

/-- Directives, as many as there are. -/
def directives (tokens : List Token) : MaybeStep (List Directive) tokens :=
  match tokens with
  | ⟨.mark '@', place⟩ :: rest =>
      match name rest with
      | .error stuck => .error stuck
      | .ok (text, ⟨afterName, fewerName⟩) =>
          match arguments afterName with
          | .error stuck => .error stuck
          | .ok (passed, ⟨afterArguments, fewerArguments⟩) =>
              match directives afterArguments with
              | .error stuck => .error stuck
              | .ok (more, ⟨left, fewer⟩) =>
                  .ok (⟨place, text, passed⟩ :: more,
                    ⟨left, by simp only [List.length_cons]; omega⟩)
  | tokens => .ok ([], stay tokens)
termination_by tokens.length
decreasing_by simp only [List.length_cons]; omega

/-- The default after an equals sign, if there is one. -/
def defaultValue (tokens : List Token) : MaybeStep (Option Value) tokens :=
  match optionalMark '=' tokens with
  | (false, left) => .ok (none, left)
  | (true, ⟨afterSign, fewerSign⟩) =>
      match value true afterSign with
      | .error stuck => .error stuck
      | .ok (default, ⟨left, fewer⟩) => .ok (some default, ⟨left, by omega⟩)

def variableDefinition (tokens : List Token) : Step VariableDefinition tokens :=
  match tokens with
  | ⟨.mark '$', place⟩ :: rest =>
      match name rest with
      | .error stuck => .error stuck
      | .ok (text, ⟨afterName, fewerName⟩) =>
          match mark ':' afterName with
          | .error stuck => .error stuck
          | .ok (_, ⟨afterColon, fewerColon⟩) =>
              match typeRef afterColon with
              | .error stuck => .error stuck
              | .ok (type, ⟨afterType, fewerType⟩) =>
                  match defaultValue afterType with
                  | .error stuck => .error stuck
                  | .ok (default, ⟨left, fewer⟩) =>
                      .ok (⟨place, text, type, default⟩,
                        ⟨left, by simp only [List.length_cons]; omega⟩)
  | tokens => .error (.unexpected tokens)

/-! ## Selections -/

/-- The alias and name of a field, after its first name. -/
def fieldName (first : String) (tokens : List Token) :
    MaybeStep (Option String × String) tokens :=
  match optionalMark ':' tokens with
  | (false, left) => .ok ((none, first), left)
  | (true, ⟨afterColon, fewerColon⟩) =>
      match name afterColon with
      | .error stuck => .error stuck
      | .ok (text, ⟨left, fewer⟩) => .ok ((some first, text), ⟨left, by omega⟩)

mutual
def selection (tokens : List Token) : Step Selection tokens :=
  match tokens with
  | ⟨.name first, place⟩ :: rest =>
      match fieldName first rest with
      | .error stuck => .error stuck
      | .ok ((aliasName, text), ⟨afterName, fewerName⟩) =>
          match arguments afterName with
          | .error stuck => .error stuck
          | .ok (passed, ⟨afterArguments, fewerArguments⟩) =>
              match directives afterArguments with
              | .error stuck => .error stuck
              | .ok (marks, ⟨afterDirectives, fewerDirectives⟩) =>
                  match optionalSelections place afterDirectives with
                  | .error stuck => .error stuck
                  | .ok (below, ⟨left, fewer⟩) =>
                      .ok (.field ⟨place, aliasName, text, passed, marks, below.opening⟩ below.items,
                        ⟨left, by simp only [List.length_cons]; omega⟩)
  | ⟨.spread, _⟩ :: ⟨.name "on", place⟩ :: rest =>
      match name rest with
      | .error stuck => .error stuck
      | .ok (condition, ⟨afterName, fewerName⟩) =>
          match inlineBody place (some condition) afterName with
          | .error stuck => .error stuck
          | .ok (found, ⟨left, fewer⟩) =>
              .ok (found, ⟨left, by simp only [List.length_cons]; omega⟩)
  | ⟨.spread, _⟩ :: ⟨.name text, place⟩ :: rest =>
      match directives rest with
      | .error stuck => .error stuck
      | .ok (marks, ⟨left, fewer⟩) =>
          .ok (.spread ⟨place, text, marks⟩, ⟨left, by simp only [List.length_cons]; omega⟩)
  | ⟨.spread, _⟩ :: next :: rest =>
      match inlineBody next.position none (next :: rest) with
      | .error stuck => .error stuck
      | .ok (found, ⟨left, fewer⟩) =>
          .ok (found, ⟨left, by simp only [List.length_cons] at *; omega⟩)
  | ⟨.spread, _⟩ :: [] => .error (.unexpected [])
  | tokens => .error (.unexpected tokens)
termination_by 4 * tokens.length

def inlineBody (place : Position) (condition : Option String) (tokens : List Token) :
    Step Selection tokens :=
  match directives tokens with
  | .error stuck => .error stuck
  | .ok (marks, ⟨afterDirectives, fewerDirectives⟩) =>
      match selectionSet afterDirectives with
      | .error stuck => .error stuck
      | .ok (below, ⟨left, fewer⟩) =>
          .ok (.inline ⟨place, condition, marks, below.opening⟩ below.items, ⟨left, by omega⟩)
termination_by 4 * tokens.length + 2

/-- Selections between brackets, if there are any; else none, at the given place. -/
def optionalSelections (place : Position) (tokens : List Token) :
    MaybeStep SelectionSet tokens :=
  if nextIs '\x7b' tokens then
    match selectionSet tokens with
    | .error stuck => .error stuck
    | .ok (below, ⟨left, fewer⟩) => .ok (below, ⟨left, Nat.le_of_lt fewer⟩)
  else .ok (⟨place, []⟩, stay tokens)
termination_by 4 * tokens.length + 2

/-- Selections between brackets, at least one. -/
def selectionSet (tokens : List Token) : Step SelectionSet tokens :=
  match tokens with
  | ⟨.mark '\x7b', place⟩ :: rest =>
      match selection rest with
      | .error stuck => .error stuck
      | .ok (first, ⟨afterFirst, fewerFirst⟩) =>
          match selectionItems afterFirst with
          | .error stuck => .error stuck
          | .ok (more, ⟨left, fewer⟩) =>
              .ok (⟨place, first :: more⟩, ⟨left, by simp only [List.length_cons]; omega⟩)
  | tokens => .error (.unexpected tokens)
termination_by 4 * tokens.length + 1

def selectionItems (tokens : List Token) : Step (List Selection) tokens :=
  match tokens with
  | [] => .error (.unexpected [])
  | token :: rest =>
      if token.kind = .mark '\x7d' then .ok ([], ⟨rest, by simp⟩)
      else
        match selection (token :: rest) with
        | .error stuck => .error stuck
        | .ok (first, ⟨afterFirst, fewerFirst⟩) =>
            match selectionItems afterFirst with
            | .error stuck => .error stuck
            | .ok (more, ⟨left, fewer⟩) => .ok (first :: more, ⟨left, Nat.lt_trans fewer fewerFirst⟩)
termination_by 4 * tokens.length + 1
decreasing_by all_goals (simp_wf; try simp only [List.length_cons] at *; omega)
end

/-! ## Definitions -/

def operation (kind : OperationKind) (place : Position) (tokens : List Token) :
    Step Definition tokens := do
  let (label, ⟨afterName, fewerName⟩) : Option String × AtMost tokens := match name tokens with
    | .ok (text, ⟨left, fewer⟩) => (some text, ⟨left, Nat.le_of_lt fewer⟩)
    | .error _ => (none, stay tokens)
  let (declared, ⟨afterVariables, fewerVariables⟩) ←
    optionalBetween '(' ')' variableDefinition afterName
  let (marks, ⟨afterDirectives, fewerDirectives⟩) ← directives afterVariables
  let (below, ⟨left, fewer⟩) ← selectionSet afterDirectives
  return (.operation ⟨kind, place, label, declared, marks, below⟩, ⟨left, by omega⟩)

def fragment (place : Position) (tokens : List Token) : Step Definition tokens := do
  let (text, ⟨afterName, fewerName⟩) ← name tokens
  let (_, ⟨afterOn, fewerOn⟩) ← keyword "on" afterName
  let (condition, ⟨afterCondition, fewerCondition⟩) ← name afterOn
  let (marks, ⟨afterDirectives, fewerDirectives⟩) ← directives afterCondition
  let (below, ⟨left, fewer⟩) ← selectionSet afterDirectives
  return (.fragment ⟨place, text, condition, marks, below⟩, ⟨left, by omega⟩)

def afterKeyword {token : Token} {rest : List Token} (step : Step Definition rest) :
    Step Definition (token :: rest) :=
  match step with
  | .ok (found, ⟨left, fewer⟩) => .ok (found, ⟨left, Nat.lt_succ_of_lt fewer⟩)
  | .error stuck => .error stuck

def definition (tokens : List Token) : Step Definition tokens :=
  match tokens with
  | ⟨.name "query", place⟩ :: rest => afterKeyword (operation .query place rest)
  | ⟨.name "mutation", place⟩ :: rest => afterKeyword (operation .mutation place rest)
  | ⟨.name "subscription", place⟩ :: rest => afterKeyword (operation .subscription place rest)
  | ⟨.name "fragment", place⟩ :: rest => afterKeyword (fragment place rest)
  | tokens =>
      match selectionSet tokens with
      | .ok (below, left) => .ok (.shorthand below, left)
      | .error stuck => .error stuck

end GraphqlStore.Parse

namespace GraphqlStore

/-- Why a text is not read. -/
inductive ParseFailure where
  /-- The text is refused at a place. -/
  | unexpected (position : Position)
  | interrupted (cause : Interruption)
deriving DecidableEq, Repr

def Position.refusal (position : Position) : String := "Parse error at " ++ position.text

/-- Reads the tokens of a text as items, at least one. -/
def TokenStream.parse {α : Type} (item : (tokens : List Token) → Step α tokens)
    (stream : TokenStream) : Except ParseFailure (List α) :=
  match Parse.itemsToEnd item stream.tokens with
  | .ok items => .ok items
  | .error (.unexpected stuck) => .error (.unexpected (Parse.position stream.finish stuck))
  | .error (.interrupted cause) => .error (.interrupted cause)

def ExecutableDocument.parse (text : String) : Except ParseFailure ExecutableDocument :=
  (TokenStream.ofText text).parse Parse.definition

end GraphqlStore
