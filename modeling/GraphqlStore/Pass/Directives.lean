import GraphqlStore.Document.Visit
import GraphqlStore.Fragment.Inlining
import GraphqlStore.Pagination.Shape
import GraphqlStore.Pass.Basic

/-!
Directives: which ones are known, where they stand and what they take. Names
of lists have to be different in all documents of a run.
-/

set_option autoImplicit false

namespace GraphqlStore

/-- Where a directive can stand in an executable document. -/
inductive DirectiveLocation where
  | operation (kind : OperationKind)
  | fragmentDefinition
  | field
  | fragmentSpread
  | inlineFragment
deriving DecidableEq, Repr

def DirectiveLocation.text : DirectiveLocation → String
  | .operation .query => "QUERY"
  | .operation .mutation => "MUTATION"
  | .operation .subscription => "SUBSCRIPTION"
  | .fragmentDefinition => "FRAGMENT_DEFINITION"
  | .field => "FIELD"
  | .fragmentSpread => "FRAGMENT_SPREAD"
  | .inlineFragment => "INLINE_FRAGMENT"

/-- What an argument of a directive takes. -/
inductive DirectiveArgumentKind where
  | boolean
  | string
  | cachePolicy
deriving DecidableEq, Repr

/-- An argument that a directive takes. -/
structure DirectiveArgument where
  name : String
  kind : DirectiveArgumentKind
  required : Bool
deriving DecidableEq, Repr

/-- A directive that the compiler knows. -/
structure DirectiveSpec where
  name : String
  locations : List DirectiveLocation
  arguments : List DirectiveArgument
deriving DecidableEq, Repr

namespace Directive

/-- Sets the cache policy of a query. -/
def cache : String := "cache"

/-- Names a list of values. -/
def list : String := "list"

def conditional (name : String) : DirectiveSpec :=
  ⟨name, [.field, .fragmentSpread, .inlineFragment], [⟨"if", .boolean, true⟩]⟩

def catalog : List DirectiveSpec :=
  [conditional "include",
    conditional "skip",
    ⟨paginate, [.field], [⟨"name", .string, false⟩]⟩,
    ⟨cache, [.operation .query], [⟨"policy", .cachePolicy, false⟩, ⟨"partial", .boolean, false⟩]⟩,
    ⟨list, [.field], [⟨"name", .string, true⟩]⟩,
    ⟨maskEnable, [.fragmentSpread], []⟩,
    ⟨maskDisable, [.fragmentSpread], []⟩]

def spec? (name : String) : Option DirectiveSpec := catalog.find? fun spec => spec.name == name

end Directive

namespace DirectiveCheck

/-- What is wrong with a directive. -/
inductive Issue where
  | repeated (directive : String)
  | unknown (directive : String)
  | misplaced (directive : String) (location : DirectiveLocation)
  | unknownArgument (directive argument : String)
  | notLiteral (directive argument : String)
  | wrongValue (directive argument : String) (expected : DirectiveArgumentKind)
  | missingArgument (directive argument : String)
  | bothMasks
  | listTarget (field : String)
  | usedListName (list document : String)
deriving DecidableEq, Repr

def expectation : DirectiveArgumentKind → String
  | .boolean => "a Boolean"
  | .string => "a String"
  | .cachePolicy => "one of " ++ ", ".intercalate (CachePolicy.all.map CachePolicy.text)

namespace Issue

def message : Issue → String
  | .repeated directive => "directive @" ++ directive ++ " is repeated"
  | .unknown directive => "unknown directive @" ++ directive
  | .misplaced directive location =>
      "directive @" ++ directive ++ " cannot be used on " ++ location.text
  | .unknownArgument directive argument =>
      "directive @" ++ directive ++ " has no argument \"" ++ argument ++ "\""
  | .notLiteral directive argument =>
      "@" ++ directive ++ "(" ++ argument ++ ":) must be a literal"
  | .wrongValue directive argument expected =>
      "@" ++ directive ++ "(" ++ argument ++ ":) expects " ++ expectation expected
  | .missingArgument directive argument =>
      "directive @" ++ directive ++ " is missing required argument \"" ++ argument ++ "\""
  | .bothMasks => "@mask_enable and @mask_disable cannot be combined"
  | .listTarget field =>
      "@list can only be applied to lists or connections, \"" ++ field ++ "\" is neither"
  | .usedListName list document =>
      "list name \"" ++ list ++ "\" is already used by document " ++ document

def hint : Issue → Option String
  | .usedListName _ _ => some "@list names must be unique across the project"
  | _ => none

def fault (position : Position) (issue : Issue) : Fault := ⟨issue.message, some position, issue.hint⟩

end Issue

/-! ## Directive lists -/

/-- What is wrong with the value of an argument. A variable can stand for a truth value only. -/
def valueIssues (directive argument : String) (kind : DirectiveArgumentKind) (value : Value) :
    List Issue :=
  match kind, value with
  | .boolean, .variable _ => []
  | _, .variable _ => [.notLiteral directive argument]
  | .boolean, .boolean _ => []
  | .string, .string _ => []
  | .cachePolicy, .enum name =>
      if (CachePolicy.ofText? name).isSome then [] else [.wrongValue directive argument .cachePolicy]
  | kind, _ => [.wrongValue directive argument kind]

def argumentIssues (spec : DirectiveSpec) (argument : Argument) : List Issue :=
  match spec.arguments.find? fun known => known.name == argument.1 with
  | none => [.unknownArgument spec.name argument.1]
  | some known => valueIssues spec.name argument.1 known.kind argument.2

def missingIssues (spec : DirectiveSpec) (arguments : List Argument) : List Issue :=
  (spec.arguments.filter fun known =>
      known.required && !arguments.any fun argument => argument.1 == known.name).map
    fun known => .missingArgument spec.name known.name

def directiveIssues (schema : Schema) (location : DirectiveLocation) (directive : Directive) :
    List Issue :=
  match Directive.spec? directive.name with
  | none => if schema.directives.contains directive.name then [] else [.unknown directive.name]
  | some spec =>
      if spec.locations.contains location then
        directive.arguments.flatMap (argumentIssues spec) ++ missingIssues spec directive.arguments
      else [.misplaced directive.name location]

/-- What is wrong with directives of a list, of which some names have been met before. -/
def listFaults (schema : Schema) (location : DirectiveLocation) (met : List String) :
    List Directive → List Fault
  | [] => []
  | directive :: rest =>
      let repeated := if met.contains directive.name then [Issue.repeated directive.name] else []
      (repeated ++ directiveIssues schema location directive).map (Issue.fault directive.position) ++
        listFaults schema location (directive.name :: met) rest

def has (name : String) (directives : List Directive) : Bool :=
  directives.any fun directive => directive.name == name

/-- What is wrong with the directives that stand at one place. -/
def faultsAt (schema : Schema) (location : DirectiveLocation) (directives : List Directive) :
    List Fault :=
  let masks := match directives with
    | first :: _ =>
        if has Directive.maskEnable directives && has Directive.maskDisable directives then
          [Issue.fault first.position .bothMasks]
        else []
    | [] => []
  listFaults schema location [] directives ++ masks

/-! ## Lists of values -/

def listDirective? (head : Field) : Option Directive :=
  head.directives.find? fun directive => directive.name == Directive.list

/-- Whether the values of a field form a list: it is one, or it is a connection. -/
def isListTarget (schema : Schema) (field : FieldDef) : Bool :=
  field.type.isList || (schema.type? field.type.base).any fun target =>
    target.kind == .object && (target.field? "edges").isSome

def targetFaults (schema : Schema) (head : Field) (found : Option FieldRef) : List Fault :=
  match listDirective? head, found with
  | some directive, some (.declared declared) =>
      if isListTarget schema declared then []
      else [Issue.fault directive.position (.listTarget head.name)]
  | _, _ => []

/-- The name that a field gives its list, and where. -/
def listName? (head : Field) : Option (String × Position) :=
  match listDirective? head with
  | none => none
  | some directive =>
      match argument? "name" directive.arguments with
      | some (.string name) => some (name, directive.position)
      | _ => none

/-! ## Documents -/

/-- What is wrong with the directives of a selection met on a walk. -/
def visitFaults (schema : Schema) : Visit → List Fault
  | .field _ head _ found _ =>
      faultsAt schema .field head.directives ++ targetFaults schema head found
  | .spread _ head => faultsAt schema .fragmentSpread head.directives
  | .inline _ head => faultsAt schema .inlineFragment head.directives

def visitListName? : Visit → Option (String × Position)
  | .field _ head _ _ _ => listName? head
  | _ => none

/-- The place and directives of a definition; a query without keyword can have none. -/
def definitionDirectives? : Definition → Option (DirectiveLocation × List Directive)
  | .shorthand _ => none
  | .operation declared => some (.operation declared.kind, declared.directives)
  | .fragment declared => some (.fragmentDefinition, declared.directives)

/-- The selections of a document whose directives are checked. -/
def checkedVisits (schema : Schema) (document : Document) : List Visit :=
  match document.definition?.bind definitionDirectives? with
  | none => []
  | some _ => (document.visits? schema).getD []

def faults (schema : Schema) (document : Document) : List Fault :=
  match document.definition?.bind definitionDirectives? with
  | none => []
  | some (location, directives) =>
      faultsAt schema location directives ++
        (checkedVisits schema document).flatMap (visitFaults schema)

/-- The names that a document gives lists, and where. -/
def listNames (schema : Schema) (document : Document) : List (String × Position) :=
  (checkedVisits schema document).filterMap visitListName?

/-! ## Lists of all documents -/

/-- Checks the list names of a document against those that documents have used. -/
def checkNames (document : String) (used : NameMap String) :
    List (String × Position) → List Fault × NameMap String
  | [] => ([], used)
  | (name, position) :: rest =>
      match used.find? name with
      | some first =>
          let (others, after) := checkNames document used rest
          (Issue.fault position (.usedListName name first) :: others, after)
      | none => checkNames document (used.insert name document) rest

def reports (schema : Schema) (used : NameMap String) : List Document → List Diagnostic
  | [] => []
  | document :: rest =>
      let (clashes, after) := checkNames document.name used (listNames schema document)
      document.reports (faults schema document ++ clashes) ++ reports schema after rest

end DirectiveCheck

/-- Directives are known, well placed and well formed, and names of lists differ. -/
def Pass.directiveValidation : Pass :=
  ⟨"directive_validation", fun context documents =>
    ⟨documents, DirectiveCheck.reports context.config.schema NameMap.empty documents, false⟩⟩

end GraphqlStore
