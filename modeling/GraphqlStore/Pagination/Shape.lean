import GraphqlStore.Document.Selection
import GraphqlStore.Schema.Basic

/-!
Pagination: the arguments by which a field declares that it is read page by
page, and the direction and page size that a selection of it asks for.
-/

set_option autoImplicit false

namespace GraphqlStore

/-- How a field is paged through. -/
inductive PaginationMode where
  | none
  | cursorForward
  | cursorBackward
  | offset
deriving DecidableEq, Repr

namespace PaginationMode

def text : PaginationMode → String
  | .none => "none"
  | .cursorForward => "cursor-forward"
  | .cursorBackward => "cursor-backward"
  | .offset => "offset"

def all : List PaginationMode := [.none, .cursorForward, .cursorBackward, .offset]

def ofText? (word : String) : Option PaginationMode := all.find? fun mode => mode.text == word

def isCursor : PaginationMode → Bool
  | .cursorForward | .cursorBackward => true
  | _ => false

end PaginationMode

/-- The sets of arguments that make a field one with pages. -/
inductive PaginationShape where
  /-- `first` with `after` and `last` with `before`. -/
  | bidirectional
  | forward
  | backward
  /-- `limit`, and `offset` or not. -/
  | offset
deriving DecidableEq, Repr

namespace PaginationShape

def pageSizeArguments : PaginationShape → List String
  | .bidirectional => ["first", "last"]
  | .forward => ["first"]
  | .backward => ["last"]
  | .offset => ["limit"]

def isCursor : PaginationShape → Bool
  | .offset => false
  | _ => true

def text : PaginationShape → String
  | .bidirectional => "Bidirectional"
  | .forward => "Forward"
  | .backward => "Backward"
  | .offset => "Offset"

end PaginationShape

/-- Why a field cannot be paged through. -/
inductive PaginationError where
  | unsupportedShape (field : String) (declared : List String)
  | notPaginated (field : String)
  | noPageSize (field : String) (arguments : List String)
  | twoPageSizes (field : String)
  | pageSizeType (field argument : String)
deriving DecidableEq, Repr

def PaginationError.message : PaginationError → String
  | .unsupportedShape field declared =>
      "field \"" ++ field ++ "\" declares pagination arguments (" ++ ", ".intercalate declared ++
        ") that match no supported shape"
  | .notPaginated field => "field \"" ++ field ++ "\" declares no pagination arguments"
  | .noPageSize field arguments =>
      "paginated field \"" ++ field ++ "\" must pass " ++ " or ".intercalate arguments
  | .twoPageSizes field => "paginated field \"" ++ field ++ "\" cannot pass both first and last"
  | .pageSizeType field argument => argument ++ " on \"" ++ field ++ "\" must be an Int"

namespace Pagination

/-- The arguments that have to do with pages. -/
def argumentNames : List String := ["first", "after", "last", "before", "offset", "limit"]

/-- The shape of declared arguments, given which of the six are there. -/
def shapeOf? (has : String → Bool) : Option PaginationShape :=
  let anyForward := has "first" || has "after"
  let anyBackward := has "last" || has "before"
  match has "first" && has "after", has "last" && has "before", has "offset" || has "limit" with
  | true, true, false => some .bidirectional
  | true, false, false => if anyBackward then none else some .forward
  | false, true, false => if anyForward then none else some .backward
  | false, false, true =>
      if anyForward || anyBackward || !has "limit" then none else some .offset
  | _, _, _ => none

/-- The shape of a field; nothing if it declares no argument that has to do with pages. -/
def shape? (field : FieldDef) : Option (Except PaginationError PaginationShape) :=
  let has := fun name => Ordered.contains InputValue.name name field.arguments
  let declared := argumentNames.filter has
  if declared.isEmpty then none
  else match shapeOf? has with
    | some shape => some (.ok shape)
    | none => some (.error (.unsupportedShape field.name declared))

/-- The mode that an argument for the page size asks for. -/
def modeOf (argument : String) : PaginationMode :=
  if argument = "first" then .cursorForward
  else if argument = "last" then .cursorBackward
  else .offset

/-- The mode and page size of a selected field. A page size that is a variable is not known. -/
def fieldMode (declared : FieldDef) (field : Field) :
    Except PaginationError (PaginationMode × Option Int) :=
  match shape? declared with
  | none => .error (.notPaginated declared.name)
  | some (.error reason) => .error reason
  | some (.ok shape) =>
      match field.arguments.filter fun argument => shape.pageSizeArguments.contains argument.1 with
      | [] => .error (.noPageSize declared.name shape.pageSizeArguments)
      | [(name, .int size)] => .ok (modeOf name, some size)
      | [(name, .variable _)] => .ok (modeOf name, none)
      | [(name, _)] => .error (.pageSizeType declared.name name)
      | _ :: _ :: _ => .error (.twoPageSizes declared.name)

end Pagination

/-- Marks a field that is read page by page. -/
def Directive.paginate : String := "paginate"

def Field.isPaginated (field : Field) : Bool := field.hasDirective Directive.paginate

end GraphqlStore
