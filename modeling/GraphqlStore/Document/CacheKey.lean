import GraphqlStore.Document.Selection
import GraphqlStore.Pagination.Shape

/-!
Cache keys: the text under which the value of a field is kept.
-/

set_option autoImplicit false

namespace GraphqlStore

namespace Field

/-- The end of the key of a paginated field. -/
def paginatedSuffix : String := "::paginated"

/-- The arguments that tell two values of a field apart: pages of one list share its key. -/
def keyArguments (field : Field) (paginated : Bool) : List Argument :=
  field.arguments.filter fun argument =>
    !paginated || !Pagination.argumentNames.contains argument.1

def argumentKey (argument : Argument) : String := argument.1 ++ ": " ++ argument.2.keyText

/-- The key of a field: its name and arguments as written. -/
def cacheKey (field : Field) (paginated : Bool) : String :=
  let arguments := (field.keyArguments paginated).map argumentKey
  let call := if arguments.isEmpty then field.name
    else field.name ++ "(" ++ ", ".intercalate arguments ++ ")"
  if paginated then call ++ paginatedSuffix else call

end Field

end GraphqlStore
