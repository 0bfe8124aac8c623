/-!
References to types: a name, wrapped in lists and non-null marks.
-/

set_option autoImplicit false

namespace GraphqlStore

/-- A reference to a type. -/
inductive TypeRef where
  | named (name : String)
  | list (item : TypeRef)
  | nonNull (inner : TypeRef)
deriving DecidableEq, Repr

namespace TypeRef

def base : TypeRef → String
  | .named name => name
  | .list item => item.base
  | .nonNull inner => inner.base

def isNullable : TypeRef → Bool
  | .nonNull _ => false
  | _ => true

/-- Whether the reference is to a list, non-null or not. -/
def isList : TypeRef → Bool
  | .named _ => false
  | .list _ => true
  | .nonNull inner => inner.isList

def text : TypeRef → String
  | .named name => name
  | .list item => "[" ++ item.text ++ "]"
  | .nonNull inner => inner.text ++ "!"

end TypeRef

end GraphqlStore
