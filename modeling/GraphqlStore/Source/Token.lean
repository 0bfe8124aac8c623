import GraphqlStore.Decimal.Binary64
import GraphqlStore.Source.Position

/-!
Tokens of GraphQL texts.
-/

set_option autoImplicit false

namespace GraphqlStore

/-- What a token is. Numbers and strings are held by their values. -/
inductive TokenKind where
  /-- A punctuation character. -/
  | mark (c : Char)
  /-- Three points. -/
  | spread
  | name (text : String)
  | int (value : Int)
  | float (value : Binary64)
  | string (value : String)
  /-- A string over several lines that has no value: the indent that its lines share ends inside a
  character of one of them. -/
  | unevenString
  /-- Characters that form no token; nothing after them is read. -/
  | unreadable
deriving DecidableEq, Repr

/-- A token and where it starts. -/
structure Token where
  kind : TokenKind
  position : Position
deriving DecidableEq, Repr

/-- What ends all work without a result: a string over several lines that is needed and has no
value. -/
structure Interruption where
  /-- Where the string starts. -/
  position : Position
deriving DecidableEq, Repr

/-- The tokens of a text and the place after the last of them. -/
structure TokenStream where
  tokens : List Token
  finish : Position
deriving DecidableEq, Repr

end GraphqlStore
