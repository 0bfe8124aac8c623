import GraphqlStore.Source.Lexer

/-!
Steps of reading a list of tokens. A step that succeeds gives what it read and
the tokens left, which are fewer; a step that fails gives the tokens at which
it got stuck, so that the place of the failure is that of the first of them. A
step that needs a string without a value ends all work.
-/

set_option autoImplicit false

namespace GraphqlStore

abbrev Fewer (tokens : List Token) := { rest : List Token // rest.length < tokens.length }

abbrev AtMost (tokens : List Token) := { rest : List Token // rest.length ≤ tokens.length }

/-- Why a step fails. -/
inductive Obstacle where
  /-- The first of the tokens cannot stand where it does, or there is none. -/
  | unexpected (tokens : List Token)
  | interrupted (cause : Interruption)
deriving DecidableEq, Repr

abbrev Step (α : Type) (tokens : List Token) := Except Obstacle (α × Fewer tokens)

abbrev MaybeStep (α : Type) (tokens : List Token) := Except Obstacle (α × AtMost tokens)

namespace Parse

def within {tokens : List Token} {rest : Fewer tokens} (left : Fewer rest.val) : Fewer tokens :=
  ⟨left.val, Nat.lt_trans left.property rest.property⟩

/-- All tokens, none of them taken. -/
def stay (tokens : List Token) : AtMost tokens := ⟨tokens, Nat.le_refl _⟩

def withinRest {tokens : List Token} {rest : AtMost tokens} (left : Fewer rest.val) : Fewer tokens :=
  ⟨left.val, Nat.lt_of_lt_of_le left.property rest.property⟩

def restWithin {tokens : List Token} {rest : Fewer tokens} (left : AtMost rest.val) : Fewer tokens :=
  ⟨left.val, Nat.lt_of_le_of_lt left.property rest.property⟩

def atMost {tokens : List Token} (left : Fewer tokens) : AtMost tokens :=
  ⟨left.val, Nat.le_of_lt left.property⟩

def afterFirst {token : Token} {rest : List Token} (left : AtMost rest) : Fewer (token :: rest) :=
  ⟨left.val, Nat.lt_succ_of_le left.property⟩

def name (tokens : List Token) : Step String tokens :=
  match tokens with
  | ⟨.name text, _⟩ :: rest => .ok (text, ⟨rest, by simp⟩)
  | _ => .error (.unexpected tokens)

def keyword (word : String) (tokens : List Token) : Step Unit tokens :=
  match tokens with
  | ⟨.name text, _⟩ :: rest => if text = word then .ok ((), ⟨rest, by simp⟩) else .error (.unexpected tokens)
  | _ => .error (.unexpected tokens)

def mark (c : Char) (tokens : List Token) : Step Unit tokens :=
  match tokens with
  | ⟨.mark other, _⟩ :: rest => if other = c then .ok ((), ⟨rest, by simp⟩) else .error (.unexpected tokens)
  | _ => .error (.unexpected tokens)

def nextIs (c : Char) : List Token → Bool
  | ⟨.mark other, _⟩ :: _ => other == c
  | _ => false

def nextIsWord (word : String) : List Token → Bool
  | ⟨.name text, _⟩ :: _ => text == word
  | _ => false

def position (finish : Position) : List Token → Position
  | token :: _ => token.position
  | [] => finish

/-- A punctuation character, if it comes next. -/
def optionalMark (c : Char) (tokens : List Token) : Bool × AtMost tokens :=
  match tokens with
  | ⟨.mark other, place⟩ :: rest =>
      if other = c then (true, ⟨rest, by simp⟩) else (false, stay (⟨.mark other, place⟩ :: rest))
  | tokens => (false, stay tokens)

/-- A given name, if it comes next. -/
def optionalWord (word : String) (tokens : List Token) : Bool × AtMost tokens :=
  match tokens with
  | ⟨.name text, place⟩ :: rest =>
      if text = word then (true, ⟨rest, by simp⟩) else (false, stay (⟨.name text, place⟩ :: rest))
  | tokens => (false, stay tokens)

/-- Items up to a closing character, which is taken. -/
def itemsUntil {α : Type} (close : Char) (item : (tokens : List Token) → Step α tokens)
    (tokens : List Token) : Step (List α) tokens :=
  match mark close tokens with
  | .ok (_, rest) => .ok ([], rest)
  | .error _ =>
      match item tokens with
      | .error stuck => .error stuck
      | .ok (first, rest) =>
          match itemsUntil close item rest.val with
          | .error stuck => .error stuck
          | .ok (more, left) => .ok (first :: more, within left)
termination_by tokens.length
decreasing_by exact rest.property

def between {α : Type} (opening close : Char) (item : (tokens : List Token) → Step α tokens)
    (tokens : List Token) : Step (List α) tokens := do
  let (_, rest) ← mark opening tokens
  let (first, rest') ← item rest.val
  let (more, left) ← itemsUntil close item rest'.val
  return (first :: more, within (within left))

/-- At least one item between brackets, if the opening one comes next. -/
def optionalBetween {α : Type} (opening close : Char) (item : (tokens : List Token) → Step α tokens)
    (tokens : List Token) : MaybeStep (List α) tokens :=
  if nextIs opening tokens then
    match between opening close item tokens with
    | .ok (items, rest) => .ok (items, atMost rest)
    | .error stuck => .error stuck
  else .ok ([], stay tokens)

def separated {α : Type} (separator : Char) (item : (tokens : List Token) → Step α tokens)
    (tokens : List Token) : Step (List α) tokens :=
  match item tokens with
  | .error stuck => .error stuck
  | .ok (first, rest) =>
      match mark separator rest.val with
      | .error _ => .ok ([first], rest)
      | .ok (_, following) =>
          match separated separator item following.val with
          | .error stuck => .error stuck
          | .ok (more, left) => .ok (first :: more, within (within left))
termination_by tokens.length
decreasing_by exact Nat.lt_trans following.property rest.property

/-- Items up to the end of the tokens, at least one. -/
def itemsToEnd {α : Type} (item : (tokens : List Token) → Step α tokens) (tokens : List Token) :
    Except Obstacle (List α) :=
  match item tokens with
  | .error stuck => .error stuck
  | .ok (first, rest) =>
      if rest.val.isEmpty then .ok [first]
      else
        match itemsToEnd item rest.val with
        | .error stuck => .error stuck
        | .ok more => .ok (first :: more)
termination_by tokens.length
decreasing_by exact rest.property

end Parse

end GraphqlStore
