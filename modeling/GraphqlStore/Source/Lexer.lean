import GraphqlStore.Source.Literal
import GraphqlStore.Source.Token

/-!
Cutting a GraphQL text into tokens. Blanks, commas, byte order marks and
comments are skipped. A tabulator counts as eight columns, a carriage return as
none, and a comment up to and with the character that ends its line. The
tokens stop at the first characters that form none.
-/

set_option autoImplicit false

namespace GraphqlStore

namespace Lexer

/-! ## What is skipped -/

mutual
/-- What follows the ignored characters at the front, and its place. -/
def skipIgnored (position : Position) : List Char → Position × List Char
  | [] => (position, [])
  | c :: rest =>
      if c = '\ufeff' ∨ c = '\r' then skipIgnored position rest
      else if c = '\t' then skipIgnored (position.right 8) rest
      else if c = '\n' then skipIgnored position.nextLine rest
      else if c = ' ' ∨ c = ',' then skipIgnored (position.right 1) rest
      else if c = '#' then skipComment position rest
      else (position, c :: rest)

/-- What follows a comment, and its place. A comment that the text ends takes no room. -/
def skipComment (position : Position) : List Char → Position × List Char
  | [] => (position, [])
  | c :: rest =>
      if c = '\r' ∨ c = '\n' then skipIgnored position.nextLine rest
      else skipComment position rest
end

mutual
theorem skipIgnored_length (position : Position) (text : List Char) :
    (skipIgnored position text).2.length ≤ text.length := by
  cases text with
  | nil => simp [skipIgnored]
  | cons c rest =>
      unfold skipIgnored
      split
      · exact Nat.le_succ_of_le (skipIgnored_length position rest)
      · split
        · exact Nat.le_succ_of_le (skipIgnored_length (position.right 8) rest)
        · split
          · exact Nat.le_succ_of_le (skipIgnored_length position.nextLine rest)
          · split
            · exact Nat.le_succ_of_le (skipIgnored_length (position.right 1) rest)
            · split
              · exact Nat.le_succ_of_le (skipComment_length position rest)
              · exact Nat.le_refl _

theorem skipComment_length (position : Position) (text : List Char) :
    (skipComment position text).2.length ≤ text.length := by
  cases text with
  | nil => simp [skipComment]
  | cons c rest =>
      unfold skipComment
      split
      · exact Nat.le_succ_of_le (skipIgnored_length position.nextLine rest)
      · exact Nat.le_succ_of_le (skipComment_length position rest)
end

/-! ## Single tokens -/

def isMark (c : Char) : Bool := "()[]\x7b\x7d!$:=@|&".toList.contains c

def isOpening (c : Char) : Bool := c = '(' || c = '[' || c = '\x7b'

def isClosing (c : Char) : Bool := c = ')' || c = ']' || c = '\x7d'

def isNameStart (c : Char) : Bool := c = '_' || c.isAlpha

def isNameChar (c : Char) : Bool := c = '_' || c.isAlphanum

def endsNumber (c : Char) : Bool :=
  c = ' ' || c = '\n' || c = '\r' || c = '\t' || c = ',' || c = '#' || isMark c

/-- The characters of a string up to its closing quotation mark, after an escape or not. -/
def stringContent? (escaped : Bool) : List Char → Option (List Char)
  | [] => none
  | c :: rest =>
      if c = '"' ∧ !escaped then some []
      else if c = '\n' then none
      else (stringContent? (!escaped && c == '\\') rest).map (c :: ·)

/-- The characters of a string over several lines up to the first three quotation marks that follow
no backslash. Marks after a backslash are passed over three at a time. -/
def blockContent? (previous : Char) : List Char → Option (List Char)
  | '"' :: '"' :: '"' :: rest =>
      if previous = '\\' then (blockContent? '"' rest).map fun content => '"' :: '"' :: '"' :: content
      else some []
  | c :: rest => (blockContent? c rest).map (c :: ·)
  | [] => none

/-- The token that starts with a character, and how many characters it takes after that one. -/
def scan (first : Char) (rest : List Char) : Option (TokenKind × Nat) :=
  if isMark first then some (.mark first, 0)
  else if first = '.' then
    match rest with
    | '.' :: '.' :: _ => some (.spread, 2)
    | _ => none
  else if isNameStart first then
    let more := rest.takeWhile isNameChar
    some (.name (String.ofList (first :: more)), more.length)
  else if first = '-' ∨ first.isDigit then
    let more := rest.takeWhile fun c => !endsNumber c
    let text := first :: more
    if more.any fun c => c == '.' || c == 'e' || c == 'E' then
      (Literal.float? text).map fun value => (.float value, more.length)
    else (Literal.integer? text).map fun value => (.int value, more.length)
  else if first = '"' then
    match rest with
    | '"' :: '"' :: tail => do
        let content ← blockContent? ' ' tail
        let kind := match Literal.block? content with
          | some value => .string (String.ofList value)
          | none => .unevenString
        return (kind, content.length + 5)
    | _ => do
        let content ← stringContent? false rest
        let value ← Literal.unescape? content
        return (.string (String.ofList value), content.length + 1)
  else none

/-- How many brackets may be open after a token, if it may stand there. -/
def openAfter? (available : Nat) : TokenKind → Option Nat
  | .mark c =>
      if isOpening c then (if available = 0 then none else some (available - 1))
      else if isClosing c then some (available + 1)
      else some available
  | _ => some available

/-! ## All tokens -/

/-- The tokens of a text from a place on, with so many brackets left to open. -/
def tokensFrom (available : Nat) (position : Position) (text : List Char) : TokenStream :=
  match _found : skipIgnored position text with
  | (here, []) => ⟨[], here⟩
  | (here, first :: rest) =>
      match scan first rest with
      | none => ⟨[⟨.unreadable, here⟩], here⟩
      | some (kind, more) =>
          match openAfter? available kind with
          | none => ⟨[⟨.unreadable, here⟩], here⟩
          | some available =>
              let after := here.after (first :: rest.take more)
              let following := tokensFrom available after (rest.drop more)
              ⟨⟨kind, here⟩ :: following.tokens, following.finish⟩
termination_by text.length
decreasing_by
  have bound := skipIgnored_length position text
  rw [_found] at bound
  simp only [List.length_cons, List.length_drop] at bound ⊢
  omega

end Lexer

/-- How many brackets may be open at once. -/
def TokenStream.nestingLimit : Nat := 50

def TokenStream.ofText (text : String) : TokenStream :=
  Lexer.tokensFrom nestingLimit Position.start text.toList

end GraphqlStore
