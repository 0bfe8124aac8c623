import GraphqlStore.Json.Value
import GraphqlStore.Text.Symbol

/-!
Data texts as they stand: the grammar without the meaning. A term keeps the
digits of its numbers, the escapes of its strings and every member of its
objects, repeated names included. A byte that belongs to no character may stand
in a string. Reading is total: each step spends one unit of a budget that the
length of the text bounds.
-/

set_option autoImplicit false

namespace GraphqlStore.Json

open Text (Symbol)

/-- A piece of a string. -/
inductive StringPiece where
  | char (c : Char)
  /-- A code unit written in base sixteen. -/
  | code (unit : Nat)
  /-- A byte that belongs to no character. -/
  | stray
deriving DecidableEq, Repr

/-- A number as it is written. -/
structure NumberTerm where
  negative : Bool
  whole : List Char
  fraction : List Char
  exponent : Option (Bool × List Char)
deriving DecidableEq, Repr

/-- A value as it is written. -/
inductive Term where
  | null
  | bool (value : Bool)
  | number (value : NumberTerm)
  | string (pieces : List StringPiece)
  | array (items : List Term)
  | object (members : List (List StringPiece × Term))
deriving Repr

def isSpace (symbol : Symbol) : Bool :=
  symbol = some ' ' || symbol = some '\n' || symbol = some '\t' || symbol = some '\r'

def skipSpace (text : List Symbol) : List Symbol := text.dropWhile isSpace

def isDigit (symbol : Symbol) : Bool := symbol.any Char.isDigit

def leadingDigits (text : List Symbol) : List Char := (text.takeWhile isDigit).filterMap id

def skipDigits (text : List Symbol) : List Symbol := text.dropWhile isDigit

def hexValue? (c : Char) : Option Nat :=
  if '0' ≤ c ∧ c ≤ '9' then some (c.toNat - '0'.toNat)
  else if 'a' ≤ c ∧ c ≤ 'f' then some (c.toNat - 'a'.toNat + 10)
  else if 'A' ≤ c ∧ c ≤ 'F' then some (c.toNat - 'A'.toNat + 10)
  else none

def codeUnit? (first second third fourth : Char) : Option Nat := do
  let first ← hexValue? first
  let second ← hexValue? second
  let third ← hexValue? third
  let fourth ← hexValue? fourth
  return ((first * 16 + second) * 16 + third) * 16 + fourth

def shortEscape? (c : Char) : Option Char :=
  match c with
  | '"' => some '"'
  | '\\' => some '\\'
  | '/' => some '/'
  | 'b' => some '\x08'
  | 'f' => some '\x0c'
  | 'n' => some '\n'
  | 'r' => some '\r'
  | 't' => some '\t'
  | _ => none

/-- The pieces of a string and what follows its closing quotation mark. -/
def readPieces : List Symbol → Option (List StringPiece × List Symbol)
  | [] => none
  | none :: rest => (readPieces rest).map fun (pieces, after) => (.stray :: pieces, after)
  | some '"' :: rest => some ([], rest)
  | some '\\' :: some 'u' :: some first :: some second :: some third :: some fourth :: rest =>
      match codeUnit? first second third fourth with
      | some unit => (readPieces rest).map fun (pieces, after) => (.code unit :: pieces, after)
      | none => none
  | some '\\' :: some c :: rest =>
      match shortEscape? c with
      | some meant => (readPieces rest).map fun (pieces, after) => (.char meant :: pieces, after)
      | none => none
  | some c :: rest =>
      if c = '\\' ∨ c.toNat < 0x20 then none
      else (readPieces rest).map fun (pieces, after) => (.char c :: pieces, after)

/-- Whether digits form the whole part of a number: not empty, and no zero before others. -/
def isWhole : List Char → Bool
  | [] => false
  | '0' :: rest => rest.isEmpty
  | _ => true

/-- The digits after a point, if there is one; a point needs a digit after it. -/
def readFraction : List Symbol → Option (List Char × List Symbol)
  | some '.' :: rest =>
      let digits := leadingDigits rest
      if digits.isEmpty then none else some (digits, skipDigits rest)
  | text => some ([], text)

/-- The sign and digits of an exponent, at the character after its mark. -/
def readExponent (negative : Bool) (text : List Symbol) :
    Option (Option (Bool × List Char) × List Symbol) :=
  let digits := leadingDigits text
  if digits.isEmpty then none else some (some (negative, digits), skipDigits text)

/-- The exponent, if there is one. -/
def readScale : List Symbol → Option (Option (Bool × List Char) × List Symbol)
  | mark :: rest =>
      if mark = some 'e' ∨ mark = some 'E' then
        match rest with
        | some '+' :: rest => readExponent false rest
        | some '-' :: rest => readExponent true rest
        | rest => readExponent false rest
      else some (none, mark :: rest)
  | [] => some (none, [])

def readNumber (negative : Bool) (text : List Symbol) : Option (NumberTerm × List Symbol) := do
  let whole := leadingDigits text
  if !isWhole whole then none
  else
    let (fraction, rest) ← readFraction (skipDigits text)
    let (exponent, rest) ← readScale rest
    return (⟨negative, whole, fraction, exponent⟩, rest)

def afterWord? : List Char → List Symbol → Option (List Symbol)
  | [], text => some text
  | expected :: word, symbol :: text => if some expected = symbol then afterWord? word text else none
  | _ :: _, [] => none

mutual
/-- The value at the front of a text and what follows it. -/
def readTerm : Nat → List Symbol → Option (Term × List Symbol)
  | 0, _ => none
  | budget + 1, text =>
      match skipSpace text with
      | some 'n' :: rest => (afterWord? "ull".toList rest).map fun after => (.null, after)
      | some 't' :: rest => (afterWord? "rue".toList rest).map fun after => (.bool true, after)
      | some 'f' :: rest => (afterWord? "alse".toList rest).map fun after => (.bool false, after)
      | some '"' :: rest => (readPieces rest).map fun (pieces, after) => (.string pieces, after)
      | some '-' :: rest => (readNumber true rest).map fun (written, after) => (.number written, after)
      | some '[' :: rest =>
          match skipSpace rest with
          | some ']' :: after => some (.array [], after)
          | _ => (readItems budget rest).map fun (items, after) => (.array items, after)
      | some '\x7b' :: rest =>
          match skipSpace rest with
          | some '\x7d' :: after => some (.object [], after)
          | _ => (readMembers budget rest).map fun (members, after) => (.object members, after)
      | rest => (readNumber false rest).map fun (written, after) => (.number written, after)

/-- The items of an array from the first one on, and what follows the closing bracket. -/
def readItems : Nat → List Symbol → Option (List Term × List Symbol)
  | 0, _ => none
  | budget + 1, text =>
      match readTerm budget text with
      | none => none
      | some (item, rest) =>
          match skipSpace rest with
          | some ',' :: rest => (readItems budget rest).map fun (items, after) => (item :: items, after)
          | some ']' :: after => some ([item], after)
          | _ => none

/-- The members of an object from the first one on, and what follows the closing bracket. -/
def readMembers : Nat → List Symbol → Option (List (List StringPiece × Term) × List Symbol)
  | 0, _ => none
  | budget + 1, text =>
      match skipSpace text with
      | some '"' :: rest =>
          match readPieces rest with
          | none => none
          | some (name, rest) =>
              match skipSpace rest with
              | some ':' :: rest =>
                  match readTerm budget rest with
                  | none => none
                  | some (value, rest) =>
                      match skipSpace rest with
                      | some ',' :: rest =>
                          (readMembers budget rest).map fun (members, after) =>
                            ((name, value) :: members, after)
                      | some '\x7d' :: after => some ([(name, value)], after)
                      | _ => none
              | _ => none
      | _ => none
end

namespace Term

/-- The term that all symbols are. Nothing but blanks may follow it. -/
def ofSymbols? (text : List Symbol) : Option Term :=
  match readTerm (2 * text.length + 2) text with
  | some (term, rest) => if (skipSpace rest).isEmpty then some term else none
  | none => none

def ofText? (text : String) : Option Term := ofSymbols? (Text.symbols text)

def ofBytes? (bytes : ByteArray) : Option Term := ofSymbols? (Text.symbolsOfBytes bytes)

end Term

end GraphqlStore.Json
