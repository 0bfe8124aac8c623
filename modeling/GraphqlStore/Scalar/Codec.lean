import GraphqlStore.Json.Printer
import GraphqlStore.Timestamp.Rfc3339

/-!
Scalars: the conversion between the values that travel and the values that an
application works with.
-/

set_option autoImplicit false

namespace GraphqlStore

/-- What values of a scalar look like when they travel. -/
inductive WireType where
  | any
  | boolean
  | int
  | float
  | string
deriving DecidableEq, Repr

namespace WireType

def text : WireType → String
  | .any => "any"
  | .boolean => "boolean"
  | .int => "int"
  | .float => "float"
  | .string => "string"

def expected : WireType → String
  | .any => "any value"
  | .boolean => "a boolean"
  | .int => "an integer"
  | .float => "a number"
  | .string => "a string"

/-- Whether a value is of the wire type. An integer is also a number. -/
def accepts : WireType → Json → Bool
  | .any, _ => true
  | .boolean, .bool _ => true
  | .int, .number (.integer _) => true
  | .float, .number _ => true
  | .string, .string _ => true
  | _, _ => false

end WireType

/-- A value that an application works with. -/
inductive RuntimeValue where
  | json (value : Json)
  | timestamp (instant : Timestamp)

def RuntimeValue.text : RuntimeValue → String
  | .json value => value.compact
  | .timestamp instant => Rfc3339.display instant

/-- Why a value cannot be converted. -/
inductive ScalarError where
  | unexpectedWire (scalar expected : String) (found : Json)
  | unexpectedRuntime (scalar : String) (found : RuntimeValue)
  | outOfRange (scalar message : String)
  | notCanonical (scalar found canonical : String)

def ScalarError.message : ScalarError → String
  | .unexpectedWire scalar expected found =>
      scalar ++ ": expected " ++ expected ++ ", got " ++ found.compact
  | .unexpectedRuntime scalar found =>
      scalar ++ ": runtime value " ++ found.text ++ " is not valid for this scalar"
  | .outOfRange scalar message => scalar ++ ": " ++ message
  | .notCanonical scalar found canonical =>
      scalar ++ ": \"" ++ found ++ "\" is not canonical, expected \"" ++ canonical ++ "\""

/-- A conversion between the two representations. -/
inductive Codec where
  /-- Values are left as they are. -/
  | passthrough
  /-- Values of a wire type are left as they are. -/
  | checked (wire : WireType)
  /-- Timestamps travel as milliseconds since 1970. -/
  | epochMillis
  /-- Timestamps travel as text in its shortest spelling in UTC. -/
  | rfc3339
deriving DecidableEq, Repr

namespace Codec

def isIdentity : Codec → Bool
  | .passthrough | .checked _ => true
  | .epochMillis | .rfc3339 => false

def marshal (codec : Codec) (scalar : String) (value : RuntimeValue) : Except ScalarError Json :=
  match codec, value with
  | .passthrough, .json found => .ok found
  | .checked wire, .json found =>
      if wire.accepts found then .ok found else .error (.unexpectedRuntime scalar value)
  | .epochMillis, .timestamp instant => .ok (.number (.integer instant.millis))
  | .rfc3339, .timestamp instant => .ok (.string (Rfc3339.canonical instant))
  | _, _ => .error (.unexpectedRuntime scalar value)

def readMillis (scalar : String) (wire : Json) : Except ScalarError RuntimeValue :=
  match wire.signed? with
  | none => .error (.unexpectedWire scalar "an integer of epoch milliseconds" wire)
  | some millis =>
      match Timestamp.ofMillis? millis with
      | some instant => .ok (.timestamp instant)
      | none => .error (.outOfRange scalar (toString millis ++ " is outside the representable range"))

/-- A timestamp from its text. Any other spelling than the shortest one in UTC is refused. -/
def readRfc3339 (scalar : String) (wire : Json) : Except ScalarError RuntimeValue :=
  match wire.string? with
  | none => .error (.unexpectedWire scalar "an RFC 3339 string" wire)
  | some text =>
      match Rfc3339.read text with
      | .error reason => .error (.outOfRange scalar reason.message)
      | .ok instant =>
          let canonical := Rfc3339.canonical instant
          if canonical = text then .ok (.timestamp instant)
          else .error (.notCanonical scalar text canonical)

def unmarshal (codec : Codec) (scalar : String) (wire : Json) : Except ScalarError RuntimeValue :=
  match codec with
  | .passthrough => .ok (.json wire)
  | .checked type =>
      if type.accepts wire then .ok (.json wire)
      else .error (.unexpectedWire scalar type.expected wire)
  | .epochMillis => readMillis scalar wire
  | .rfc3339 => readRfc3339 scalar wire

end Codec

/-- The conversions that a configuration can name. -/
inductive CodecName where
  | passthrough
  | epochMillis
  | rfc3339
deriving DecidableEq, Repr

namespace CodecName

def text : CodecName → String
  | .passthrough => "passthrough"
  | .epochMillis => "epoch_millis"
  | .rfc3339 => "rfc3339"

def all : List CodecName := [.passthrough, .epochMillis, .rfc3339]

def ofText? (word : String) : Option CodecName := all.find? fun name => name.text == word

def codec : CodecName → Codec
  | .passthrough => .passthrough
  | .epochMillis => .epochMillis
  | .rfc3339 => .rfc3339

def wireType : CodecName → WireType
  | .passthrough => .any
  | .epochMillis => .int
  | .rfc3339 => .string

end CodecName

/-- What is known about a scalar. -/
structure ScalarSpec where
  /-- The type of its values in an application. -/
  runtimeType : String
  wireType : WireType
  codec : Codec
deriving DecidableEq, Repr

namespace ScalarSpec

/-- A scalar with one of the conversions that a configuration can name. -/
def ofCodec (runtimeType : String) (name : CodecName) : ScalarSpec :=
  ⟨runtimeType, name.wireType, name.codec⟩

/-- A scalar whose values are checked and left as they are. -/
def checked (runtimeType : String) (wire : WireType) : ScalarSpec :=
  ⟨runtimeType, wire, .checked wire⟩

def builtin? (name : String) : Option ScalarSpec :=
  if name = "Boolean" then some (checked "boolean" .boolean)
  else if name = "Int" then some (checked "number" .int)
  else if name = "Float" then some (checked "number" .float)
  else if name = "String" ∨ name = "ID" then some (checked "string" .string)
  else none

def converts (spec : ScalarSpec) : Bool := !spec.codec.isIdentity

end ScalarSpec

end GraphqlStore
