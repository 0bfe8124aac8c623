/-!
Texts as bytes. A byte that belongs to no character does not spoil the
characters around it: it stands between them as a symbol of its own.
-/

set_option autoImplicit false

namespace GraphqlStore.Text

/-- A character of a text; nothing stands for a byte that belongs to no character. -/
abbrev Symbol := Option Char

def symbols (text : String) : List Symbol := text.toList.map some

def symbolsFrom (bytes : ByteArray) (index : Nat) : List Symbol :=
  if index < bytes.size then
    match bytes.utf8DecodeChar? index with
    | some c => some c :: symbolsFrom bytes (index + c.utf8Size)
    | none => none :: symbolsFrom bytes (index + 1)
  else []
termination_by bytes.size - index
decreasing_by
  · have positive := c.utf8Size_pos
    omega
  · omega

def symbolsOfBytes (bytes : ByteArray) : List Symbol := symbolsFrom bytes 0

end GraphqlStore.Text
