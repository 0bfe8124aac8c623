/-!
The SHA-256 digest of a text: the text is padded to whole blocks of 64 bytes,
each block is mixed into eight words, and the words are written in base
sixteen.
-/

set_option autoImplicit false

namespace GraphqlStore.Digest

/-- The eight words that a block is mixed into. -/
structure Words where
  a : UInt32
  b : UInt32
  c : UInt32
  d : UInt32
  e : UInt32
  f : UInt32
  g : UInt32
  h : UInt32
deriving DecidableEq

/-- The words to begin with: the first bits of the fractions of the square roots of the first eight
primes. -/
def Words.initial : Words :=
  ⟨0x6a09e667, 0xbb67ae85, 0x3c6ef372, 0xa54ff53a,
    0x510e527f, 0x9b05688c, 0x1f83d9ab, 0x5be0cd19⟩

/-- One constant a round: the first bits of the fractions of the cube roots of the first primes. -/
def roundConstants : List UInt32 :=
  [ 0x428a2f98, 0x71374491, 0xb5c0fbcf, 0xe9b5dba5, 0x3956c25b, 0x59f111f1,
    0x923f82a4, 0xab1c5ed5, 0xd807aa98, 0x12835b01, 0x243185be, 0x550c7dc3,
    0x72be5d74, 0x80deb1fe, 0x9bdc06a7, 0xc19bf174, 0xe49b69c1, 0xefbe4786,
    0x0fc19dc6, 0x240ca1cc, 0x2de92c6f, 0x4a7484aa, 0x5cb0a9dc, 0x76f988da,
    0x983e5152, 0xa831c66d, 0xb00327c8, 0xbf597fc7, 0xc6e00bf3, 0xd5a79147,
    0x06ca6351, 0x14292967, 0x27b70a85, 0x2e1b2138, 0x4d2c6dfc, 0x53380d13,
    0x650a7354, 0x766a0abb, 0x81c2c92e, 0x92722c85, 0xa2bfe8a1, 0xa81a664b,
    0xc24b8b70, 0xc76c51a3, 0xd192e819, 0xd6990624, 0xf40e3585, 0x106aa070,
    0x19a4c116, 0x1e376c08, 0x2748774c, 0x34b0bcb5, 0x391c0cb3, 0x4ed8aa4a,
    0x5b9cca4f, 0x682e6ff3, 0x748f82ee, 0x78a5636f, 0x84c87814, 0x8cc70208,
    0x90befffa, 0xa4506ceb, 0xbef9a3f7, 0xc67178f2 ]

def rotateRight (word amount : UInt32) : UInt32 := (word >>> amount) ||| (word <<< (32 - amount))

/-- The word of four bytes, the highest first. -/
def wordOfBytes (first second third fourth : UInt8) : UInt32 :=
  (first.toUInt32 <<< 24) ||| (second.toUInt32 <<< 16) ||| (third.toUInt32 <<< 8) ||| fourth.toUInt32

def wordsOf : List UInt8 → List UInt32
  | first :: second :: third :: fourth :: rest =>
      wordOfBytes first second third fourth :: wordsOf rest
  | _ => []

/-- Extends the words of a block by as many words as asked, each from words before it. -/
def extend : Nat → Array UInt32 → Array UInt32
  | 0, words => words
  | count + 1, words =>
      let back (distance : Nat) : UInt32 := words.getD (words.size - distance) 0
      let low := rotateRight (back 15) 7 ^^^ rotateRight (back 15) 18 ^^^ (back 15 >>> 3)
      let high := rotateRight (back 2) 17 ^^^ rotateRight (back 2) 19 ^^^ (back 2 >>> 10)
      extend count (words.push (back 16 + low + back 7 + high))

def Words.round (words : Words) (constant word : UInt32) : Words :=
  let high := rotateRight words.e 6 ^^^ rotateRight words.e 11 ^^^ rotateRight words.e 25
  let choice := (words.e &&& words.f) ^^^ (~~~words.e &&& words.g)
  let first := words.h + high + choice + constant + word
  let low := rotateRight words.a 2 ^^^ rotateRight words.a 13 ^^^ rotateRight words.a 22
  let majority := (words.a &&& words.b) ^^^ (words.a &&& words.c) ^^^ (words.b &&& words.c)
  ⟨first + (low + majority), words.a, words.b, words.c, words.d + first, words.e, words.f, words.g⟩

def Words.mixBlock (words : Words) (block : List UInt8) : Words :=
  let schedule := (extend 48 (wordsOf block).toArray).toList
  let mixed := (roundConstants.zip schedule).foldl (fun state pair => state.round pair.1 pair.2) words
  ⟨words.a + mixed.a, words.b + mixed.b, words.c + mixed.c, words.d + mixed.d,
    words.e + mixed.e, words.f + mixed.f, words.g + mixed.g, words.h + mixed.h⟩

/-- A number as eight bytes, the highest first. -/
def eightBytes (number : Nat) : List UInt8 :=
  (List.range 8).map fun place => UInt8.ofNat (number / Nat.pow 256 (7 - place))

/-- The bytes after the text: a set bit, zeros up to a whole block, and the length in bits. -/
def padding (length : Nat) : List UInt8 :=
  0x80 :: List.replicate ((119 - length % 64) % 64) 0 ++ eightBytes (8 * length)

def mixBlocks : Nat → List UInt8 → Words → Words
  | 0, _, words => words
  | count + 1, bytes, words => mixBlocks count (bytes.drop 64) (words.mixBlock (bytes.take 64))

def wordText (word : UInt32) : String :=
  String.ofList ((List.range 8).map fun place => Nat.digitChar (word.toNat / Nat.pow 16 (7 - place) % 16))

/-- The digest of some bytes, in base sixteen. -/
def sha256 (bytes : List UInt8) : String :=
  let padded := bytes ++ padding bytes.length
  let words := mixBlocks (padded.length / 64) padded Words.initial
  String.join ([words.a, words.b, words.c, words.d, words.e, words.f, words.g, words.h].map wordText)

def sha256Text (text : String) : String := sha256 text.toUTF8.toList

end GraphqlStore.Digest
