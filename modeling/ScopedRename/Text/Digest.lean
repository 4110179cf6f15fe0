import ScopedRename.Text.Bytes

/-!
The SHA-256 digest of a text. A plan keeps the digest of the text it was made for, so that it is never applied to
another revision.
-/

namespace ScopedRename.Digest

/-- Fractional parts of the cube roots of the first 64 primes. -/
def roundConstants : Array UInt32 := #[
  0x428a2f98, 0x71374491, 0xb5c0fbcf, 0xe9b5dba5, 0x3956c25b, 0x59f111f1, 0x923f82a4, 0xab1c5ed5,
  0xd807aa98, 0x12835b01, 0x243185be, 0x550c7dc3, 0x72be5d74, 0x80deb1fe, 0x9bdc06a7, 0xc19bf174,
  0xe49b69c1, 0xefbe4786, 0x0fc19dc6, 0x240ca1cc, 0x2de92c6f, 0x4a7484aa, 0x5cb0a9dc, 0x76f988da,
  0x983e5152, 0xa831c66d, 0xb00327c8, 0xbf597fc7, 0xc6e00bf3, 0xd5a79147, 0x06ca6351, 0x14292967,
  0x27b70a85, 0x2e1b2138, 0x4d2c6dfc, 0x53380d13, 0x650a7354, 0x766a0abb, 0x81c2c92e, 0x92722c85,
  0xa2bfe8a1, 0xa81a664b, 0xc24b8b70, 0xc76c51a3, 0xd192e819, 0xd6990624, 0xf40e3585, 0x106aa070,
  0x19a4c116, 0x1e376c08, 0x2748774c, 0x34b0bcb5, 0x391c0cb3, 0x4ed8aa4a, 0x5b9cca4f, 0x682e6ff3,
  0x748f82ee, 0x78a5636f, 0x84c87814, 0x8cc70208, 0x90befffa, 0xa4506ceb, 0xbef9a3f7, 0xc67178f2]

structure State where
  a : UInt32
  b : UInt32
  c : UInt32
  d : UInt32
  e : UInt32
  f : UInt32
  g : UInt32
  h : UInt32

namespace State

/-- Fractional parts of the square roots of the first eight primes. -/
def initial : State :=
  ⟨0x6a09e667, 0xbb67ae85, 0x3c6ef372, 0xa54ff53a, 0x510e527f, 0x9b05688c, 0x1f83d9ab, 0x5be0cd19⟩

def add (left right : State) : State :=
  ⟨left.a + right.a, left.b + right.b, left.c + right.c, left.d + right.d,
    left.e + right.e, left.f + right.f, left.g + right.g, left.h + right.h⟩

def words (state : State) : List UInt32 :=
  [state.a, state.b, state.c, state.d, state.e, state.f, state.g, state.h]

end State

def rotateRight (word amount : UInt32) : UInt32 := (word >>> amount) ||| (word <<< (32 - amount))

/-- The message followed by a one bit, zeros to the end of a block less eight bytes, and its length in bits. -/
def pad (message : ByteArray) : ByteArray :=
  let size := message.size
  let zeros := List.replicate ((119 - size % 64) % 64) (0 : UInt8)
  let bits := size * 8
  let length := (List.range 8).map fun i => UInt8.ofNat (bits >>> (8 * (7 - i)))
  ((0x80 :: zeros) ++ length).foldl ByteArray.push message

def wordAt (bytes : ByteArray) (start : Nat) : UInt32 :=
  (List.range 4).foldl (fun word i => (word <<< 8) ||| ((bytes[start + i]?).getD 0).toUInt32) 0

def schedule (bytes : ByteArray) (start : Nat) : Array UInt32 :=
  let block := (Array.range 16).map fun i => wordAt bytes (start + 4 * i)
  (List.range 48).foldl (fun words i =>
    let early := words.getD (i + 1) 0
    let late := words.getD (i + 14) 0
    let mixEarly := rotateRight early 7 ^^^ rotateRight early 18 ^^^ (early >>> 3)
    let mixLate := rotateRight late 17 ^^^ rotateRight late 19 ^^^ (late >>> 10)
    words.push (words.getD i 0 + mixEarly + words.getD (i + 9) 0 + mixLate)) block

def round (words : Array UInt32) (state : State) (i : Nat) : State :=
  let spread := rotateRight state.e 6 ^^^ rotateRight state.e 11 ^^^ rotateRight state.e 25
  let choice := (state.e &&& state.f) ^^^ (~~~state.e &&& state.g)
  let first := state.h + spread + choice + roundConstants.getD i 0 + words.getD i 0
  let fold := rotateRight state.a 2 ^^^ rotateRight state.a 13 ^^^ rotateRight state.a 22
  let majority := (state.a &&& state.b) ^^^ (state.a &&& state.c) ^^^ (state.b &&& state.c)
  ⟨first + (fold + majority), state.a, state.b, state.c, state.d + first, state.e, state.f, state.g⟩

def compress (bytes : ByteArray) (state : State) (block : Nat) : State :=
  let words := schedule bytes (64 * block)
  state.add ((List.range 64).foldl (round words) state)

def hexDigit (value : UInt32) : Char := (Nat.toDigits 16 value.toNat).headD '0'

def hexWord (word : UInt32) : List Char :=
  (List.range 8).map fun i => hexDigit ((word >>> UInt32.ofNat (4 * (7 - i))) &&& 0xf)

def hex (message : ByteArray) : String :=
  let bytes := pad message
  let state := (List.range (bytes.size / 64)).foldl (compress bytes) State.initial
  String.ofList (state.words.flatMap hexWord)

end ScopedRename.Digest

namespace ScopedRename

structure ContentHash where
  hex : String
deriving DecidableEq, Repr, Inhabited

namespace ContentHash

def ofText (text : String) : ContentHash := ⟨Digest.hex text.toUTF8⟩

/-- The first twelve bytes, enough to tell revisions apart in a message. A hash that a caller made up may have a
character across the twelfth byte, and then there is no cutting it. -/
def short? (hash : ContentHash) : Option String :=
  (Text.splitAtByte hash.hex.toList (min hash.hex.utf8ByteSize 12)).map fun (head, _) => String.ofList head

end ContentHash

end ScopedRename
