/-!
Texts and their UTF-8 bytes. Offsets count bytes, so cutting a text at an offset succeeds only where a character starts.
Bytes that are no text can still be shown as one.
-/

namespace ScopedRename.Text

/-- The characters before and after a byte offset, if the offset lies on a character boundary inside the text. -/
def splitAtByte : List Char → Nat → Option (List Char × List Char)
  | chars, 0 => some ([], chars)
  | [], _ + 1 => none
  | c :: rest, offset + 1 =>
    if c.utf8Size ≤ offset + 1 then
      (splitAtByte rest (offset + 1 - c.utf8Size)).map fun (before, after) => (c :: before, after)
    else
      none

def encode (text : String) : List UInt8 := text.toUTF8.data.toList

def replacement : Char := Char.ofNat 0xFFFD

def isContinuation (byte : UInt8) : Bool := 0x80 ≤ byte && byte ≤ 0xBF

def startsLong (first second : UInt8) : Bool :=
  if first == 0xE0 then 0xA0 ≤ second && second ≤ 0xBF
  else if first == 0xED then 0x80 ≤ second && second ≤ 0x9F
  else if first == 0xF0 then 0x90 ≤ second && second ≤ 0xBF
  else if first == 0xF4 then 0x80 ≤ second && second ≤ 0x8F
  else 0xE1 ≤ first && first ≤ 0xF3 && isContinuation second

/-- How many bytes are replaced at once where no character stands: those that a character could start with. -/
def brokenLength (first : UInt8) : List UInt8 → Nat
  | [] => 1
  | second :: rest =>
    if !startsLong first second then 1
    else if 0xF0 ≤ first && rest.head?.any isContinuation then 3
    else 2

/-- Reads bytes as characters. The number counts the bytes that still belong to the last one. -/
def decodeFrom : Nat → List UInt8 → List Char
  | _, [] => []
  | covered + 1, _ :: rest => decodeFrom covered rest
  | 0, first :: rest =>
    match (first :: rest).toByteArray.utf8DecodeChar? 0 with
    | some c => c :: decodeFrom (c.utf8Size - 1) rest
    | none => replacement :: decodeFrom (brokenLength first rest - 1) rest

def decode (bytes : List UInt8) : String := String.ofList (decodeFrom 0 bytes)

end ScopedRename.Text
