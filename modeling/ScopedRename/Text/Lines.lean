import ScopedRename.Span
import ScopedRename.Text.Bytes

/-!
Byte offsets and line:column positions. Lines and columns count from one and columns count bytes. An offset is counted
back to the start of its line and down from the start of the text; a position is reached by passing over newlines.
-/

namespace ScopedRename

structure Position where
  line : Nat
  column : Nat
deriving DecidableEq, Repr, Inhabited

structure Lines where
  bytes : List UInt8
deriving DecidableEq, Repr

namespace Lines

def newline : UInt8 := 10

def ofText (text : String) : Lines := ⟨Text.encode text⟩

/-- The next number in 32 bits, which wraps around behind the largest. -/
def ordinal (count : Nat) : Nat := (UInt32.ofNat count + 1).toNat

variable (lines : Lines)

def start (offset : Nat) : Nat :=
  let before := lines.bytes.take offset
  before.length - before.reverse.idxOf newline

def stop (offset : Nat) : Nat := offset + (lines.bytes.drop offset).idxOf newline

def position (offset : Nat) : Position :=
  let offset := min offset lines.bytes.length
  ⟨ordinal ((lines.bytes.take offset).count newline), ordinal (offset - lines.start offset)⟩

def bounds (offset : Nat) : Span :=
  let offset := min offset lines.bytes.length
  ⟨lines.start offset, lines.stop offset⟩

def below? : Nat → Nat → Option Nat
  | 0, offset => some offset
  | count + 1, offset =>
    if newline ∈ lines.bytes.drop offset then below? count (lines.stop offset + 1) else none

/-- The byte offset of a position, if the line exists and reaches the column. The newline itself can be addressed, and
a line or column of zero counts as one. -/
def offset? (place : Position) : Option Nat := do
  let bounds := lines.bounds (← lines.below? (max place.line 1 - 1) 0)
  let offset := bounds.start + max place.column 1 - 1
  if bounds.stop < offset then none else some offset

def lineAt (text : String) (offset : Nat) : String :=
  (((ofText text).bounds offset).slice? text).getD ""

end Lines

end ScopedRename
