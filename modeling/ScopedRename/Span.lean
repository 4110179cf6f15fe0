import ScopedRename.Text.Bytes

/-! Half-open byte ranges of a source text. Adjacent tokens share a boundary and do not overlap. -/

namespace ScopedRename

/-- The bytes from `start` up to, and without, `stop`. -/
structure Span where
  start : Nat
  stop : Nat
deriving DecidableEq, Repr, Inhabited

namespace Span

def length (span : Span) : Nat := span.stop - span.start

def isEmpty (span : Span) : Bool := span.start == span.stop

def contains (span : Span) (offset : Nat) : Bool := span.start ≤ offset && offset < span.stop

def encloses (span other : Span) : Bool := span.start ≤ other.start && other.stop ≤ span.stop

def overlaps (span other : Span) : Bool := span.start < other.stop && other.start < span.stop

def le (span other : Span) : Bool :=
  span.start < other.start || (span.start == other.start && span.stop ≤ other.stop)

/-- Puts a span in its place among others that are in order, each once. -/
def insert (span : Span) : List Span → List Span
  | [] => [span]
  | other :: rest =>
    if span = other then other :: rest
    else if span.le other then span :: other :: rest
    else other :: insert span rest

def sort (spans : List Span) : List Span := spans.foldr insert []

/-- The text at the span, if both ends lie on character boundaries of the text. -/
def slice? (span : Span) (text : String) : Option String := do
  if span.stop < span.start then none
  let (_, after) ← Text.splitAtByte text.toList span.start
  let (inside, _) ← Text.splitAtByte after span.length
  return String.ofList inside

def render (span : Span) : String :=
  "[" ++ toString span.start ++ ", " ++ toString span.stop ++ ")"

end Span

end ScopedRename
