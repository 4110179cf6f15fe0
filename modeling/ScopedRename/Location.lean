import ScopedRename.Json
import ScopedRename.Text.Decimal
import ScopedRename.Text.Lines

/-! Locations in files, as callers write them and as results report them. -/

namespace ScopedRename

/-- A place in a file; the span is known when the place is a token. -/
structure Location where
  file : String
  position : Position
  span : Option Span := none
deriving DecidableEq, Repr

namespace Location

def splitAtLastColon (chars : List Char) : Option (List Char × List Char) :=
  match chars.reverse.span (· != ':') with
  | (_, []) => none
  | (tail, _ :: front) => some (front.reverse, tail.reverse)

def limit : Nat := 0x100000000

/-- Reads a file, line and column joined by colons. The file is not empty and may hold colons itself; line and column
are not zero. -/
def parse? (text : String) : Option Location := do
  let (front, columnText) ← splitAtLastColon text.toList
  let column ← Text.decimal? limit columnText
  let (file, lineText) ← splitAtLastColon front
  let line ← Text.decimal? limit lineText
  if file.isEmpty || line == 0 || column == 0 then none
  else some { file := String.ofList file, position := ⟨line, column⟩ }

def le (left right : Location) : Bool :=
  left.file < right.file
    || (left.file == right.file
      && (left.position.line < right.position.line
        || (left.position.line == right.position.line && left.position.column ≤ right.position.column)))

def json (location : Location) : JsonValue :=
  .record [
    ("file", some (.string location.file)),
    ("line", some (.natural location.position.line)),
    ("col", some (.natural location.position.column)),
    ("byte_start", location.span.map fun span => .natural span.start),
    ("byte_end", location.span.map fun span => .natural span.stop)]

end Location

namespace Span

def json (span : Span) : JsonValue := .object [("start", .natural span.start), ("end", .natural span.stop)]

end Span

end ScopedRename
