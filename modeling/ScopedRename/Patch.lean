import ScopedRename.Location

/-! What a rename changes, as edits of a file and as a unified diff with a hunk for each changed line. -/

namespace ScopedRename

structure Edit where
  file : String
  span : Span
  oldText : String
  newText : String
  position : Position
deriving DecidableEq, Repr

namespace Edit

def json (edit : Edit) : JsonValue :=
  .object [
    ("file", .string edit.file),
    ("span", edit.span.json),
    ("old_text", .string edit.oldText),
    ("new_text", .string edit.newText),
    ("line", .natural edit.position.line),
    ("col", .natural edit.position.column)]

end Edit

structure Summary where
  edits : UInt32
  bytesAdded : Nat
  bytesRemoved : Nat
deriving DecidableEq, Repr

namespace Summary

def json (summary : Summary) : JsonValue :=
  .object [
    ("edits_count", .natural summary.edits.toNat),
    ("bytes_added", .natural summary.bytesAdded),
    ("bytes_removed", .natural summary.bytesRemoved)]

end Summary

structure Patch where
  edits : List Edit
  diff : String
deriving DecidableEq, Repr

namespace Patch

def summary (patch : Patch) : Summary where
  edits := UInt32.ofNat patch.edits.length
  bytesAdded := patch.edits.foldr (fun edit total => edit.newText.utf8ByteSize + total) 0
  bytesRemoved := patch.edits.foldr (fun edit total => edit.oldText.utf8ByteSize + total) 0

def byteDelta (patch : Patch) : Int :=
  patch.edits.foldr (fun edit total => (edit.newText.utf8ByteSize : Int) - edit.oldText.utf8ByteSize + total) 0

def json (patch : Patch) : JsonValue :=
  .object [("edits", .array (patch.edits.map Edit.json)), ("unified_diff", .string patch.diff)]

end Patch

structure Hunk where
  line : Nat
  before : String
  after : String
deriving DecidableEq, Repr

namespace Hunk

def render (hunk : Hunk) : String :=
  let number := toString hunk.line
  "@@ -" ++ number ++ ",1 +" ++ number ++ ",1 @@\n-" ++ hunk.before ++ "\n+" ++ hunk.after ++ "\n"

end Hunk

namespace Diff

/-- The rest of a line from `cursor` to `stop` with the edits made, in order. An edit that overlaps the one before or
leaves the line is left out. -/
def editedLine (source : String) (stop : Nat) : Nat → List Edit → String
  | cursor, [] => ((Span.mk cursor stop).slice? source).getD ""
  | cursor, edit :: rest =>
    if edit.span.start < cursor || stop < edit.span.stop then editedLine source stop cursor rest
    else
      ((Span.mk cursor edit.span.start).slice? source).getD "" ++ edit.newText
        ++ editedLine source stop edit.span.stop rest

def hunk? (source : String) (lines : Lines) (line : Nat) (edits : List Edit) : Option Hunk :=
  match edits.mergeSort fun left right => left.span.start ≤ right.span.start with
  | [] => none
  | first :: rest =>
    let bounds := lines.bounds first.span.start
    some ⟨line, (bounds.slice? source).getD "", editedLine source bounds.stop bounds.start (first :: rest)⟩

/-- The hunks of edits to one text, a hunk for each line, in order. -/
def hunks (source : String) (edits : List Edit) : List Hunk :=
  let lines := Lines.ofText source
  ((edits.map (·.position.line)).mergeSort).eraseDups.filterMap fun line =>
    hunk? source lines line (edits.filter (·.position.line == line))

def unified (file source : String) (edits : List Edit) : String :=
  match hunks source (edits.filter (·.file == file)) with
  | [] => ""
  | changed => "--- a/" ++ file ++ "\n+++ b/" ++ file ++ "\n" ++ String.join (changed.map Hunk.render)

end Diff

end ScopedRename
