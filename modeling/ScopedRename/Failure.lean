import ScopedRename.Token.Lexer
import ScopedRename.Plan.Apply

/-!
What can go wrong, at two levels. A `RenameError` is the cause found while analysing a text, planning a rename or
carrying it out; a `Failure` is what a command reports, with the exit code that belongs to it.
-/

namespace ScopedRename

/-- The points at which a run asks whether it was cancelled. -/
inductive Stage where
  | lex
  | plan
deriving DecidableEq, Repr

namespace Stage

def name : Stage → String
  | .lex => "lex"
  | .plan => "plan"

end Stage

inductive RenameError where
  | lex (error : LexError)
  | structural (fault : BracketFault)
  | refused (refusal : Refusal Span)
  | stalePlan (staleness : Staleness)
  | cancelled (stage : Stage)
  /-- No error that a caller gets to see: the program stops. -/
  | crash
deriving DecidableEq, Repr

namespace RenameError

def ofApply : ApplyError → RenameError
  | .stale staleness => .stalePlan staleness
  | .crash => .crash

private def conflictText (name : String) (conflict : Span) : String :=
  "renaming to '" ++ name ++ "' conflicts with the declaration at " ++ conflict.render

def message : RenameError → String
  | .lex error => "lex error: " ++ error.message
  | .structural fault => "structural parse error: " ++ fault.message
  | .refused (.notFound locator) => "no declaration matches " ++ locator
  | .refused (.ambiguousReference places) =>
    toString places.length ++ " reference(s) cannot be pinned to a single declaration"
  | .refused (.ambiguousDeclaration locator places) =>
    toString places.length ++ " declarations match " ++ locator
  | .refused (.nameConflict name conflict) => conflictText name conflict
  | .refused (.invalidName name fault) => "invalid name '" ++ name ++ "': " ++ fault.reason
  | .stalePlan staleness => "stale rename plan: " ++ staleness.reason
  | .cancelled stage => "cancelled before the " ++ stage.name ++ " stage"
  | .crash => "stopped"

def offset? : RenameError → Option Nat
  | .lex error => some error.offset
  | .structural fault => some fault.place
  | _ => none

def spans : RenameError → List Span
  | .refused refusal => refusal.places
  | _ => []

def isNotFound : RenameError → Bool
  | .refused (.notFound _) => true
  | _ => false

end RenameError

inductive Failure where
  | invalidArguments (message : String) (details : Option JsonValue)
  | invalidIdentifier (name reason : String)
  | unparsable (message : String) (offset : Nat)
  | declarationNotFound (locator : String)
  | ambiguous (what : String) (spans : List Span)
  | nameConflict (name : String) (conflict : Span)
  | fileNotFound (path : String)
  | notApplied (message : String) (file : Option String)
  | internal (message : String)
  /-- The program stopped without a report. -/
  | crash
deriving Inhabited

namespace Failure

def message : Failure → String
  | .invalidArguments message _ => "invalid arguments: " ++ message
  | .invalidIdentifier name reason => "invalid identifier '" ++ name ++ "': " ++ reason
  | .unparsable message offset => "parse error at byte " ++ toString offset ++ ": " ++ message
  | .declarationNotFound locator => "declaration not found: " ++ locator
  | .ambiguous what spans => "ambiguous " ++ what ++ ": " ++ toString spans.length ++ " candidate span(s)"
  | .nameConflict name conflict =>
    "renaming to '" ++ name ++ "' conflicts with the declaration at " ++ conflict.render
  | .fileNotFound path => "file not found: " ++ path
  | .notApplied message _ => "apply error: " ++ message
  | .internal message => "internal error: " ++ message
  | .crash => "stopped"

/-- Exit codes: 2 for bad arguments, 3 for what was not found or not unique, 4 for failed writes and stale plans, 5 for
texts that cannot be read, 6 for name conflicts, 101 for a crash, 10 for the rest. -/
def exitCode : Failure → Nat
  | .invalidArguments .. | .invalidIdentifier .. => 2
  | .declarationNotFound _ | .ambiguous .. | .fileNotFound _ => 3
  | .notApplied .. => 4
  | .unparsable .. => 5
  | .nameConflict .. => 6
  | .internal _ => 10
  | .crash => 101

private def spanDetails (span : Span) : JsonValue :=
  .object [("end", .natural span.stop), ("start", .natural span.start)]

def details : Failure → Option JsonValue
  | .invalidArguments _ details => details.map JsonValue.canonical
  | .invalidIdentifier name reason => some (.object [("name", .string name), ("reason", .string reason)])
  | .unparsable _ offset => some (.object [("offset", .natural offset)])
  | .declarationNotFound locator => some (.object [("locator", .string locator)])
  | .ambiguous what spans =>
    some (.object [("kind", .string what), ("spans", .array (spans.map spanDetails))])
  | .nameConflict name conflict =>
    some (.object [("conflict", spanDetails conflict), ("name", .string name)])
  | .fileNotFound path => some (.object [("path", .string path)])
  | .notApplied _ file => file.map fun file => .object [("file", .string file)]
  | .internal _ | .crash => none

def json (failure : Failure) : JsonValue :=
  .record [
    ("code", some (.natural failure.exitCode)),
    ("message", some (.string failure.message)),
    ("details", failure.details)]

def response (failure : Failure) : JsonValue :=
  .object [("status", .string "error"), ("schema_version", .string "1"), ("error", failure.json)]

def ofError : RenameError → Failure
  | .lex error => .unparsable error.message error.offset
  | .structural fault => .unparsable fault.message fault.place
  | .refused (.notFound locator) => .declarationNotFound locator
  | .refused (.ambiguousReference places) => .ambiguous "reference" places
  | .refused (.ambiguousDeclaration _ places) => .ambiguous "declaration" places
  | .refused (.nameConflict name conflict) => .nameConflict name conflict
  | .refused (.invalidName name fault) => .invalidIdentifier name fault.reason
  | .stalePlan staleness => .notApplied staleness.reason none
  | .cancelled stage => .internal ("cancelled before the " ++ stage.name ++ " stage")
  | .crash => .crash

end Failure

end ScopedRename
