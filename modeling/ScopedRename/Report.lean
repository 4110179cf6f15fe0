import ScopedRename.Analysis

/-! Reports on analysed texts: what a command prints about declarations, references, renames and batches. -/

namespace ScopedRename

structure SymbolReport where
  id : String
  name : String
  kind : String
  location : Location
  /-- Names of the scopes around it, joined by dots. -/
  container : Option String := none
deriving DecidableEq, Repr

namespace SymbolReport

def within (symbol : SymbolReport) (container : String) : SymbolReport :=
  { symbol with container := if container.isEmpty then none else some container }

def fields (symbol : SymbolReport) : List (String × Option JsonValue) := [
  ("id", some (.string symbol.id)),
  ("name", some (.string symbol.name)),
  ("kind", some (.string symbol.kind)),
  ("location", some symbol.location.json),
  ("container", symbol.container.map .string)]

def json (symbol : SymbolReport) : JsonValue := .record symbol.fields

end SymbolReport

structure DeclarationReport where
  symbol : SymbolReport
  declaredType : Option DeclaredType
  arity : Option Arity
deriving DecidableEq, Repr

namespace DeclarationReport

def json (declaration : DeclarationReport) : JsonValue :=
  .record (declaration.symbol.fields ++ [
    ("type_name", declaration.declaredType.map fun type => .string type.render),
    ("arity", declaration.arity.map fun arity => .natural arity.count),
    ("variadic", if declaration.arity.any (·.variadic) then some (.bool true) else none)])

end DeclarationReport

structure ReferenceReport where
  name : String
  location : Location
  resolution : Resolution
deriving DecidableEq, Repr

namespace ReferenceReport

def json (reference : ReferenceReport) : JsonValue :=
  let targets := reference.resolution.targets
  .record [
    ("name", some (.string reference.name)),
    ("location", some reference.location.json),
    ("resolution", some (.string reference.resolution.word)),
    ("targets", if targets.isEmpty then none else some (.array (targets.map .string)))]

end ReferenceReport

/-- An outer declaration that an accepted rename hides. -/
structure Warning where
  newName : String
  hidden : DeclarationKind
  location : Location
deriving DecidableEq, Repr

namespace Warning

def message (warning : Warning) : String :=
  "'" ++ warning.newName ++ "' hides the " ++ warning.hidden.name ++ " declared at line "
    ++ toString warning.location.position.line

def json (warning : Warning) : JsonValue :=
  .object [
    ("code", .string "shadows_outer"),
    ("message", .string warning.message),
    ("location", warning.location.json)]

end Warning

namespace Analysis

variable (analysis : Analysis)

def locationOf (file : String) (position : Nat) : Location :=
  let span := analysis.layout.span position
  { file, position := analysis.lines.position span.start, span := some span }

def symbol? (file : String) (id : DeclarationId) : Option SymbolReport :=
  (analysis.bound.outline.declaration? id).map fun declaration =>
    SymbolReport.within
      { id := DeclarationId.label id, name := declaration.name, kind := declaration.kind.name
        location := analysis.locationOf file declaration.position }
      (".".intercalate (analysis.bound.outline.path declaration.scope))

def declarationReports (file : String) : List DeclarationReport :=
  analysis.bound.outline.declarationIds.filterMap fun id => do
    let declaration ← analysis.bound.outline.declaration? id
    let symbol ← analysis.symbol? file id
    return ⟨symbol, declaration.declaredType, declaration.arity⟩

def referenceReports (file : String) : List ReferenceReport :=
  analysis.bound.references.toList.map fun reference =>
    ⟨reference.name, analysis.locationOf file reference.position, reference.resolution⟩

def warnings (file : String) (plan : RenamePlan) : List Warning :=
  match plan.verdict with
  | .clear => []
  | .shadowsOuter declarations => declarations.filterMap fun id =>
    (analysis.bound.outline.declaration? id).map fun outer =>
      ⟨plan.newName, outer.kind, analysis.locationOf file outer.position⟩

def response (file : String) : JsonValue :=
  .object [
    ("status", .string "ok"),
    ("schema_version", .string "1"),
    ("file", .string file),
    ("declarations", .array ((analysis.declarationReports file).map DeclarationReport.json)),
    ("references", .array ((analysis.referenceReports file).map ReferenceReport.json))]

end Analysis

structure RenameReport where
  file : String
  /-- The renamed declaration, under its old name. -/
  symbol : SymbolReport
  newName : String
  patch : Patch
  warnings : List Warning
  /-- The new text was written to the file. -/
  written : Bool
deriving DecidableEq, Repr

namespace RenameReport

def json (report : RenameReport) : JsonValue :=
  .record [
    ("status", some (.string "ok")),
    ("schema_version", some (.string "1")),
    ("file", some (.string report.file)),
    ("symbol", some report.symbol.json),
    ("new_name", some (.string report.newName)),
    ("patch", some report.patch.json),
    ("summary", some report.patch.summary.json),
    ("warnings", if report.warnings.isEmpty then none else some (.array (report.warnings.map Warning.json))),
    ("written", some (.bool report.written))]

end RenameReport

inductive FileOutcome where
  | renamed (summary : Summary)
  | unchanged
  | skipped
  | failed (failure : Failure)

namespace FileOutcome

def word : FileOutcome → String
  | .renamed _ => "renamed"
  | .unchanged => "unchanged"
  | .skipped => "skipped"
  | .failed _ => "failed"

def isRenamed : FileOutcome → Bool
  | .renamed _ => true
  | _ => false

def isSkipped : FileOutcome → Bool
  | .skipped => true
  | _ => false

def isFailed : FileOutcome → Bool
  | .failed _ => true
  | _ => false

end FileOutcome

structure FileReport where
  file : String
  outcome : FileOutcome

namespace FileReport

def json (report : FileReport) : JsonValue :=
  .record [
    ("file", some (.string report.file)),
    ("outcome", some (.string report.outcome.word)),
    ("summary", match report.outcome with
      | .renamed summary => some summary.json
      | _ => none),
    ("error", match report.outcome with
      | .failed failure => some failure.json
      | _ => none)]

end FileReport

structure BatchReport where
  files : List FileReport

namespace BatchReport

variable (report : BatchReport)

/-- How many files passed the test, in 32 bits. -/
def count (test : FileOutcome → Bool) : UInt32 :=
  UInt32.ofNat (report.files.filter fun file => test file.outcome).length

def renamed : UInt32 := report.count FileOutcome.isRenamed

def skipped : UInt32 := report.count FileOutcome.isSkipped

def failed : UInt32 := report.count FileOutcome.isFailed

def status : String := if report.failed = 0 then "ok" else "partial"

def json : JsonValue :=
  .object [
    ("status", .string report.status),
    ("schema_version", .string "1"),
    ("files", .array (report.files.map FileReport.json)),
    ("renamed", .natural report.renamed.toNat),
    ("skipped", .natural report.skipped.toNat),
    ("failed", .natural report.failed.toNat)]

end BatchReport

end ScopedRename
