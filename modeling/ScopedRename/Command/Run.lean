import ScopedRename.Command.Target
import ScopedRename.Files.Host
import ScopedRename.Report

/-! The commands: rename in one file, list a file, rename in every matching file below a directory. -/

namespace ScopedRename

namespace Host

variable {Tree Pattern : Type} (host : Host Tree Pattern)

def readFailure (path : FilePath) (trouble : Trouble) : Failure :=
  if trouble.isMissing then .fileNotFound path.display else .internal ("IO error: " ++ trouble.message)

def writeFailure (path : FilePath) (trouble : Trouble) : Failure := .notApplied trouble.message (some path.display)

def readSource (tree : Tree) (path : FilePath) : Except Failure String :=
  (host.read tree path).mapError (readFailure path)

def writeSource (tree : Tree) (path : FilePath) (text : String) : Except Failure Tree :=
  (host.replace tree path text).mapError (writeFailure path)

def defaultInclude : String := "**/*.java"

def selection (includes : List String) : Except Failure (FilePath → Bool) := do
  let patterns ← (if includes.isEmpty then [defaultInclude] else includes).mapM fun pattern =>
    (host.readPattern pattern).mapError fun fault =>
      .invalidArguments ("invalid include pattern '" ++ pattern ++ "': " ++ fault) none
  (host.matcher patterns).mapError fun fault => .invalidArguments ("invalid include patterns: " ++ fault) none

def selected? (root : FilePath) (accepts : FilePath → Bool) : Option WalkEntry → Option FilePath
  | some entry =>
    if entry.isFile && (FilePath.below? root entry.path).any accepts then some entry.path else none
  | none => none

def collect (tree : Tree) (root : FilePath) (includes : List String) : Except Failure (List FilePath) := do
  if !host.isDirectory tree root then throw (.fileNotFound root.display)
  let accepts ← host.selection includes
  return ((host.walk tree root).filterMap (selected? root accepts)).mergeSort FilePath.le

end Host

structure RenameRun where
  text : String
  report : RenameReport

namespace Command

variable {Tree Pattern : Type} (host : Host Tree Pattern)

def rename (tree : Tree) (path : FilePath) (target : Target) (newName : String) (options : RenameOptions)
    (inPlace : Bool) : Except Failure (RenameRun × Tree) := do
  let source ← host.readSource tree path
  let file := path.display
  let locator ← target.locator source
  let context : RenameContext := { options }
  let analysis ← (context.analyze source).mapError Failure.ofError
  let plan ← (context.plan analysis locator newName).mapError Failure.ofError
  let text ← (analysis.apply plan).mapError Failure.ofError
  let patch ← (analysis.patch file plan).mapError Failure.ofError
  match analysis.symbol? file plan.target with
  | none => throw (.internal ("planned " ++ DeclarationId.label plan.target ++ " is missing"))
  | some symbol =>
    let written := inPlace && text != source
    let after ← if written then host.writeSource tree path text else pure tree
    let report : RenameReport :=
      { file, symbol, newName, patch, warnings := analysis.warnings file plan, written }
    return (⟨text, report⟩, after)

def analyze (tree : Tree) (path : FilePath) : Except Failure JsonValue := do
  let source ← host.readSource tree path
  let analysis ← (RenameContext.analyze {} source).mapError Failure.ofError
  return analysis.response path.display

structure BatchRequest where
  scopes : String
  kind : DeclarationKind
  name : String
  type : Option String
  newName : String
  includes : List String
  inPlace : Bool
deriving DecidableEq, Repr

def BatchRequest.locator (request : BatchRequest) : Locator :=
  .ofPath request.scopes request.kind request.name request.type

/-- A file's label in a batch: its path below the root as it is shown, with slashes for backslashes. -/
def label (root path : FilePath) : String :=
  let shown := ((FilePath.below? root path).getD path).display
  String.ofList (shown.toList.map fun c => if c == '\\' then '/' else c)

def job? (request : BatchRequest) : String × Except Failure String → Option RenameJob
  | (label, .ok source) => some { label, source, locator := request.locator, newName := request.newName }
  | (_, .error _) => none

def unread? : String × Except Failure String → Option FileReport
  | (_, .ok _) => none
  | (label, .error failure) => some ⟨label, .failed failure⟩

/-- Settles one file after its rename was tried: reports it and, if asked, writes it. -/
def settle (root : FilePath) (inPlace : Bool) (tree : Tree) (outcome : JobOutcome) : FileOutcome × Tree :=
  let job := outcome.job
  match outcome.result with
  | .error error => (if error.isNotFound then .skipped else .failed (.ofError error), tree)
  | .ok renamed =>
    if renamed.text == job.source then (.unchanged, tree)
    else
      match (renamed.plan.patch job.label job.source).mapError fun error => Failure.ofError (.ofApply error) with
      | .error failure => (.failed failure, tree)
      | .ok patch =>
        if inPlace then
          match host.writeSource tree (FilePath.join root (.ofText job.label)) renamed.text with
          | .ok after => (.renamed patch.summary, after)
          | .error failure => (.failed failure, tree)
        else
          (.renamed patch.summary, tree)

def settleAll (root : FilePath) (inPlace : Bool) (tree : Tree) : List JobOutcome → List FileReport × Tree
  | [] => ([], tree)
  | outcome :: rest =>
    let (result, after) := settle host root inPlace tree outcome
    let (reports, final) := settleAll root inPlace after rest
    (⟨outcome.job.label, result⟩ :: reports, final)

/-- Renames a declaration path in every matching file below a directory. Files without it are skipped, and a file that
fails does not stop the others. -/
def batch (tree : Tree) (root : FilePath) (request : BatchRequest) (options : RenameOptions) :
    Except Failure (BatchReport × Tree) := do
  let paths ← host.collect tree root request.includes
  let sources := paths.map fun path => (label root path, host.readSource tree path)
  let outcomes := RenameContext.runAll { options } (sources.filterMap (job? request))
  let (settled, after) := settleAll host root request.inPlace tree outcomes
  let reports := (settled ++ sources.filterMap unread?).mergeSort fun left right => left.file ≤ right.file
  return (⟨reports⟩, after)

end Command

end ScopedRename
