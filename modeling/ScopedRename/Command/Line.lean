import ScopedRename.Command.Run
import ScopedRename.Text.Decimal

/-!
The command line: reading its arguments and answering with an exit code and a printed text. Results and failures both
go to standard output; arguments that cannot be read are answered with exit code 2 and nothing printed.
-/

namespace ScopedRename

namespace CommandLine

structure OptionRule where
  name : String
  /-- It is followed by a value. -/
  takesValue : Bool
  repeatable : Bool := false
deriving DecidableEq, Repr

private def valued (name : String) : OptionRule := { name, takesValue := true }

private def flag (name : String) : OptionRule := { name, takesValue := false }

def globalRules : List OptionRule := [valued "log-level", valued "log-format"]

def renameRules : List OptionRule :=
  (["at", "file", "offset", "kind", "name", "scope", "type", "to", "format"].map valued)
    ++ [flag "in-place", flag "strict-shadowing"] ++ globalRules

def batchRules : List OptionRule :=
  (["path", "kind", "name", "scope", "type", "to"].map valued)
    ++ [{ name := "include", takesValue := true, repeatable := true }, flag "in-place", flag "strict-shadowing"]
    ++ globalRules

structure Arguments where
  options : List (String × String) := []
  operands : List String := []
deriving DecidableEq, Repr

namespace Arguments

variable (arguments : Arguments)

def value? (name : String) : Option String := (arguments.options.find? (·.1 == name)).map (·.2)

def values (name : String) : List String := (arguments.options.filter (·.1 == name)).map (·.2)

def has (name : String) : Bool := (arguments.value? name).isSome

def add (rule : OptionRule) (value : String) : Option Arguments :=
  if arguments.has rule.name && !rule.repeatable then none
  else some { arguments with options := arguments.options ++ [(rule.name, value)] }

end Arguments

/-- An argument that cannot be the value of an option: it starts with a hyphen and is more than that. -/
def looksLikeOption (argument : String) : Bool :=
  match argument.toList with
  | '-' :: _ :: _ => true
  | _ => false

/-- The name and, after an equals sign, the value of a long option. -/
def longOption? (argument : String) : Option (String × Option String) :=
  match argument.toList with
  | '-' :: '-' :: body =>
    let (name, rest) := body.span (· != '=')
    some (String.ofList name, match rest with
      | [] => none
      | _ :: value => some (String.ofList value))
  | _ => none

/-- Reads options and operands by the rules. After two hyphens everything is an operand. -/
def readArguments (rules : List OptionRule) (read : Arguments) : List String → Option Arguments
  | [] => some read
  | argument :: rest =>
    if argument == "--" then some { read with operands := read.operands ++ rest }
    else
      match longOption? argument with
      | some (name, attached) =>
        match rules.find? (·.name == name), attached with
        | none, _ => none
        | some rule, some value =>
          if rule.takesValue then do readArguments rules (← read.add rule value) rest else none
        | some rule, none =>
          if rule.takesValue then
            match rest with
            | [] => none
            | value :: further =>
              if looksLikeOption value then none
              else do readArguments rules (← read.add rule value) further
          else do
            readArguments rules (← read.add rule "") rest
      | none =>
        if looksLikeOption argument then none
        else readArguments rules { read with operands := read.operands ++ [argument] } rest

inductive RenameFormat where
  | text
  | diff
  | json
deriving DecidableEq, Repr

namespace RenameFormat

def ofName? : String → Option RenameFormat
  | "text" => some .text
  | "diff" => some .diff
  | "json" => some .json
  | _ => none

end RenameFormat

structure TargetArguments where
  location : Option String := none
  file : Option String := none
  offset : Option Nat := none
  kind : Option String := none
  name : Option String := none
  scopes : Option String := none
  type : Option String := none
deriving DecidableEq, Repr

namespace TargetArguments

def resolve (arguments : TargetArguments) : Except Failure (String × Target) :=
  match arguments.location, arguments.file with
  | some location, _ => Target.ofLocation location
  | none, none => .error (.invalidArguments "one of --at or --file is required" none)
  | none, some file =>
    match arguments.offset, arguments.kind, arguments.name with
    | some byte, _, _ => .ok (file, .offset byte)
    | none, some kind, some name => do
      let kind ← DeclarationKind.ofArgument kind
      return (file, .path (arguments.scopes.getD "") kind name arguments.type)
    | none, _, _ => .error (.invalidArguments "--file needs either --offset or --kind with --name" none)

end TargetArguments

inductive Invocation where
  | version
  | rename (target : TargetArguments) (newName : String) (inPlace strict : Bool) (format : RenameFormat)
  | analyze (file : String)
  | batch (root kind name : String) (scopes type : Option String) (newName : String) (includes : List String)
    (inPlace strict : Bool)
deriving DecidableEq, Repr

def isOneOf (arguments : Arguments) (name : String) (known : List String) : Bool :=
  (arguments.value? name).all known.contains

def logOptionsValid (arguments : Arguments) : Bool :=
  isOneOf arguments "log-level" ["trace", "debug", "info", "warn", "error"]
    && isOneOf arguments "log-format" ["text", "json"]

def isPathGiven (arguments : Arguments) (name : String) : Bool := (arguments.value? name).all (!·.isEmpty)

def excludes : List (String × List String) := [
  ("at", ["file", "offset", "kind", "name", "scope", "type"]),
  ("offset", ["kind", "name", "scope", "type"])]

def needs : List (String × List String) := [
  ("offset", ["file"]),
  ("kind", ["file", "name"]),
  ("name", ["file", "kind"]),
  ("scope", ["kind"]),
  ("type", ["kind"])]

def targetOptionsValid (arguments : Arguments) : Bool :=
  excludes.all (fun (name, others) => !arguments.has name || others.all (!arguments.has ·))
    && needs.all fun (name, others) => !arguments.has name || others.all arguments.has

def offsetLimit : Nat := 0x10000000000000000

def readRename (arguments : Arguments) : Option Invocation := do
  guard (arguments.operands.isEmpty && targetOptionsValid arguments && isPathGiven arguments "file")
  let newName ← arguments.value? "to"
  let format ← RenameFormat.ofName? ((arguments.value? "format").getD "text")
  let offset ← match arguments.value? "offset" with
    | none => some none
    | some numeral => (Text.decimal? offsetLimit numeral.toList).map some
  let target : TargetArguments :=
    { location := arguments.value? "at", file := arguments.value? "file", offset
      kind := arguments.value? "kind", name := arguments.value? "name"
      scopes := arguments.value? "scope", type := arguments.value? "type" }
  return .rename target newName (arguments.has "in-place") (arguments.has "strict-shadowing") format

def readBatch (arguments : Arguments) : Option Invocation := do
  guard (arguments.operands.isEmpty && isPathGiven arguments "path")
  let root ← arguments.value? "path"
  let kind ← arguments.value? "kind"
  let name ← arguments.value? "name"
  let newName ← arguments.value? "to"
  return .batch root kind name (arguments.value? "scope") (arguments.value? "type") newName
    (arguments.values "include") (arguments.has "in-place") (arguments.has "strict-shadowing")

def readAnalyze (arguments : Arguments) : Option Invocation :=
  match arguments.operands with
  | [file] => if file.isEmpty then none else some (.analyze file)
  | _ => none

def readCommand (command : String) (rest : List String) : Option Invocation := do
  let rules ←
    if command == "rename" then some renameRules
    else if command == "batch" then some batchRules
    else if command == "analyze" then some globalRules
    else none
  let arguments ← readArguments rules {} rest
  guard (logOptionsValid arguments)
  if command == "rename" then readRename arguments
  else if command == "batch" then readBatch arguments
  else readAnalyze arguments

/-- The argument asks for the version; what follows the letter in it does not count. -/
def asksVersion (argument : String) : Bool := argument == "--version" || argument.startsWith "-V"

def read (before : Arguments) : List String → Option Invocation
  | [] => none
  | argument :: rest =>
    if asksVersion argument then
      if logOptionsValid before then some .version else none
    else
      match longOption? argument with
      | some (name, attached) =>
        match globalRules.find? (·.name == name), attached with
        | none, _ => none
        | some rule, some value => do
          let before ← before.add rule value
          if logOptionsValid before then read before rest else none
        | some rule, none =>
          match rest with
          | [] => none
          | value :: further =>
            if looksLikeOption value then none
            else do
              let before ← before.add rule value
              if logOptionsValid before then read before further else none
      | none => if looksLikeOption argument then none else readCommand argument rest

structure Answer (Tree : Type) where
  exitCode : Nat
  output : String
  tree : Tree

def renameOutput (run : RenameRun) (inPlace : Bool) : RenameFormat → String
  | .json => run.report.json.emit
  | .diff => run.report.patch.diff
  | .text =>
    if inPlace then
      run.report.file ++ ": renamed '" ++ run.report.symbol.name ++ "' to '" ++ run.report.newName ++ "' ("
        ++ toString run.report.patch.edits.length ++ " edits)\n"
    else
      run.text

variable {Tree Pattern : Type} (host : Host Tree Pattern)

def execute (tree : Tree) : Invocation → Except Failure (String × Tree)
  | .version => .ok ("renamer 0.1.0\n", tree)
  | .rename arguments newName inPlace strict format => do
    let (file, target) ← arguments.resolve
    let (run, after) ← Command.rename host tree (.ofText file) target newName { strictShadowing := strict } inPlace
    return (renameOutput run inPlace format, after)
  | .analyze file => do
    let response ← Command.analyze host tree (.ofText file)
    return (response.emit, tree)
  | .batch root kind name scopes type newName includes inPlace strict => do
    let kind ← DeclarationKind.ofArgument kind
    let request : Command.BatchRequest :=
      { scopes := scopes.getD "", kind, name, type, newName, includes, inPlace }
    let (report, after) ← Command.batch host tree (.ofText root) request { strictShadowing := strict }
    return (report.json.emit, after)

def answer (tree : Tree) (arguments : List String) : Answer Tree :=
  match read {} arguments with
  | none => ⟨2, "", tree⟩
  | some invocation =>
    match execute host tree invocation with
    | .ok (output, after) => ⟨0, output, after⟩
    | .error .crash => ⟨Failure.crash.exitCode, "", tree⟩
    | .error failure => ⟨failure.exitCode, failure.response.emit, tree⟩

end CommandLine

end ScopedRename
