import ScopedRename.Report

/-! A working session on one text: renames, plans kept for later, edits by hand, and changing circumstances. -/

namespace ScopedRename

structure Session where
  /-- The name under which locations are reported. -/
  file : String
  source : String
  options : RenameOptions := {}
  members : MemberTable := {}
  cancelled : Bool := false
  plans : List (String × RenamePlan) := []

namespace Session

inductive Step where
  | rename (locator : Locator) (newName : String)
  /-- Makes a plan and keeps it under a key. -/
  | plan (key : String) (locator : Locator) (newName : String)
  | apply (key : String)
  | patch (key : String)
  | set (source : String)
  /-- Replaces bytes of the text. -/
  | splice (start count : Nat) (insert : String)
  | options (options : RenameOptions)
  | index (members : MemberTable)
  | cancel (cancelled : Bool)
  | declarations
  | references

inductive Reply where
  | nothing
  | plan (plan : RenamePlan)
  | planned (plan : RenamePlan) (warnings : List Warning)
  | patch (patch : Patch)
  | options (options : RenameOptions)
  | index (members : MemberTable)
  | cancelled (cancelled : Bool)
  | declarations (reports : List DeclarationReport)
  | references (reports : List ReferenceReport)

inductive Fault where
  | error (error : RenameError)
  | noSuchPlan
  | badSplice

variable (session : Session)

def context : RenameContext where
  options := session.options
  index := session.members.index
  cancelled := session.cancelled

def plan? (key : String) : Except Fault RenamePlan :=
  match session.plans.find? (·.1 == key) with
  | some (_, plan) => .ok plan
  | none => .error .noSuchPlan

def spliced? (start count : Nat) (insert : String) : Option String := do
  let (before, rest) ← Text.splitAtByte session.source.toList start
  let (_, after) ← Text.splitAtByte rest count
  return String.ofList before ++ insert ++ String.ofList after

/-- Takes a step. A step that fails leaves the session as it was. -/
def take : Step → Except Fault (Reply × Session)
  | .rename locator newName => do
    let outcome ← (session.context.run session.source locator newName).mapError .error
    return (.plan outcome.plan, { session with source := outcome.text })
  | .plan key locator newName => do
    let analysis ← ({ session.context with cancelled := false }.analyze session.source).mapError .error
    let plan ← (session.context.plan analysis locator newName).mapError .error
    let plans := (key, plan) :: session.plans.filter (·.1 != key)
    return (.planned plan (analysis.warnings session.file plan), { session with plans })
  | .apply key => do
    let plan ← session.plan? key
    let tokens ← (Token.ofText session.source).mapError fun error => .error (.lex error)
    let source ← (plan.apply session.source tokens).mapError fun error => .error (.ofApply error)
    return (.nothing, { session with source })
  | .patch key => do
    let plan ← session.plan? key
    let patch ← (plan.patch session.file session.source).mapError fun error => .error (.ofApply error)
    return (.patch patch, session)
  | .set source => .ok (.nothing, { session with source })
  | .splice start count insert =>
    match session.spliced? start count insert with
    | some source => .ok (.nothing, { session with source })
    | none => .error .badSplice
  | .options options => .ok (.options options, { session with options })
  | .index members => .ok (.index members, { session with members })
  | .cancel cancelled => .ok (.cancelled cancelled, { session with cancelled })
  | .declarations => do
    let analysis ← (session.context.analyze session.source).mapError .error
    return (.declarations (analysis.declarationReports session.file), session)
  | .references => do
    let analysis ← (session.context.analyze session.source).mapError .error
    return (.references (analysis.referenceReports session.file), session)

end Session

end ScopedRename
