import ScopedRename.Failure
import ScopedRename.Outline.Build
import ScopedRename.Plan.Planner

/-!
A rename from text to text. The analysis of a text is kept, so that many renames can be planned against it; a run
analyses, plans and carries out.
-/

namespace ScopedRename

/-- Everything known about one revision of a text. -/
structure Analysis where
  source : String
  tokens : List Token
  code : Code
  bound : BoundOutline
  lines : Lines
  hash : ContentHash

namespace Analysis

def ofText (source : String) (index : ProjectIndex) : Except RenameError Analysis := do
  let tokens ← (Token.ofText source).mapError .lex
  let code ← (Code.ofTokens tokens).mapError .structural
  let outline := Outline.ofCode code
  return {
    source, tokens, code
    bound := ⟨outline, code.references outline index⟩
    lines := Lines.ofText source
    hash := ContentHash.ofText source }

variable (analysis : Analysis)

def layout : Layout := analysis.code.layout

/-- Gives an accepted rename or a refusal its places in the text. -/
def placed (accepted : Except (Refusal Nat) Renaming) : Except RenameError RenamePlan :=
  match accepted with
  | .ok accepted => .ok (accepted.toPlan analysis.layout analysis.hash)
  | .error refusal => .error (.refused (refusal.map analysis.layout.span))

def locate (locator : Locator) : Except RenameError DeclarationId :=
  (analysis.bound.locate analysis.layout locator).mapError fun refusal =>
    .refused (refusal.map analysis.layout.span)

def planFor (options : RenameOptions) (target : DeclarationId) (newName : String) :
    Except RenameError RenamePlan :=
  analysis.placed (analysis.bound.planFor options.strictShadowing target newName)

def plan (options : RenameOptions) (locator : Locator) (newName : String) : Except RenameError RenamePlan :=
  analysis.placed (analysis.bound.plan analysis.layout options.strictShadowing locator newName)

def apply (plan : RenamePlan) : Except RenameError String :=
  (plan.apply analysis.source analysis.tokens).mapError .ofApply

def patch (file : String) (plan : RenamePlan) : Except RenameError Patch :=
  (plan.patch file analysis.source).mapError .ofApply

end Analysis

structure RenameContext where
  options : RenameOptions := {}
  index : ProjectIndex := ProjectIndex.empty
  /-- The run was called off before it started. -/
  cancelled : Bool := false

structure RenameOutcome where
  text : String
  plan : RenamePlan
deriving DecidableEq, Repr

namespace RenameContext

variable (context : RenameContext)

def checkpoint (stage : Stage) : Except RenameError Unit :=
  if context.cancelled then .error (.cancelled stage) else .ok ()

def analyze (source : String) : Except RenameError Analysis := do
  context.checkpoint .lex
  Analysis.ofText source (if context.options.consultIndex then context.index else ProjectIndex.empty)

def plan (analysis : Analysis) (locator : Locator) (newName : String) : Except RenameError RenamePlan := do
  context.checkpoint .plan
  analysis.plan context.options locator newName

def run (source : String) (locator : Locator) (newName : String) : Except RenameError RenameOutcome := do
  let analysis ← context.analyze source
  let plan ← context.plan analysis locator newName
  return ⟨← analysis.apply plan, plan⟩

end RenameContext

structure RenameJob where
  /-- The caller's name for the text. -/
  label : String
  source : String
  locator : Locator
  newName : String

structure JobOutcome where
  job : RenameJob
  result : Except RenameError RenameOutcome

namespace JobOutcome

def isNotFound (outcome : JobOutcome) : Bool :=
  match outcome.result with
  | .error error => error.isNotFound
  | .ok _ => false

def changed (outcome : JobOutcome) : Bool :=
  match outcome.result with
  | .ok renamed => renamed.text != outcome.job.source
  | .error _ => false

end JobOutcome

def RenameContext.runAll (context : RenameContext) (jobs : List RenameJob) : List JobOutcome :=
  jobs.map fun job => ⟨job, context.run job.source job.locator job.newName⟩

def rename (source : String) (locator : Locator) (newName : String) (context : RenameContext := {}) :
    Except RenameError String :=
  (context.run source locator newName).map (·.text)

end ScopedRename
