import ScopedRename.Patch
import ScopedRename.Plan.Basic

/-!
Carrying out a plan. The text is put together again from its tokens; a token is replaced only where the plan names its
span, so comments and literals that happen to hold the old name stay as they are.
-/

namespace ScopedRename

inductive Staleness where
  /-- The shortened hashes of the text and of the one the plan was made for. -/
  | otherText (actual planned : String)
  | offBoundary (span : Span)
  | notIdentifier (span : Span) (name : String)
  | pastEnd (span : Span)
  | outOfBounds (span : Span)
deriving DecidableEq, Repr

namespace Staleness

def reason : Staleness → String
  | .otherText actual planned => "source hash " ++ actual ++ " does not match plan hash " ++ planned
  | .offBoundary span => "span " ++ span.render ++ " does not start at a token boundary"
  | .notIdentifier span name => "span " ++ span.render ++ " is not the identifier '" ++ name ++ "'"
  | .pastEnd span => "span " ++ span.render ++ " lies past the end of the source"
  | .outOfBounds span => "span " ++ span.render ++ " is out of bounds"

end Staleness

inductive ApplyError where
  | stale (staleness : Staleness)
  /-- A hash cannot be shortened for the report; the program stops here. -/
  | crash
deriving DecidableEq, Repr

namespace RenamePlan

variable (plan : RenamePlan)

def checkFresh (source : String) : Except ApplyError Unit :=
  let actual := ContentHash.ofText source
  if actual = plan.sourceHash then .ok ()
  else
    match actual.short?, plan.sourceHash.short? with
    | some actual, some planned => .error (.stale (.otherText actual planned))
    | _, _ => .error .crash

/-- The texts of the tokens with the new name at the spans still to come. -/
def substitute : List Token → List Span → Except Staleness (List String)
  | [], [] => .ok []
  | [], span :: _ => .error (.pastEnd span)
  | token :: rest, [] => do return token.text :: (← substitute rest [])
  | token :: rest, span :: pending =>
    if span.start < token.span.start then
      .error (.offBoundary span)
    else if span.start = token.span.start then
      if span = token.span ∧ token.isIdentifier ∧ token.text = plan.oldName then do
        return plan.newName :: (← substitute rest pending)
      else
        .error (.notIdentifier span plan.oldName)
    else do
      return token.text :: (← substitute rest (span :: pending))

def apply (source : String) (tokens : List Token) : Except ApplyError String := do
  plan.checkFresh source
  return String.join (← (plan.substitute tokens plan.spans).mapError .stale)

def edits (file source : String) : Except ApplyError (List Edit) := do
  plan.checkFresh source
  let lines := Lines.ofText source
  plan.spans.mapM fun span =>
    match span.slice? source with
    | none => .error (.stale (.outOfBounds span))
    | some oldText =>
      .ok { file, span, oldText, newText := plan.newName, position := lines.position span.start }

def patch (file source : String) : Except ApplyError Patch := do
  let edits ← plan.edits file source
  return ⟨edits, Diff.unified file source edits⟩

end RenamePlan

end ScopedRename
