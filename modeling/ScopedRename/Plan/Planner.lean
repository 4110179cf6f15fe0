import ScopedRename.Plan.Collision
import ScopedRename.Plan.Search

/-! Finding the declaration a locator points at and planning its rename. -/

namespace ScopedRename

namespace BoundOutline

variable (bound : BoundOutline)

/-- The use whose span contains a byte offset. References are in order, so those that end at or before the offset come
first. -/
def referenceAt? (layout : Layout) (offset : Nat) : Option Reference :=
  let ends (i : Nat) : Bool :=
    (bound.references[i]?).any fun reference => (layout.span reference.position).stop ≤ offset
  (bound.references[partitionPoint ends 0 bound.references.size]?).filter fun reference =>
    (layout.span reference.position).contains offset

def matching (scopes : List String) (kind : DeclarationKind) (name : String) (type : Option String) :
    List DeclarationId :=
  bound.outline.declarationIds.filter fun id =>
    (bound.outline.declaration? id).any fun declaration =>
      declaration.kind == kind && declaration.name == name
        && (type.isNone || declaration.declaredType.map (·.render) == type)
        && bound.outline.path declaration.scope == scopes

def locate (layout : Layout) (locator : Locator) : Except (Refusal Nat) DeclarationId :=
  match locator with
  | .offset offset =>
    match bound.outline.declarationIds.find? fun id => (layout.span (bound.positionOf id)).contains offset with
    | some id => .ok id
    | none =>
      match bound.referenceAt? layout offset with
      | none => .error (.notFound locator.describe)
      | some reference =>
        match reference.resolution with
        | .resolved id => .ok id
        | .ambiguous _ => .error (.ambiguousReference [reference.position])
        | .external _ | .unresolved => .error (.notFound locator.describe)
  | .path scopes kind name type =>
    match bound.matching scopes kind name type with
    | [] => .error (.notFound locator.describe)
    | [id] => .ok id
    | several => .error (.ambiguousDeclaration locator.describe (several.map bound.positionOf))

def renameSites (target : DeclarationId) (renamed : Declaration) : List Nat :=
  renamed.position :: (bound.referencesTo target).map (·.position)

def planFor (strict : Bool) (target : DeclarationId) (newName : String) : Except (Refusal Nat) Renaming :=
  match Name.fault? newName with
  | some fault => .error (.invalidName newName fault)
  | none =>
    match bound.outline.declaration? target with
    | none => .error (.notFound (DeclarationId.label target))
    | some renamed =>
      match (bound.ambiguousWith target).map (·.position) with
      | first :: rest => .error (.ambiguousReference (first :: rest))
      | [] =>
        let accept (verdict : Verdict) : Renaming :=
          { target, kind := renamed.kind, oldName := renamed.name, newName
            sites := bound.renameSites target renamed, verdict }
        if renamed.name == newName then .ok (accept .clear)
        else
          match bound.verdict strict target renamed newName with
          | .ok verdict => .ok (accept verdict)
          | .error position => .error (.nameConflict newName position)

/-- Plans the rename of what a locator points at. The new name is checked first. -/
def plan (layout : Layout) (strict : Bool) (locator : Locator) (newName : String) :
    Except (Refusal Nat) Renaming :=
  match Name.fault? newName with
  | some fault => .error (.invalidName newName fault)
  | none => do
    let target ← bound.locate layout locator
    bound.planFor strict target newName

end BoundOutline

namespace Renaming

def toPlan (accepted : Renaming) (layout : Layout) (sourceHash : ContentHash) : RenamePlan where
  target := accepted.target
  kind := accepted.kind
  oldName := accepted.oldName
  newName := accepted.newName
  spans := Span.sort (accepted.sites.map layout.span)
  verdict := accepted.verdict
  sourceHash := sourceHash

end Renaming

end ScopedRename
