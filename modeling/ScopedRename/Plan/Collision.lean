import ScopedRename.Plan.Basic

/-!
Collisions of a new name: declarations it would clash with, uses it would capture, and outer declarations it would
merely hide.
-/

namespace ScopedRename

namespace Arity

def meets (left right : Option Arity) : Bool :=
  left.map (·.count) == right.map (·.count) || left.any (·.variadic) || right.any (·.variadic)

end Arity

namespace BoundOutline

variable (bound : BoundOutline)

def clashes (target : DeclarationId) (renamed : Declaration) (other : DeclarationId) : Bool :=
  other != target
    && (bound.outline.declaration? other).any fun declaration =>
      renamed.kind != .method || declaration.kind != .method || Arity.meets renamed.arity declaration.arity

def positionOf (id : DeclarationId) : Nat := (bound.outline.declaration? id).elim 0 (·.position)

/-- What the new name meets at one place where the target is looked up: the outer declarations it would hide, or the
position of a declaration in its way. -/
def meetsAt (target : DeclarationId) (renamed : Declaration) (newName : String) :
    Lookup → Except Nat (List DeclarationId)
  | .lexical scope =>
    match bound.outline.lookup scope newName renamed.kind.space none with
    | none => .ok []
    | some (found, declarations) =>
      if bound.outline.isWithin found renamed.scope then
        match declarations.find? fun id => found != renamed.scope || bound.clashes target renamed id with
        | some id => .error (bound.positionOf id)
        | none => .ok []
      else
        .ok declarations
  | .member type =>
    match (bound.outline.declaredIn type newName renamed.kind.space).find? (bound.clashes target renamed) with
    | some id => .error (bound.positionOf id)
    | none => .ok []
  | .foreign | .path => .ok []

def isOutside (renamed : Declaration) (id : DeclarationId) : Bool :=
  (bound.outline.declaration? id).any fun declaration =>
    declaration.scope != renamed.scope && bound.outline.isWithin renamed.scope declaration.scope

/-- A use in this name space would see the renamed declaration; an unbound value may be a type. -/
def isCompatible (space : NameSpace) (reference : Reference) : Bool :=
  reference.space == space
    || (space == .type && reference.space == .value && !reference.resolution.isBound)

def captured? (renamed : Declaration) (newName : String) (reference : Reference) : Option Nat :=
  if reference.name != newName || !isCompatible renamed.kind.space reference then none
  else
    match reference.lookup with
    | .member type =>
      if type == renamed.scope && !reference.resolution.isBound then some reference.position else none
    | .foreign | .path => none
    | .lexical site =>
      if !bound.outline.isWithin site renamed.scope then none
      else if renamed.kind == .localVariable
          && bound.outline.startOf reference.position < bound.outline.startOf renamed.position then none
      else
        match reference.resolution with
        | .resolved id => if bound.isOutside renamed id then some (bound.positionOf id) else none
        | .ambiguous candidates => (candidates.find? (bound.isOutside renamed)).map bound.positionOf
        | .external _ | .unresolved => some reference.position

def sites (target : DeclarationId) (renamed : Declaration) : List Lookup :=
  (.lexical renamed.scope :: (bound.referencesTo target).map (·.lookup)).eraseDups

def verdict (strict : Bool) (target : DeclarationId) (renamed : Declaration) (newName : String) :
    Except Nat Verdict := do
  let hidden ← (bound.sites target renamed).mapM (bound.meetsAt target renamed newName)
  match bound.references.toList.findSome? (bound.captured? renamed newName) with
  | some position => throw position
  | none =>
    match bound.outline.declarationIds.filter (hidden.flatten.contains ·) with
    | [] => return .clear
    | first :: rest => if strict then throw (bound.positionOf first) else return .shadowsOuter (first :: rest)

end BoundOutline

end ScopedRename
