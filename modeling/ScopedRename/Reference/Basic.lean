import ScopedRename.ProjectIndex

/-! References: uses of names, where each name is looked up, and what it denotes. -/

namespace ScopedRename

inductive Lookup where
  /-- A bare name, outward from a scope. -/
  | lexical (scope : ScopeId)
  /-- A member of the type whose body is the scope. -/
  | member (scope : ScopeId)
  /-- A member of something this file cannot type. -/
  | foreign
  /-- A word of a package or import path. -/
  | path
deriving DecidableEq, Repr

inductive Resolution where
  | resolved (declaration : DeclarationId)
  /-- Overloads between which the use cannot choose. -/
  | ambiguous (candidates : List DeclarationId)
  | external (declaration : ExternalDeclaration)
  | unresolved
deriving DecidableEq, Repr

namespace Resolution

def word : Resolution → String
  | .resolved _ => "resolved"
  | .ambiguous _ => "ambiguous"
  | .external _ => "external"
  | .unresolved => "unresolved"

def targets : Resolution → List String
  | .resolved declaration => [DeclarationId.label declaration]
  | .ambiguous candidates => candidates.map DeclarationId.label
  | .external declaration => [declaration.label]
  | .unresolved => []

def candidates : Resolution → List DeclarationId
  | .resolved declaration => [declaration]
  | .ambiguous candidates => candidates
  | .external _ | .unresolved => []

def includes (resolution : Resolution) (declaration : DeclarationId) : Bool :=
  resolution.candidates.contains declaration

def isBound : Resolution → Bool
  | .resolved _ | .ambiguous _ => true
  | .external _ | .unresolved => false

end Resolution

structure Reference where
  position : Nat
  name : String
  scope : ScopeId
  space : NameSpace
  lookup : Lookup
  resolution : Resolution
deriving DecidableEq, Repr

end ScopedRename
