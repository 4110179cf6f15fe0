import ScopedRename.Text.Digest
import ScopedRename.Name
import ScopedRename.Layout
import ScopedRename.Reference.Binding
import ScopedRename.Plan.Locator

/-!
Planning a rename. A plan covers the declared name and every use that denotes it, and nothing else. It is refused when
some use may or may not denote the declaration, and when the new name would change what any other use denotes.
-/

namespace ScopedRename

/-- Why a rename is refused. A place is a word position while planning and a span in a report. -/
inductive Refusal (place : Type) where
  | invalidName (name : String) (fault : NameFault)
  | notFound (locator : String)
  | ambiguousReference (places : List place)
  | ambiguousDeclaration (locator : String) (places : List place)
  | nameConflict (name : String) (conflict : place)
deriving DecidableEq, Repr

namespace Refusal

def map {source target : Type} (relocate : source → target) : Refusal source → Refusal target
  | .invalidName name fault => .invalidName name fault
  | .notFound locator => .notFound locator
  | .ambiguousReference places => .ambiguousReference (places.map relocate)
  | .ambiguousDeclaration locator places => .ambiguousDeclaration locator (places.map relocate)
  | .nameConflict name conflict => .nameConflict name (relocate conflict)

def places {place : Type} : Refusal place → List place
  | .ambiguousReference places => places
  | .ambiguousDeclaration _ places => places
  | .nameConflict _ conflict => [conflict]
  | .invalidName .. | .notFound _ => []

end Refusal

structure RenameOptions where
  /-- Refuse to hide an outer declaration. -/
  strictShadowing : Bool := false
  /-- Ask the project index about names this file cannot explain. -/
  consultIndex : Bool := true
deriving DecidableEq, Repr

inductive Verdict where
  | clear
  /-- The new name hides these outer declarations without changing what any use denotes. -/
  | shadowsOuter (declarations : List DeclarationId)
deriving DecidableEq, Repr

/-- An accepted rename, its sites being word positions. -/
structure Renaming where
  target : DeclarationId
  kind : DeclarationKind
  oldName : String
  newName : String
  sites : List Nat
  verdict : Verdict
deriving DecidableEq, Repr

structure RenamePlan where
  target : DeclarationId
  kind : DeclarationKind
  oldName : String
  newName : String
  spans : List Span
  verdict : Verdict
  sourceHash : ContentHash
deriving DecidableEq, Repr

namespace RenamePlan

def isIdentity (plan : RenamePlan) : Bool := plan.oldName == plan.newName

end RenamePlan

structure BoundOutline where
  outline : Outline
  references : Array Reference
deriving DecidableEq, Repr

namespace BoundOutline

variable (bound : BoundOutline)

def referencesTo (id : DeclarationId) : List Reference :=
  bound.references.toList.filter (·.resolution == .resolved id)

def ambiguousWith (id : DeclarationId) : List Reference :=
  bound.references.toList.filter fun reference =>
    match reference.resolution with
    | .ambiguous candidates => candidates.contains id
    | _ => false

end BoundOutline

end ScopedRename
