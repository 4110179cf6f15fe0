import ScopedRename.Outline.Basic

/-!
Members of types that other files declare. A name that this file cannot explain, reached through a receiver of a
foreign type or inherited from one, is looked up here.
-/

namespace ScopedRename

/-- A declaration of another file, numbered in that file's own outline. -/
structure ExternalDeclaration where
  file : String
  declaration : DeclarationId
deriving DecidableEq, Repr

namespace ExternalDeclaration

def label (external : ExternalDeclaration) : String :=
  external.file ++ "#" ++ DeclarationId.label external.declaration

end ExternalDeclaration

def ProjectIndex := String → String → Option ExternalDeclaration

namespace ProjectIndex

def empty : ProjectIndex := fun _ _ => none

def member? (index : ProjectIndex) (types : List String) (name : String) : Option ExternalDeclaration :=
  types.findSome? (index · name)

end ProjectIndex

structure MemberTable where
  entries : List ((String × String) × ExternalDeclaration) := []
deriving DecidableEq, Repr

namespace MemberTable

/-- Adds a member; it replaces the one known under the same type and name. -/
def insert (table : MemberTable) (type name : String) (external : ExternalDeclaration) : MemberTable :=
  ⟨((type, name), external) :: table.entries.filter (·.1 != (type, name))⟩

def size (table : MemberTable) : Nat := table.entries.length

def index (table : MemberTable) : ProjectIndex := fun type name =>
  (table.entries.find? (·.1 == (type, name))).map (·.2)

end MemberTable

end ScopedRename
