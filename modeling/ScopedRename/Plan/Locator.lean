import ScopedRename.Outline.Basic

/-! Ways to point at the declaration to rename. -/

namespace ScopedRename

inductive Locator where
  /-- A byte offset inside the declared name, or inside a use of it. -/
  | offset (byte : Nat)
  /-- The named scopes around the declaration, its kind and name, and perhaps the type it must have. -/
  | path (scopes : List String) (kind : DeclarationKind) (name : String) (type : Option String)
deriving DecidableEq, Repr

namespace Locator

/-- A locator from scope names joined by dots; empty names do not count. -/
def ofPath (scopes : String) (kind : DeclarationKind) (name : String) (type : Option String) : Locator :=
  .path ((scopes.splitOn ".").filter (!·.isEmpty)) kind name type

def describe : Locator → String
  | .offset byte => "byte offset " ++ toString byte
  | .path scopes kind name type =>
    let scopeText := if scopes.isEmpty then "" else ".".intercalate scopes ++ "."
    kind.name ++ " " ++ scopeText ++ name ++ type.elim "" (" of type " ++ ·)

end Locator

end ScopedRename
