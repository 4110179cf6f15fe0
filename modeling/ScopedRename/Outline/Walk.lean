import ScopedRename.Outline.Basic
import ScopedRename.Code.Brackets

/-! The state of a walk over code that draws up its outline, and the elementary changes to it. -/

namespace ScopedRename

structure Frame where
  scope : ScopeId
  /-- Last position of the scope. -/
  last : Nat
  /-- Depth of open parentheses and square brackets where the scope opened. -/
  depth : Nat
  /-- In the body of an enum, before the semicolon that ends its constants. -/
  inConstants : Bool
deriving DecidableEq, Repr

/-- A declaration statement in progress, to which a comma and a name add another variable. -/
structure Declarators where
  kind : DeclarationKind
  declaredType : Option DeclaredType
  depth : Nat
  frames : Nat
deriving DecidableEq, Repr

structure Walk extends Outline where
  /-- The scopes around the walk, innermost first, without the file. -/
  frames : List Frame := []
  /-- Braces that open no scope of their own because a header's scope covers them. -/
  claimed : List Nat := []
  depth : Nat := 0
  declarators : Option Declarators := none
deriving DecidableEq, Repr

namespace Walk

def start (layout : Layout) : Walk where
  layout := layout
  scopes := #[{ kind := .file, id := 0 }]
  declarations := #[]

variable (walk : Walk)

def fileFrame : Frame := ⟨0, 0, 0, false⟩

def frame : Frame := walk.frames.headD fileFrame

def kindOfScope (scope : ScopeId) : ScopeKind := (walk.scope? scope).elim .block (·.kind)

def nameOfScope (scope : ScopeId) : Option String := (walk.scope? scope).bind (·.name)

def atBase : Bool := walk.depth == walk.frame.depth

def leave (position : Nat) : Walk := { walk with frames := walk.frames.dropWhile (·.last < position) }

def enter (scope : ScopeId) (last : Nat) (inConstants : Bool) : Walk :=
  { walk with frames := ⟨scope, last, walk.depth, inConstants⟩ :: walk.frames }

def openScope (kind : ScopeKind) (name : Option String) (extent : Extent) (supertypes : List String)
    (inConstants : Bool) : Walk :=
  let id := walk.scopes.size
  let parent := walk.frame.scope
  let opened :=
    { walk with
      scopes := walk.scopes.push { kind, name, parent, extent, supertypes, id }
      children := walk.children.enter parent id }
  opened.enter id extent.last inConstants

def assign (position : Nat) (scope : ScopeId) : Walk :=
  { walk with
    homes :=
      if position < walk.layout.size then (walk.layout.tokenIndex position, scope) :: walk.homes else walk.homes }

def assignRange (first last : Nat) (scope : ScopeId) : Walk :=
  (List.range' first (last + 1 - first)).foldl (·.assign · scope) walk

def declare (declaration : Declaration) : Walk :=
  let id := walk.declarations.size
  { walk with
    declarations := walk.declarations.push { declaration with id }
    symbols := walk.symbols.enter (declaration.scope, declaration.name) id
    named := (walk.layout.tokenIndex declaration.position, id) :: walk.named }

/-- Records the words among the positions that are identifiers as naming types. -/
def markTypes (code : Code) (positions : List Nat) : Walk :=
  { walk with typeTokens := (positions.filter code.isIdentifier).map walk.layout.tokenIndex ++ walk.typeTokens }

def unmarkType (position : Nat) : Walk :=
  { walk with typeTokens := walk.typeTokens.filter (· != walk.layout.tokenIndex position) }

def markPath (code : Code) (positions : List Nat) : Walk :=
  { walk with pathTokens := (positions.filter code.isIdentifier).map walk.layout.tokenIndex ++ walk.pathTokens }

/-- The brace at the position opens no scope of its own. -/
def claim (position : Nat) : Walk := { walk with claimed := position :: walk.claimed }

end Walk

end ScopedRename
