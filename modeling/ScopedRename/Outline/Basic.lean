import ScopedRename.Layout

/-!
The outline of a file: its scopes, what each scope declares, and the scope of every word. Places are word positions.
A scope is known by its number; a parent's number is smaller than its child's, and scope zero is the file.
-/

namespace ScopedRename

abbrev ScopeId := Nat

abbrev DeclarationId := Nat

namespace ScopeId

def label (scope : ScopeId) : String := "scope_" ++ toString scope

end ScopeId

namespace DeclarationId

def label (declaration : DeclarationId) : String := "decl_" ++ toString declaration

end DeclarationId

inductive ScopeKind where
  | file
  | type
  | method
  | block
deriving DecidableEq, Repr, Inhabited

namespace ScopeKind

def name : ScopeKind → String
  | .file => "file"
  | .type => "type"
  | .method => "method"
  | .block => "block"

end ScopeKind

/-- Names of different spaces never meet: a field `size` and a method `size()` live in one scope. -/
inductive NameSpace where
  | type
  | method
  | value
deriving DecidableEq, Repr, Inhabited

namespace NameSpace

def name : NameSpace → String
  | .type => "type"
  | .method => "method"
  | .value => "value"

end NameSpace

inductive DeclarationKind where
  | type
  | field
  | method
  | parameter
  | localVariable
deriving DecidableEq, Repr, Inhabited

namespace DeclarationKind

def all : List DeclarationKind := [.type, .field, .method, .parameter, .localVariable]

def name : DeclarationKind → String
  | .type => "type"
  | .field => "field"
  | .method => "method"
  | .parameter => "parameter"
  | .localVariable => "local"

def ofName? (name : String) : Option DeclarationKind := all.find? (·.name == name)

def space : DeclarationKind → NameSpace
  | .type => .type
  | .method => .method
  | .field | .parameter | .localVariable => .value

end DeclarationKind

/-- A type as a declaration writes it: its simple name, and whether it is an array. -/
structure DeclaredType where
  base : String
  isArray : Bool
deriving DecidableEq, Repr

namespace DeclaredType

def render (type : DeclaredType) : String := if type.isArray then type.base ++ "[]" else type.base

end DeclaredType

abbrev Register (Key : Type) := List (Key × List Nat)

namespace Register

variable {Key : Type} [DecidableEq Key]

def enter (key : Key) (number : Nat) : Register Key → Register Key
  | [] => [(key, [number])]
  | (known, numbers) :: rest =>
    if known = key then (known, numbers ++ [number]) :: rest else (known, numbers) :: enter key number rest

def listed (register : Register Key) (key : Key) : List Nat := (register.lookup key).getD []

end Register

structure Arity where
  count : Nat
  /-- The last parameter takes any number of arguments. -/
  variadic : Bool
deriving DecidableEq, Repr

namespace Arity

def accepts (arity : Arity) (arguments : Nat) : Bool :=
  if arity.variadic then arity.count ≤ arguments + 1 else arity.count == arguments

end Arity

structure Declaration where
  kind : DeclarationKind
  name : String
  /-- The scope the name belongs to; a method's is that of its type. -/
  scope : ScopeId
  /-- Position of the name. -/
  position : Nat
  /-- Type of a variable, or of what a method returns. -/
  declaredType : Option DeclaredType := none
  /-- Parameters, for a method. -/
  arity : Option Arity := none
  /-- The scope that a type or method opens. -/
  body : Option ScopeId := none
  /-- Given out when the declaration is made. -/
  id : DeclarationId := 0
deriving DecidableEq, Repr

structure Extent where
  first : Nat
  last : Nat
deriving DecidableEq, Repr

structure Scope where
  kind : ScopeKind
  /-- Name of a type or method; the file, blocks and anonymous types have none. -/
  name : Option String := none
  parent : Option ScopeId := none
  /-- The positions covered; the file covers everything. -/
  extent : Option Extent := none
  /-- Names of the types it extends, as written. -/
  supertypes : List String := []
  /-- Given out when the scope is opened. -/
  id : ScopeId := 0
deriving DecidableEq, Repr

namespace Layout

/-- The bytes a scope covers. -/
def extent (layout : Layout) (scope : Scope) : Span :=
  match scope.extent with
  | none => ⟨0, layout.stop⟩
  | some extent =>
    let start := (layout.token? extent.first).elim 0 (·.span.start)
    ⟨start, max start ((layout.token? extent.last).elim start (·.span.stop))⟩

end Layout

structure Outline where
  layout : Layout
  scopes : Array Scope
  declarations : Array Declaration
  /-- The scopes directly inside each scope. -/
  children : Register ScopeId := []
  /-- The declarations of each name in each scope. -/
  symbols : Register (ScopeId × String) := []
  /-- Tokens that name a declaration, the latest first. -/
  named : List (Nat × DeclarationId) := []
  /-- Tokens with the scope they were assigned to, the latest first. -/
  homes : List (Nat × ScopeId) := []
  /-- Tokens that name a type. -/
  typeTokens : List Nat := []
  /-- Tokens of package and import paths. -/
  pathTokens : List Nat := []
deriving DecidableEq, Repr

namespace Outline

variable (outline : Outline)

def scope? (scope : ScopeId) : Option Scope := outline.scopes[scope]?

def declaration? (id : DeclarationId) : Option Declaration := outline.declarations[id]?

def scopeIds : List ScopeId := List.range outline.scopes.size

def declarationIds : List DeclarationId := List.range outline.declarations.size

def homeAt? (position : Nat) : Option ScopeId := outline.homes.lookup (outline.layout.tokenIndex position)

def home (position : Nat) : ScopeId := (outline.homeAt? position).getD 0

/-- The scopes of tokens, where a token that was assigned to none belongs to the scope of the one before it. -/
def settled (last : ScopeId) : List Nat → List ScopeId
  | [] => []
  | token :: rest =>
    let scope := (outline.homes.lookup token).getD last
    scope :: settled scope rest

def scopesOfTokens : List ScopeId := outline.settled 0 (List.range outline.layout.tokens.size)

def isTypeWord (position : Nat) : Bool := outline.typeTokens.contains (outline.layout.tokenIndex position)

def isPathWord (position : Nat) : Bool := outline.pathTokens.contains (outline.layout.tokenIndex position)

/-- The declaration whose name stands at the position; of several, the latest. -/
def declarationAt? (position : Nat) : Option DeclarationId := outline.named.lookup (outline.layout.tokenIndex position)

def parent? (scope : ScopeId) : Option ScopeId := (outline.scope? scope).bind (·.parent)

def supertypesOf (scope : ScopeId) : List String := ((outline.scope? scope).map (·.supertypes)).getD []

def childrenOf (scope : ScopeId) : List ScopeId := outline.children.listed scope

def ancestors (scope : ScopeId) : List ScopeId :=
  match outline.parent? scope with
  | some parent => if parent < scope then scope :: ancestors parent else [scope]
  | none => [scope]
termination_by scope

def isWithin (scope outer : ScopeId) : Bool := (outline.ancestors scope).contains outer

def enclosingType? (scope : ScopeId) : Option ScopeId :=
  (outline.ancestors scope).find? fun outer => (outline.scope? outer).any (·.kind == .type)

def path (scope : ScopeId) : List String :=
  ((outline.ancestors scope).filterMap fun outer => (outline.scope? outer).bind (·.name)).reverse

def declaredIn (scope : ScopeId) (name : String) (space : NameSpace) : List DeclarationId :=
  (outline.symbols.listed (scope, name)).filter fun id =>
    (outline.declaration? id).any (·.kind.space == space)

/-- The byte where the word at a position starts. -/
def startOf (position : Nat) : Nat := (outline.layout.span position).start

/-- A local variable is visible only from its own name on. -/
def isVisible (id : DeclarationId) (offset : Option Nat) : Bool :=
  match offset with
  | none => true
  | some offset =>
    (outline.declaration? id).any fun declaration =>
      declaration.kind != .localVariable || outline.startOf declaration.position ≤ offset

/-- The innermost scope that declares a name visibly, starting at a scope and going outward, with those
declarations. -/
def lookup (scope : ScopeId) (name : String) (space : NameSpace) (offset : Option Nat) :
    Option (ScopeId × List DeclarationId) :=
  (outline.ancestors scope).findSome? fun outer =>
    match (outline.declaredIn outer name space).filter (outline.isVisible · offset) with
    | [] => none
    | found => some (outer, found)

def symbolsOf (scope : ScopeId) : List (String × List DeclarationId) :=
  outline.symbols.filterMap fun ((owner, name), ids) => if owner = scope then some (name, ids) else none

end Outline

end ScopedRename
