import ScopedRename.Code.Statement
import ScopedRename.Reference.Basic

/-!
Binding: what every use of a name denotes.

A bare name is looked up outward from its scope, in the name space its position implies; a value that is not found may
be a type. A member is looked up only in a type of this file, found from its receiver. Overloads are narrowed by the
number of arguments. Names that only another file can explain go to the project index. A receiver stands before its
member, so binding a word needs only words before it.
-/

namespace ScopedRename

inductive Receiver where
  /-- A type of this file, by its body. -/
  | localType (scope : ScopeId)
  /-- A type known by name only. -/
  | named (type : String)
  /-- The supertypes of the enclosing type. -/
  | inherited (types : List String)
  | unknown
deriving DecidableEq, Repr

structure Usage where
  space : NameSpace
  /-- Number of arguments, for a call. -/
  arguments : Option Nat
deriving DecidableEq, Repr

namespace Outline

variable (outline : Outline) (index : ProjectIndex)

/-- Chooses among declarations of one scope: the only one, or the only one that accepts the arguments. -/
def choose (candidates : List DeclarationId) (arguments : Option Nat) : Resolution :=
  match candidates, arguments with
  | [only], _ => .resolved only
  | _, none => .ambiguous candidates
  | _, some count =>
    match candidates.filter fun id => ((outline.declaration? id).bind (·.arity)).any (·.accepts count) with
    | [only] => .resolved only
    | [] => .ambiguous candidates
    | accepting => .ambiguous accepting

def externalMember (types : List String) (name : String) : Resolution :=
  (index.member? types name).elim .unresolved .external

/-- Binds a bare name used in a scope at a byte offset. -/
def bindBareName (scope : ScopeId) (name : String) (usage : Usage) (offset : Nat) : Resolution :=
  match outline.lookup scope name usage.space (some offset) with
  | some (_, candidates) => outline.choose candidates usage.arguments
  | none =>
    match if usage.space = .value then outline.lookup scope name .type (some offset) else none with
    | some (_, candidates) => outline.choose candidates none
    | none =>
      if usage.space = .type then .unresolved
      else externalMember index ((outline.ancestors scope).flatMap outline.supertypesOf) name

/-- Members of a type of this file; a value that is not found may be a member type. -/
def members (type : ScopeId) (name : String) (space : NameSpace) : List DeclarationId :=
  match outline.declaredIn type name space with
  | [] => if space = .value then outline.declaredIn type name .type else []
  | found => found

def bindMember (receiver : Receiver) (name : String) (usage : Usage) : Lookup × Resolution :=
  match receiver with
  | .localType type =>
    match outline.members type name usage.space with
    | [] => (.member type, externalMember index (outline.supertypesOf type) name)
    | found => (.member type, outline.choose found usage.arguments)
  | .named type => (.foreign, externalMember index [type] name)
  | .inherited types => (.foreign, externalMember index types name)
  | .unknown => (.foreign, .unresolved)

def receiverOfType (type : DeclaredType) (scope : ScopeId) : Receiver :=
  if type.isArray || isTypeKeyword type.base then .unknown
  else
    match outline.lookup scope type.base .type none with
    | some (_, [only]) => ((outline.declaration? only).bind (·.body)).elim .unknown .localType
    | some _ => .unknown
    | none => .named type.base

def receiverOfName (id : DeclarationId) : Receiver :=
  match outline.declaration? id with
  | none => .unknown
  | some declaration =>
    match declaration.kind with
    | .type => declaration.body.elim .unknown .localType
    | .method => .unknown
    | .field | .parameter | .localVariable =>
      declaration.declaredType.elim .unknown (outline.receiverOfType · declaration.scope)

def receiverOfCall (id : DeclarationId) : Receiver :=
  match outline.declaration? id with
  | none => .unknown
  | some declaration =>
    if declaration.kind = .method then
      declaration.declaredType.elim .unknown (outline.receiverOfType · declaration.scope)
    else
      .unknown

end Outline

namespace Code

variable (code : Code) (outline : Outline) (index : ProjectIndex)

def isReference (position : Nat) : Bool :=
  code.isIdentifier position && (outline.declarationAt? position).isNone

def usageAt (position : Nat) : Usage :=
  if outline.isPathWord position then ⟨.value, none⟩
  else if outline.isTypeWord position then ⟨.type, none⟩
  else if code.followsPunctuation position "::" then ⟨.method, none⟩
  else if code.isPunctuation (position + 1) "(" then ⟨.method, some (code.argumentCount (position + 1))⟩
  else ⟨.value, none⟩

def isQualified (position : Nat) : Bool :=
  code.followsPunctuation position "." || code.followsPunctuation position "::"

mutual

def bindingAt (position : Nat) : Lookup × Resolution :=
  if outline.isPathWord position then (.path, .unresolved)
  else
    let usage := code.usageAt outline position
    if _ : 2 ≤ position ∧ code.isQualified position then
      outline.bindMember index (receiverAt (position - 2)) (code.text position) usage
    else
      let scope := outline.home position
      (.lexical scope, outline.bindBareName index scope (code.text position) usage (outline.startOf position))
termination_by 2 * position
decreasing_by omega

/-- What the expression that ends at a position evaluates to: `this`, `super`, a name or a call. -/
def receiverAt (position : Nat) : Receiver :=
  let type := outline.enclosingType? (outline.home position)
  if code.isKeyword position "this" then
    if _ : 2 ≤ position ∧ code.followsPunctuation position "." then
      match receiverAt (position - 2) with
      | .localType outer => .localType outer
      | _ => .unknown
    else
      type.elim .unknown .localType
  else if code.isKeyword position "super" then
    type.elim .unknown fun scope => .inherited (outline.supertypesOf scope)
  else if code.isReference outline position then
    match (bindingAt position).2 with
    | .resolved id => outline.receiverOfName id
    | _ => .unknown
  else if code.isPunctuation position ")" then
    match code.partner? position with
    | some (callee + 1) =>
      if _ : callee < position then
        if code.isReference outline callee then
          match (bindingAt callee).2 with
          | .resolved id => outline.receiverOfCall id
          | _ => .unknown
        else
          .unknown
      else
        .unknown
    | _ => .unknown
  else
    .unknown
termination_by 2 * position + 1
decreasing_by all_goals omega

end

def referenceAt? (position : Nat) : Option Reference :=
  if code.isReference outline position then
    let (lookup, resolution) := code.bindingAt outline index position
    some
      { position, name := code.text position, scope := outline.home position
        space := (code.usageAt outline position).space, lookup, resolution }
  else
    none

def references : Array Reference :=
  ((List.range code.size).filterMap (code.referenceAt? outline index)).toArray

end Code

end ScopedRename
