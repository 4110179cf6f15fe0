import ScopedRename.Code.TypeRun
import ScopedRename.Code.Statement
import ScopedRename.Outline.Basic

/-! What the headers of types, methods and parameters say, read off the code without changing anything. -/

namespace ScopedRename.Code

variable (code : Code)

def startsTypeParameter (position : Nat) : Bool :=
  code.isIdentifier position && (code.followsPunctuation position "<" || code.followsPunctuation position ",")

/-- Type parameters of the angle-bracketed list that closes at `close`, reading on from a position inside `depth`
brackets. Only the list's own level counts. -/
def typeParametersFrom (close depth position : Nat) : List Nat :=
  if position ≤ close then
    if code.isPunctuation position "<" then typeParametersFrom close (depth + 1) (position + 1)
    else if code.isPunctuation position ">" then typeParametersFrom close (depth - 1) (position + 1)
    else if depth == 1 && code.startsTypeParameter position then
      position :: typeParametersFrom close depth (position + 1)
    else typeParametersFrom close depth (position + 1)
  else
    []
termination_by close + 1 - position

/-- Where the body or the end of a declaration follows: the first opening brace or semicolon from a position on. -/
def headerStop (position : Nat) : Nat :=
  if position < code.size then
    if code.isPunctuation position openBrace || code.isPunctuation position ";" then position
    else headerStop (position + 1)
  else
    position
termination_by code.size - position

def opensInheritance (position : Nat) : Bool :=
  code.isKeyword position "extends" || code.isKeyword position "implements" || code.isKeyword position "permits"

/-- Simple names of the supertypes listed from a position up to `stop`, type arguments left out. -/
def supertypesFrom (stop : Nat) (inClause : Bool) (angle position : Nat) : List String :=
  if position < stop then
    if code.opensInheritance position then supertypesFrom stop true angle (position + 1)
    else if code.isPunctuation position "<" then supertypesFrom stop inClause (angle + 1) (position + 1)
    else if code.isPunctuation position ">" then supertypesFrom stop inClause (angle - 1) (position + 1)
    else if code.isIdentifier position && inClause && angle == 0 && !code.isPunctuation (position + 1) "." then
      code.text position :: supertypesFrom stop inClause angle (position + 1)
    else supertypesFrom stop inClause angle (position + 1)
  else
    []
termination_by stop - position

/-- Words of the `throws` clause after a method's parameters, and where its body or end follows. -/
def methodHeader (throwing : Bool) (position : Nat) : List Nat × Nat :=
  if position < code.size then
    if code.isPunctuation position openBrace || code.isPunctuation position ";" then ([], position)
    else
      let here := if throwing then [position] else []
      let throwing := throwing || code.isKeyword position "throws"
      match code.afterGroup? position with
      | some ⟨next, _⟩ =>
        let further := methodHeader throwing next
        (here ++ further.1, further.2)
      | none =>
        let further := methodHeader throwing (position + 1)
        (here ++ further.1, further.2)
  else
    ([], position)
termination_by code.size - position

def methodTypeParameters? (type : TypeRun) : Option (Nat × Nat) :=
  match type.start with
  | 0 => none
  | close + 1 => if code.isPunctuation close ">" then (code.angleOpen? close).map (·, close) else none

def beforeBrackets (first : Nat) : Nat → Nat
  | 0 => 0
  | position + 1 =>
    if first < position + 1 && (code.isPunctuation (position + 1) "]" || code.isPunctuation (position + 1) "[") then
      beforeBrackets first position
    else
      position + 1

def parameterName? (first last : Nat) : Option Nat :=
  let name := code.beforeBrackets first last
  if code.isIdentifier name then some name else none

def dottedName (position : Nat) : List Nat × Nat :=
  if position < code.size then
    if code.isIdentifier position then
      if code.isPunctuation (position + 1) "." then
        let further := dottedName (position + 2)
        (position :: further.1, further.2)
      else
        ([position], position + 1)
    else
      ([], position)
  else
    ([], position)
termination_by code.size - position

/-- Words in front of a parameter's name that name its type or an annotation. Groups are skipped. -/
def parameterTypeWords (name position : Nat) : List Nat :=
  if position < name then
    if code.isPunctuation position "@" then
      let annotation := code.dottedName (position + 1)
      let next := (code.afterParentheses? annotation.2).elim annotation.2 (·.val)
      annotation.1 ++ parameterTypeWords name (max (position + 1) next)
    else
      match code.afterGroup? position with
      | some ⟨next, _⟩ => parameterTypeWords name next
      | none => position :: parameterTypeWords name (position + 1)
  else
    []
termination_by name - position

def endsDeclarator (position : Nat) : Bool :=
  ["=", ";", ",", ":", ")"].any (code.isPunctuation position)
    || (code.isPunctuation position "[" && code.isPunctuation (position + 1) "]")

def isCatchParameter (start : Nat) : Bool :=
  (code.followsPunctuation start "(" && 2 ≤ start && code.isKeyword (start - 2) "catch")
    || code.followsPunctuation start "|"

def continuesLabel (position : Nat) : Bool :=
  (code.word? position).any fun word =>
    word.isIdentifier || word.isPunctuation "," || word.isPunctuation "."
      || word.kind == .number || word.kind == .stringLiteral

/-- The word before an arrow ends a list of `case` labels and is no lambda parameter. -/
def isCaseLabel : Nat → Bool
  | 0 => false
  | previous + 1 =>
    if code.isKeyword previous "case" then true
    else if code.continuesLabel previous then isCaseLabel previous
    else false

def typeNameWords (position : Nat) : List Nat :=
  if position < code.size then
    if code.isIdentifier position && code.isPunctuation (position + 1) "." && code.isIdentifier (position + 2) then
      position :: typeNameWords (position + 2)
    else
      let arguments :=
        if code.isPunctuation (position + 1) "<" then
          match code.angleClose? (position + 1) with
          | some close => code.identifiersIn (position + 2) close
          | none => []
        else
          []
      if code.isIdentifier position then position :: arguments else arguments
  else
    []
termination_by code.size - position

def declaredType? (run : TypeRun) : Option DeclaredType :=
  let base := code.text (run.simple.getD run.start)
  if base == "var" then none else some ⟨base, run.isArray⟩

/-- The type with the dimensions written after the name, as in `int a[]`. -/
def withDimensions (type : DeclaredType) (name : Nat) : DeclaredType :=
  if code.isPunctuation (name + 1) "[" && code.isPunctuation (name + 2) "]" then { type with isArray := true }
  else type

def typeOfName? (run : TypeRun) (name : Nat) : Option DeclaredType :=
  (code.declaredType? run).map (code.withDimensions · name)

/-- The type that the anonymous class opened by a brace extends, as in `new Base(...)` before the brace. -/
def anonymousSupertype? (brace : Nat) : Option String :=
  match brace with
  | 0 => none
  | close + 1 =>
    if code.isPunctuation close ")" then do
      let opener ← code.partner? close
      let run ← code.typeBefore? opener
      if code.followsKeyword run.start "new" then run.simple.map code.text else none
    else
      none

end ScopedRename.Code
