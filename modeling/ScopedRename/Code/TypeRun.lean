import ScopedRename.Code.Brackets

/-!
Types written in code: matching the angle brackets of type arguments, finding the type in front of a name, and telling
where a declaration may begin.
-/

namespace ScopedRename

structure TypeRun where
  /-- First position of the type. -/
  start : Nat
  /-- Positions of all identifiers of the type, type arguments included. -/
  identifiers : List Nat
  /-- Position of the simple type name, unless the type is a keyword. -/
  simple : Option Nat
  /-- An array or variable-arity type. -/
  isArray : Bool
deriving DecidableEq, Repr

namespace Code

variable (code : Code)

def isTypeArgumentPart (position : Nat) : Bool :=
  match code.word? position with
  | none => false
  | some word =>
    match word.kind with
    | .identifier => true
    | .keyword => word.text == "extends" || word.text == "super" || isTypeKeyword word.text
    | .punctuation => [",", ".", "?", "&", "[", "]", "<", ">"].contains word.text
    | _ => false

def angleOpenFrom : Nat → Nat → Option Nat
  | depth, 0 =>
    if code.isPunctuation 0 "<" && depth == 1 then some 0 else none
  | depth, position + 1 =>
    if !code.isTypeArgumentPart (position + 1) then none
    else if code.isPunctuation (position + 1) ">" then angleOpenFrom (depth + 1) position
    else if code.isPunctuation (position + 1) "<" then
      if depth == 1 then some (position + 1) else angleOpenFrom (depth - 1) position
    else angleOpenFrom depth position

/-- The `<` that the `>` at the position closes, if only type arguments stand between them. -/
def angleOpen? (close : Nat) : Option Nat := code.angleOpenFrom 0 close

def genericOpen? (close : Nat) : Option Nat :=
  match code.angleOpen? close with
  | some (before + 1) => if code.isIdentifier before then some (before + 1) else none
  | _ => none

def angleCloseFrom (depth position : Nat) : Option Nat :=
  if position < code.size then
    if !code.isTypeArgumentPart position then none
    else if code.isPunctuation position "<" then angleCloseFrom (depth + 1) (position + 1)
    else if code.isPunctuation position ">" then
      if depth == 1 then some position else angleCloseFrom (depth - 1) (position + 1)
    else angleCloseFrom depth (position + 1)
  else
    none
termination_by code.size - position

def angleClose? (start : Nat) : Option Nat := code.angleCloseFrom 0 start

def beforeDimensions : Nat → Option Nat
  | 0 => some 0
  | 1 => if code.isPunctuation 1 "]" && code.isPunctuation 0 "[" then none else some 1
  | position + 2 =>
    if code.isPunctuation (position + 2) "]" && code.isPunctuation (position + 1) "[" then
      beforeDimensions position
    else
      some (position + 2)

def qualifiedName : Nat → List Nat
  | position + 2 =>
    if code.isPunctuation (position + 1) "." && code.isIdentifier position then
      qualifiedName position ++ [position + 2]
    else
      [position + 2]
  | position => [position]

def qualifiedStart : Nat → Nat
  | position + 2 =>
    if code.isPunctuation (position + 1) "." && code.isIdentifier position then qualifiedStart position
    else position + 2
  | position => position

def identifiersIn (start stop : Nat) : List Nat :=
  (List.range' start (stop - start)).filter code.isIdentifier

/-- The type whose last word, dimensions left out, stands at the position. -/
def typeEndingAt (isArray : Bool) (position : Nat) : Option TypeRun := do
  let (arguments, name) ←
    if code.isPunctuation position ">" then do
      let start ← code.genericOpen? position
      pure (code.identifiersIn (start + 1) position, start - 1)
    else
      pure ([], position)
  if (code.word? name).any fun word => word.kind == .keyword && isTypeKeyword word.text then
    return ⟨name, arguments, none, isArray⟩
  else if code.isIdentifier name then
    return ⟨code.qualifiedStart name, code.qualifiedName name ++ arguments, some name, isArray⟩
  else
    none

/-- The type written directly in front of the position: a type keyword, or a name that may be qualified and carry type
arguments, then any number of bracket pairs and, for a variable-arity parameter, an ellipsis. -/
def typeBefore? : Nat → Option TypeRun
  | 0 => none
  | position + 1 => do
    let variadic := code.isPunctuation position "..."
    let written ← if variadic then (if position == 0 then none else some (position - 1)) else some position
    let base ← code.beforeDimensions written
    code.typeEndingAt (variadic || base != written) base

def isAnnotationName (position : Nat) : Bool :=
  code.isIdentifier position && code.followsPunctuation (code.qualifiedStart position) "@"

/-- Modifiers, and the test after which a pattern variable may be declared. -/
def declarationLeads : List String :=
  ["final", "static", "public", "private", "protected", "abstract", "transient", "volatile", "synchronized", "native",
    "strictfp", "default", "sealed", "instanceof"]

/-- A declaration may begin at the position: at the start, after the end of a statement, after a modifier, an
annotation or a list of type parameters. -/
def startsStatement (position : Nat) : Bool :=
  match position with
  | 0 => true
  | previous + 1 =>
    match code.word? previous with
    | none => true
    | some word =>
      match word.kind with
      | .punctuation =>
        if [";", openBrace, closeBrace, "(", ":", "|"].contains word.text then
          true
        else if word.text == ")" then
          match code.partner? previous with
          | some (name + 1) => 1 ≤ name && code.isAnnotationName name
          | _ => false
        else if word.text == ">" then
          match code.angleOpen? previous with
          | some start => if start < previous + 1 then startsStatement start else false
          | none => false
        else
          false
      | .keyword => declarationLeads.contains word.text
      | .identifier => code.isAnnotationName previous
      | _ => false
termination_by position

end Code

end ScopedRename
