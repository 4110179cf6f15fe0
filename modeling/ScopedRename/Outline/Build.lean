import ScopedRename.Outline.Header
import ScopedRename.Outline.Walk

/-!
Drawing up the outline of code in one walk. Each construct that opens a scope or declares a name has its own step;
every step returns the changed state and the position to go on from.
-/

namespace ScopedRename

namespace Walk

variable (code : Code) (walk : Walk)

def declareParameter (scope : ScopeId) (kind : DeclarationKind) (segment : Nat × Nat) : Walk :=
  match code.parameterName? segment.1 segment.2 with
  | none => walk
  | some name =>
    let marked := walk.markTypes code (code.parameterTypeWords name segment.1)
    marked.declare
      { kind, name := code.text name, scope, position := name
        declaredType := (code.typeBefore? name).bind (code.typeOfName? · name) }

def declareTypeParameter (scope : ScopeId) (position : Nat) : Walk :=
  walk.declare { kind := .type, name := code.text position, scope, position }

/-- A `class`, `interface`, `enum` or `record`, whose name follows the keyword. Without a body it only declares the
name. -/
def typeDeclaration (position : Nat) : Walk × Nat :=
  let name := position + 1
  let outer := walk.frame.scope
  let generics := if code.isPunctuation (name + 1) "<" then code.angleClose? (name + 1) else none
  let parameters := generics.elim [] fun close => code.typeParametersFrom close 0 (name + 1)
  let bounds := generics.elim [] fun close =>
    (code.identifiersIn (name + 1) (close + 1)).filter (!parameters.contains ·)
  let afterGenerics := generics.elim (name + 1) (· + 1)
  let components := if code.isPunctuation afterGenerics "(" then code.segments afterGenerics true else []
  let afterComponents := (code.afterParentheses? afterGenerics).elim afterGenerics (·.val)
  let stop := code.headerStop afterComponents
  let declaration : Declaration := { kind := .type, name := code.text name, scope := outer, position := name }
  let walk := (walk.assign name outer).markTypes code (bounds ++ code.identifiersIn afterComponents stop)
  if code.isPunctuation stop openBrace then
    let scope := walk.scopes.size
    let extent : Extent := ⟨name, (code.close? stop).elim code.last (·.val)⟩
    let supertypes := code.supertypesFrom stop false 0 afterComponents
    let walk := walk.declare { declaration with body := some scope }
    let walk := walk.openScope .type (some (code.text name)) extent supertypes (code.isKeyword position "enum")
    let walk := walk.assignRange (name + 1) stop scope
    let walk := parameters.foldl (declareTypeParameter code · scope) walk
    (components.foldl (declareParameter code · scope .field) walk, stop + 1)
  else
    (walk.declare declaration, name + 1)

/-- A method named at the position, or a constructor when there is no return type. The name of a constructor refers to
its type. -/
def methodDeclaration (position : Nat) (type : Option TypeRun) : Walk × Nat :=
  let opener := position + 1
  match code.close? opener with
  | none => (walk, position + 1)
  | some ⟨close, _⟩ =>
    let (thrown, stop) := code.methodHeader false (close + 1)
    let last :=
      if code.isPunctuation stop openBrace then (code.close? stop).elim code.last (·.val) else min stop code.last
    let generics := type.bind code.methodTypeParameters?
    let segments := code.segments opener true
    let variadic := segments.any fun (first, last) =>
      (List.range' first (last + 1 - first)).any (code.isPunctuation · "...")
    let owner := walk.frame.scope
    let scope := walk.scopes.size
    let walk := walk.markTypes code thrown
    let walk := match type with
      | some run =>
        (walk.markTypes code run.identifiers).declare
          { kind := .method, name := code.text position, scope := owner, position
            declaredType := code.typeOfName? run position
            arity := some ⟨segments.length, variadic⟩
            body := some scope }
      | none => walk.markTypes code [position]
    let walk := walk.openScope .method (some (code.text position)) ⟨generics.elim opener (·.1), last⟩ [] false
    let walk := match generics with
      | some (start, stop) =>
        let parameters := (code.identifiersIn (start + 1) stop).filter code.startsTypeParameter
        parameters.foldl (fun walk parameter => (declareTypeParameter code walk scope parameter).unmarkType parameter)
          (walk.assignRange start (position - 1) scope)
      | none => walk
    let walk := walk.assignRange opener (min stop code.last) scope
    (segments.foldl (declareParameter code · scope .parameter) walk, stop + 1)

/-- `for (`, `catch (` and `try (` open a block over the header and the statement it governs. -/
def headerBlock (position : Nat) : Walk × Nat :=
  match code.close? (position + 1) with
  | none => (walk, position + 1)
  | some ⟨close, _⟩ =>
    let body := close + 1
    let braced := code.isPunctuation body openBrace
    let last :=
      if code.isKeyword position "for" || !braced then code.statementEnd body
      else (code.close? body).elim body (·.val)
    let scope := walk.scopes.size
    let walk := (walk.openScope .block none ⟨position, last⟩ [] false).assign position scope
    (if braced then walk.claim body else walk, position + 1)

def lambda (position arrow : Nat) : Walk × Nat :=
  let body := arrow + 1
  let braced := code.isPunctuation body openBrace
  let last := if braced then (code.close? body).elim code.last (·.val) else code.expressionEnd body
  let scope := walk.scopes.size
  let walk := (walk.openScope .block none ⟨position, last⟩ [] false).assignRange position arrow scope
  let walk :=
    if code.isIdentifier position then
      walk.declare { kind := .parameter, name := code.text position, scope, position }
    else
      (code.segments position true).foldl (declareParameter code · scope .parameter) walk
  (if braced then walk.claim body else walk, arrow + 1)

/-- An opening brace: an anonymous type, the body of an enum constant, or a block. -/
def brace (position : Nat) : Walk × Nat :=
  if walk.claimed.contains position then
    ({ walk with claimed := walk.claimed.filter (· != position) }, position + 1)
  else
    let extent : Extent := ⟨position, (code.close? position).elim code.last (·.val)⟩
    let scope := walk.scopes.size
    let opened := match code.anonymousSupertype? position with
      | some base => walk.openScope .type none extent [base] false
      | none =>
        if walk.frame.inConstants && walk.atBase then
          walk.openScope .type none extent (walk.nameOfScope walk.frame.scope).toList false
        else
          walk.openScope .block none extent [] false
    (opened.assign position scope, position + 1)

def comma (position : Nat) : Walk × Nat :=
  match walk.declarators with
  | none => (walk, position + 1)
  | some list =>
    if list.depth == walk.depth && list.frames == walk.frames.length && code.isIdentifier (position + 1)
        && code.endsDeclarator (position + 2) then
      let scope := walk.frame.scope
      let walk := (walk.assign (position + 1) scope).declare
        { kind := list.kind, name := code.text (position + 1), scope, position := position + 1
          declaredType := list.declaredType.map (code.withDimensions · (position + 1)) }
      (walk, position + 2)
    else
      (walk, position + 1)

def variableDeclaration (position : Nat) (run : TypeRun) : Walk :=
  let scope := walk.frame.scope
  let kind :=
    if walk.kindOfScope scope == .type && walk.atBase then DeclarationKind.field
    else if code.isCatchParameter run.start then .parameter
    else .localVariable
  let walk := (walk.markTypes code run.identifiers).declare
    { kind, name := code.text position, scope, position, declaredType := code.typeOfName? run position }
  { walk with declarators := some ⟨kind, code.declaredType? run, walk.depth, walk.frames.length⟩ }

def plainName (position : Nat) : Walk × Nat :=
  if code.endsDeclarator (position + 1) then
    match code.typeBefore? position with
    | some run =>
      if code.startsStatement run.start then (walk.variableDeclaration code position run, position + 1)
      else (walk, position + 1)
    | none => (walk, position + 1)
  else
    (walk, position + 1)

def identifier (position : Nat) : Walk × Nat :=
  let frame := walk.frame
  if code.isPunctuation (position + 1) "->" && !code.isCaseLabel position then
    walk.lambda code position (position + 1)
  else if frame.inConstants && walk.atBase
      && (code.followsPunctuation position openBrace || code.followsPunctuation position ",") then
    let constant : Declaration :=
      { kind := .field, name := code.text position, scope := frame.scope, position
        declaredType := (walk.nameOfScope frame.scope).map (⟨·, false⟩) }
    (walk.declare constant, position + 1)
  else if walk.kindOfScope frame.scope == .type && walk.atBase && code.isPunctuation (position + 1) "(" then
    match code.typeBefore? position with
    | some run =>
      if code.startsStatement run.start then walk.methodDeclaration code position (some run)
      else walk.plainName code position
    | none =>
      if walk.nameOfScope frame.scope == some (code.text position) && code.startsStatement position then
        walk.methodDeclaration code position none
      else
        walk.plainName code position
  else
    walk.plainName code position

def importPath (position : Nat) : Walk × Nat :=
  let stop := ((List.range' position (code.size - position)).find? (code.isPunctuation · ";")).getD code.last
  let walk := walk.assignRange (position + 1) stop walk.frame.scope
  (walk.markPath code (List.range' (position + 1) (stop - position)), stop + 1)

def keyword (position : Nat) (text : String) : Walk × Nat :=
  if (text == "package" || text == "import") && walk.kindOfScope walk.frame.scope == .file then
    walk.importPath code position
  else if ["class", "interface", "enum", "record"].contains text && code.isIdentifier (position + 1)
      && !code.followsPunctuation position "." then
    walk.typeDeclaration code position
  else if ["for", "catch", "try"].contains text && code.isPunctuation (position + 1) "(" then
    walk.headerBlock code position
  else if text == "new" || text == "instanceof" then
    (walk.markTypes code (code.typeNameWords (position + 1)), position + 1)
  else
    (walk, position + 1)

/-- A closing parenthesis or square bracket ends the declaration in progress that started inside it. -/
def closeGroup : Walk :=
  let depth := walk.depth - 1
  { walk with depth, declarators := walk.declarators.filter fun list => list.depth ≤ depth }

def semicolon : Walk :=
  { walk with
    declarators := walk.declarators.filter fun list => list.depth != walk.depth
    frames := match walk.frames with
      | [] => []
      | frame :: outer =>
        { frame with inConstants := frame.inConstants && walk.depth != frame.depth } :: outer }

def punctuation (position : Nat) (text : String) : Walk × Nat :=
  if text == "(" then
    match code.close? position with
    | some ⟨close, _⟩ =>
      if code.isPunctuation (close + 1) "->" then walk.lambda code position (close + 1)
      else ({ walk with depth := walk.depth + 1 }, position + 1)
    | none => ({ walk with depth := walk.depth + 1 }, position + 1)
  else if text == "[" then ({ walk with depth := walk.depth + 1 }, position + 1)
  else if text == ")" || text == "]" then (walk.closeGroup, position + 1)
  else if text == openBrace then walk.brace code position
  else if text == ";" then (walk.semicolon, position + 1)
  else if text == "@" then
    if code.isIdentifier (position + 1) then
      (walk.markTypes code (code.typeNameWords (position + 1)), position + 1)
    else
      (walk, position + 1)
  else if text == "," then walk.comma code position
  else (walk, position + 1)

def step (position : Nat) : Walk × Nat :=
  match code.word? position with
  | none => (walk, position + 1)
  | some word =>
    match word.kind with
    | .keyword => walk.keyword code position word.text
    | .punctuation => walk.punctuation code position word.text
    | .identifier => walk.identifier code position
    | _ => (walk, position + 1)

def arrive (position : Nat) : Walk :=
  let walk := walk.leave position
  walk.assign position walk.frame.scope

/-- Reads the words from a position to the end. Every step goes forward; `max` records that. -/
def run (walk : Walk) (position : Nat) : Walk :=
  if position < code.size then
    let (walk, next) := (walk.arrive position).step code position
    run walk (max (position + 1) next)
  else
    walk
termination_by code.size - position

end Walk

namespace Outline

def ofCode (code : Code) : Outline := ((Walk.start code.layout).run code 0).toOutline

end Outline

end ScopedRename
