import ScopedRename.Proofs.Outline.Effect
import ScopedRename.Proofs.Outline.Marks

/-!
How a walk gives out roles to words. A word can name a declaration or be marked as naming a type. A step declares what it
reads, marks the types around it, also ahead of where it stands, and goes back over the type in front of a name and the
type parameters in front of that. Main statement: each step gives out the roles of the construct it reads, and no others.
-/

namespace ScopedRename

namespace Outline

def names (outline : Outline) : List Nat := outline.declarations.toList.map (·.position)

end Outline

namespace Walk

variable {code : Code} {walk before middle after : Walk} {position : Nat}

/-! ### Giving out roles -/

theorem assignRange_roles (walk : Walk) (first last : Nat) (scope : ScopeId) :
    (walk.assignRange first last scope).declarations = walk.declarations ∧
      (walk.assignRange first last scope).isTypeWord = walk.isTypeWord := by
  unfold assignRange
  induction List.range' first (last + 1 - first) generalizing walk with
  | nil => exact ⟨rfl, rfl⟩
  | cons word rest ih => exact ih (walk.assign word scope)

/-- Between two states the words `names` are declared, the identifiers among `types` are marked, and the words `freed` lose
their marks. -/
structure Casts (code : Code) (names types freed : List Nat) (before after : Walk) : Prop where
  declared : after.names = before.names ++ names
  marked : ∀ word, after.isTypeWord word = true ↔ word ∉ freed ∧
    (before.isTypeWord word = true ∨ word ∈ types ∧ code.isIdentifier word = true)

namespace Casts

variable {names others types further freed cleared : List Nat}

theorem same (declarations : after.declarations = before.declarations)
    (marks : after.isTypeWord = before.isTypeWord) : Casts code [] [] [] before after where
  declared := by
    unfold Outline.names
    rw [declarations, List.append_nil]
  marked word := by
    rw [marks]
    simp

theorem refl : Casts code [] [] [] walk walk := same rfl rfl

theorem isTypeWord (casts : Casts code names types freed before after) {word : Nat}
    (identifier : code.isIdentifier word = true) (typed : word ∈ types) (kept : word ∉ freed) :
    after.isTypeWord word = true :=
  (casts.marked word).mpr ⟨kept, Or.inr ⟨typed, identifier⟩⟩

theorem trans (left : Casts code names types freed before middle)
    (right : Casts code others further cleared middle after) (apart : ∀ word ∈ freed, word ∉ further) :
    Casts code (names ++ others) (types ++ further) (freed ++ cleared) before after where
  declared := by rw [right.declared, left.declared, List.append_assoc]
  marked word := by
    rw [right.marked, left.marked, List.mem_append, List.mem_append]
    have kept := apart word
    tauto

theorem append (left : Casts code names types [] before middle)
    (right : Casts code others further cleared middle after) :
    Casts code (names ++ others) (types ++ further) cleared before after :=
  left.trans right fun _ impossible => nomatch impossible

theorem settle (casts : Casts code names types freed before middle)
    (declarations : after.declarations = middle.declarations) (marks : after.isTypeWord = middle.isTypeWord) :
    Casts code names types freed before after where
  declared := by
    rw [← casts.declared]
    unfold Outline.names
    rw [declarations]
  marked word := by rw [← casts.marked, marks]

theorem claim (casts : Casts code names types freed before middle) (brace : Nat) :
    Casts code names types freed before (middle.claim brace) :=
  casts.settle rfl rfl

theorem openScope (casts : Casts code names types freed before middle) (kind : ScopeKind) (title : Option String)
    (extent : Extent) (supertypes : List String) (inConstants : Bool) :
    Casts code names types freed before (middle.openScope kind title extent supertypes inConstants) :=
  casts.settle rfl rfl

theorem assignRange (casts : Casts code names types freed before middle) (first last : Nat) (scope : ScopeId) :
    Casts code names types freed before (middle.assignRange first last scope) :=
  casts.settle (assignRange_roles middle first last scope).1 (assignRange_roles middle first last scope).2

theorem declare (code : Code) (walk : Walk) {declaration : Declaration} {name : Nat}
    (here : declaration.position = name) : Casts code [name] [] [] walk (walk.declare declaration) where
  declared := by
    unfold Outline.names Walk.declare
    rw [Array.toList_push, List.map_append, List.map_singleton, here]
  marked word := by
    have unchanged : (walk.declare declaration).isTypeWord word = walk.isTypeWord word := rfl
    rw [unchanged]
    simp

theorem markTypes (code : Code) (walk : Walk) (words : List Nat) :
    Casts code [] words [] walk (walk.markTypes code words) where
  declared := (List.append_nil _).symm
  marked word := by
    rw [walk.isTypeWord_markTypes code words]
    simp

theorem declareMarked (code : Code) (walk : Walk) (words : List Nat) {declaration : Declaration} {name : Nat}
    (here : declaration.position = name) :
    Casts code [name] words [] walk ((walk.markTypes code words).declare declaration) := by
  have both := (markTypes code walk words).append (declare code _ here)
  rw [List.append_nil] at both
  exact both

theorem unmarkType (code : Code) (walk : Walk) (word : Nat) :
    Casts code [] [] [word] walk (walk.unmarkType word) where
  declared := (List.append_nil _).symm
  marked other := by
    by_cases here : word = other
    · subst here
      rw [walk.isTypeWord_unmarkType_self]
      simp
    · rw [walk.isTypeWord_unmarkType word other here]
      simp [Ne.symm here]

theorem foldl {item : Type} {apply : Walk → item → Walk} {names types : item → List Nat}
    (step : ∀ walk entry, Casts code (names entry) (types entry) [] walk (apply walk entry)) (items : List item)
    (walk : Walk) : Casts code (items.flatMap names) (items.flatMap types) [] walk (items.foldl apply walk) := by
  induction items generalizing walk with
  | nil => exact same rfl rfl
  | cons entry rest ih =>
      rw [List.flatMap_cons, List.flatMap_cons]
      exact (step walk entry).append (ih (apply walk entry))

end Casts

variable (code)

theorem declareParameter_casts (walk : Walk) (scope : ScopeId) (kind : DeclarationKind) (segment : Nat × Nat) :
    Casts code (code.parameterName? segment.1 segment.2).toList
      ((code.parameterName? segment.1 segment.2).elim [] fun name => code.parameterTypeWords name segment.1) [] walk
      (declareParameter code walk scope kind segment) := by
  unfold declareParameter
  cases code.parameterName? segment.1 segment.2 with
  | none => exact Casts.same rfl rfl
  | some name => exact Casts.declareMarked code walk _ rfl

theorem declareParameters_casts (walk : Walk) (scope : ScopeId) (kind : DeclarationKind) (opener : Nat) :
    Casts code (code.parameterNames opener) (code.parameterTypes opener) [] walk
      ((code.segments opener true).foldl (declareParameter code · scope kind) walk) := by
  have each := Casts.foldl (fun walk segment => declareParameter_casts code walk scope kind segment)
    (code.segments opener true) walk
  rw [← List.filterMap_eq_flatMap_toList] at each
  exact each

variable {code} in
theorem Casts.parameters {names types freed : List Nat} (casts : Casts code names types freed before middle)
    (first last : Nat) (scope : ScopeId) (kind : DeclarationKind) (opener : Nat)
    (apart : ∀ word ∈ freed, word ∉ code.parameterTypes opener) :
    Casts code (names ++ code.parameterNames opener) (types ++ code.parameterTypes opener) freed before
      ((code.segments opener true).foldl (declareParameter code · scope kind)
        (middle.assignRange first last scope)) := by
  have both := (casts.assignRange first last scope).trans (declareParameters_casts code _ scope kind opener) apart
  rw [List.append_nil] at both
  exact both

theorem declareTypeParameter_casts (walk : Walk) (scope : ScopeId) (parameter : Nat) :
    Casts code [parameter] [] [] walk (declareTypeParameter code walk scope parameter) := Casts.declare code walk rfl

theorem declareTypeParameters_casts (walk : Walk) (scope : ScopeId) (positions : List Nat) :
    Casts code positions [] [] walk (positions.foldl (declareTypeParameter code · scope) walk) := by
  have each := Casts.foldl (fun walk parameter => declareTypeParameter_casts code walk scope parameter) positions walk
  rw [List.flatMap_singleton', List.flatMap_eq_nil_iff.mpr fun _ _ => rfl] at each
  exact each

/-- The type parameters of a method, which may have been marked as types when they were read. -/
theorem freeParameters_casts (walk : Walk) (scope : ScopeId) (positions : List Nat) :
    Casts code positions [] positions walk
      (positions.foldl (fun walk parameter => (declareTypeParameter code walk scope parameter).unmarkType parameter)
        walk) := by
  induction positions generalizing walk with
  | nil => exact Casts.same rfl rfl
  | cons parameter rest ih =>
      have single := (declareTypeParameter_casts code walk scope parameter).append (Casts.unmarkType code _ parameter)
      exact single.trans (ih _) fun _ _ impossible => nomatch impossible

theorem components_casts (walk : Walk) (scope : ScopeId) (position : Nat) :
    Casts code (code.componentNames position) (code.componentTypes position) [] walk
      ((if code.isPunctuation (code.componentsStart position) "(" then
        code.segments (code.componentsStart position) true else []).foldl
          (declareParameter code · scope .field) walk) := by
  unfold Code.componentNames Code.componentTypes
  split
  · exact declareParameters_casts code walk scope .field _
  · exact Casts.same rfl rfl

/-! ### Constructs -/

theorem typeDeclaration_casts (walk : Walk) (brace : code.isPunctuation (code.typeBody position) openBrace = true) :
    Casts code ((position + 1) :: (code.typeParameters position ++ code.componentNames position))
      (code.headerTypes position ++ code.componentTypes position) [] walk
      (walk.typeDeclaration code position).1 := by
  have result : walk.typeDeclaration code position = (_, code.typeBody position + 1) := if_pos brace
  rw [result]
  have named : Casts code [] [] [] walk (walk.assign (position + 1) walk.frame.scope) := Casts.same rfl rfl
  have header {declaration : Declaration} (here : declaration.position = position + 1) :=
    named.append (Casts.declareMarked code _ (code.headerTypes position) here)
  -- the marks on the header come first, then the name, its type parameters and its components are declared
  have whole := fun (opened : Walk) (scope : ScopeId)
      (start : Casts code [position + 1] (code.headerTypes position) [] walk opened) =>
    (start.append (declareTypeParameters_casts code opened scope (code.typeParameters position))).append
      (components_casts code _ scope position)
  simp only [List.append_nil, List.append_assoc] at whole
  exact whole _ _ (((header rfl).openScope _ _ _ _ _).assignRange _ _ _)

theorem typeName_casts (walk : Walk) (bodiless : code.isPunctuation (code.typeBody position) openBrace = false) :
    Casts code [position + 1] (code.headerTypes position) [] walk (walk.typeDeclaration code position).1 := by
  have result : walk.typeDeclaration code position = (_, position + 2) := if_neg (Bool.eq_false_iff.mp bodiless)
  rw [result]
  have named : Casts code [] [] [] walk (walk.assign (position + 1) walk.frame.scope) := Casts.same rfl rfl
  exact named.append (Casts.declareMarked code _ (code.headerTypes position) rfl)

variable {code} in
/-- The list of type parameters in front of a method's type is taken into its scope. -/
theorem listedParameters_casts {names types : List Nat} (casts : Casts code names types [] before middle)
    (position : Nat) (scope : ScopeId) (run : TypeRun) :
    Casts code (names ++ code.listedParameters run) types (code.listedParameters run) before
      (match code.methodTypeParameters? run with
      | some (start, stop) =>
        ((code.identifiersIn (start + 1) stop).filter code.startsTypeParameter).foldl
          (fun walk parameter => (declareTypeParameter code walk scope parameter).unmarkType parameter)
          (middle.assignRange start (position - 1) scope)
      | none => middle) := by
  unfold Code.listedParameters
  cases code.methodTypeParameters? run with
  | none =>
      rw [Option.elim_none, List.append_nil]
      exact casts
  | some list =>
      have freed := (casts.assignRange list.1 (position - 1) scope).append (freeParameters_casts code _ scope
        ((code.identifiersIn (list.1 + 1) list.2).filter code.startsTypeParameter))
      rw [List.append_nil] at freed
      exact freed

theorem methodDeclaration_casts (walk : Walk) {run : TypeRun} {close : Nat} {later : position + 1 < close}
    (typed : code.typeBefore? position = some run) (closed : code.close? (position + 1) = some ⟨close, later⟩) :
    Casts code (position :: (code.listedParameters run ++ code.parameterNames (position + 1)))
      ((code.methodHeader false (close + 1)).1 ++ run.identifiers ++ code.parameterTypes (position + 1))
      (code.listedParameters run) walk (walk.methodDeclaration code position (some run)).1 := by
  have apart : ∀ word ∈ code.listedParameters run, word ∉ code.parameterTypes (position + 1) := by
    intro word listed behind
    have := Code.listedParameters_lt listed
    have := code.typeBefore?_start_lt typed
    have := Code.lt_parameterTypes behind
    omega
  have named {declaration : Declaration} (here : declaration.position = position) :=
    (Casts.markTypes code walk (code.methodHeader false (close + 1)).1).append
      (Casts.declareMarked code _ run.identifiers here)
  have header {declaration : Declaration} (here : declaration.position = position) (extent : Extent) :=
    listedParameters_casts ((named here).openScope .method (some (code.text position)) extent [] false) position
      walk.scopes.size run
  unfold methodDeclaration
  dsimp only
  rw [closed]
  exact (header rfl _).parameters (position + 1) (min (code.methodBody close) code.last) walk.scopes.size .parameter
    (position + 1) apart

theorem constructor_casts (walk : Walk) {close : Nat} {later : position + 1 < close}
    (closed : code.close? (position + 1) = some ⟨close, later⟩) :
    Casts code (code.parameterNames (position + 1))
      ((code.methodHeader false (close + 1)).1 ++ [position] ++ code.parameterTypes (position + 1)) [] walk
      (walk.methodDeclaration code position none).1 := by
  have marked := (Casts.markTypes code walk (code.methodHeader false (close + 1)).1).append
    (Casts.markTypes code _ [position])
  have list {opened : Walk} {names types : List Nat} (start : Casts code names types [] walk opened) :=
    start.parameters (position + 1) (min (code.methodBody close) code.last) walk.scopes.size .parameter (position + 1)
      fun _ impossible => nomatch impossible
  unfold methodDeclaration
  dsimp only
  rw [closed]
  exact list (marked.openScope _ _ _ _ _)

theorem lambda_casts (walk : Walk) (arrow : Nat) (list : code.isIdentifier position = false) :
    Casts code (code.parameterNames position) (code.parameterTypes position) [] walk
      (walk.lambda code position arrow).1 := by
  have listed {opened : Walk} (start : Casts code [] [] [] walk opened) :
      Casts code (code.parameterNames position) (code.parameterTypes position) [] walk _ :=
    start.parameters position arrow walk.scopes.size .parameter position fun _ impossible => nomatch impossible
  unfold lambda
  dsimp only
  rw [if_neg (Bool.eq_false_iff.mp list)]
  split
  · exact (listed (Casts.refl.openScope _ _ _ _ _)).claim _
  · exact listed (Casts.refl.openScope _ _ _ _ _)

theorem parameter_casts (walk : Walk) (arrow : Nat) (identifier : code.isIdentifier position = true) :
    Casts code [position] [] [] walk (walk.lambda code position arrow).1 := by
  have declared {opened : Walk} {declaration : Declaration} (start : Casts code [] [] [] walk opened)
      (here : declaration.position = position) :
      Casts code [position] [] [] walk ((opened.assignRange position arrow walk.scopes.size).declare declaration) :=
    (start.assignRange position arrow walk.scopes.size).append (Casts.declare code _ here)
  unfold lambda
  dsimp only
  rw [if_pos identifier]
  split
  · exact (declared (Casts.refl.openScope _ _ _ _ _) rfl).claim _
  · exact declared (Casts.refl.openScope _ _ _ _ _) rfl

theorem variableDeclaration_casts (walk : Walk) (position : Nat) (run : TypeRun) :
    Casts code [position] run.identifiers [] walk (walk.variableDeclaration code position run) := by
  have declared {declaration : Declaration} (here : declaration.position = position) :=
    Casts.declareMarked code walk run.identifiers here
  exact (declared rfl).settle rfl rfl

/-! ### Steps -/

/-- The words that a step declares, marks as types and clears of marks, by what it reads. -/
inductive Roles (walk : Walk) (position : Nat) : List Nat → List Nat → List Nat → Prop where
  | idle : Roles walk position [] [] []
  /-- The type behind `new`, `instanceof` or `@`. -/
  | typeName {types : List Nat} (ahead : ∀ word ∈ types, position < word) : Roles walk position [] types []
  /-- A constant of an enum or the one parameter of a lambda. -/
  | bare (untyped : code.isPunctuation (position + 1) "->" = false → code.typeBefore? position = none) :
      Roles walk position [position] [] []
  | declarator : Roles walk position [position + 1] [] []
  | written {run : TypeRun} (typed : code.typeBefore? position = some run)
      (plain : code.isPunctuation (position + 1) "->" = false) : Roles walk position [position] run.identifiers []
  /-- A type without a body. -/
  | header : Roles walk position [position + 1] (code.headerTypes position) []
  | type (reads : walk.step code position = walk.typeDeclaration code position)
      (brace : code.isPunctuation (code.typeBody position) openBrace = true) :
      Roles walk position ((position + 1) :: (code.typeParameters position ++ code.componentNames position))
        (code.headerTypes position ++ code.componentTypes position) []
  | method {run : TypeRun} {close : Nat} {later : position + 1 < close}
      (reads : walk.step code position = walk.methodDeclaration code position (some run))
      (opener : code.isPunctuation (position + 1) "(" = true) (typed : code.typeBefore? position = some run)
      (closed : code.close? (position + 1) = some ⟨close, later⟩) :
      Roles walk position (position :: (code.listedParameters run ++ code.parameterNames (position + 1)))
        ((code.methodHeader false (close + 1)).1 ++ run.identifiers ++ code.parameterTypes (position + 1))
        (code.listedParameters run)
  | constructor {close : Nat} {later : position + 1 < close}
      (reads : walk.step code position = walk.methodDeclaration code position none)
      (closed : code.close? (position + 1) = some ⟨close, later⟩) :
      Roles walk position (code.parameterNames (position + 1))
        ((code.methodHeader false (close + 1)).1 ++ [position] ++ code.parameterTypes (position + 1)) []
  | lambda {arrow : Nat} (reads : walk.step code position = walk.lambda code position arrow)
      (list : code.isIdentifier position = false) :
      Roles walk position (code.parameterNames position) (code.parameterTypes position) []

inductive Plays (walk : Walk) (position : Nat) (after : Walk) : Prop where
  | intro {names types freed : List Nat} (roles : Roles code walk position names types freed)
      (casts : Casts code names types freed walk after) : Plays walk position after

variable {code}

theorem Plays.idle (declarations : after.declarations = walk.declarations)
    (marks : after.isTypeWord = walk.isTypeWord) : Plays code walk position after :=
  .intro .idle (Casts.same declarations marks)

private theorem typeNameWords_plays :
    Plays code walk position (walk.markTypes code (code.typeNameWords (position + 1))) :=
  .intro (.typeName fun _ member => code.le_typeNameWords member) (Casts.markTypes code walk _)

private theorem headerBlock_plays : Plays code walk position (walk.headerBlock code position).1 := by
  unfold headerBlock
  split
  · exact Plays.idle rfl rfl
  · dsimp only
    split
    · exact Plays.idle rfl rfl
    · exact Plays.idle rfl rfl

private theorem brace_plays : Plays code walk position (walk.brace code position).1 := by
  unfold brace
  split
  · exact Plays.idle rfl rfl
  · dsimp only
    split
    · exact Plays.idle rfl rfl
    · split
      · exact Plays.idle rfl rfl
      · exact Plays.idle rfl rfl

variable (code) in
/-- Every step gives out the roles of what it reads. -/
theorem step_plays (walk : Walk) (position : Nat) : Plays code walk position (walk.step code position).1 := by
  have move := step_move code walk position
  generalize reads : walk.step code position = stepped at move ⊢
  cases move with
  | skip noCloser noOpener => exact Plays.idle rfl rfl
  | path keyword inFile => exact Plays.idle (assignRange_roles _ _ _ _).1 (assignRange_roles _ _ _ _).2
  | type keyword identifier =>
      cases brace : code.isPunctuation (code.typeBody position) openBrace with
      | true => exact .intro (.type reads brace) (typeDeclaration_casts code walk brace)
      | false => exact .intro .header (typeName_casts code walk brace)
  | block keyword header closed => exact headerBlock_plays
  | typeName noCloser noOpener => exact typeNameWords_plays
  | bareLambda identifier isArrow =>
      refine Plays.intro (.bare fun noArrow => ?_) (parameter_casts code walk _ identifier)
      rw [isArrow] at noArrow
      cases noArrow
  | lambda opens closed isArrow =>
      have list : code.isIdentifier position = false := by
        rw [Bool.eq_false_iff]
        intro identifier
        rw [code.isPunctuation_of_isIdentifier identifier] at opens
        cases opens
      exact .intro (.lambda reads list) (lambda_casts code walk _ list)
  | constant identifier among behind =>
      -- no type is read in front of a constant, since a brace or a comma stands there
      refine Plays.intro (.bare fun _ => ?_) (Casts.declare code walk rfl)
      rcases behind with opens | separates
      · exact code.typeBefore?_of_followsPunctuation opens (by decide) (by decide) (by decide)
      · exact code.typeBefore?_of_followsPunctuation separates (by decide) (by decide) (by decide)
  | @method type close later identifier opener typed closed =>
      cases type with
      | none => exact .intro (.constructor reads closed) (constructor_casts code walk closed)
      | some run =>
          exact .intro (.method reads opener (typed run rfl) closed)
            (methodDeclaration_casts code walk (typed run rfl) closed)
  | declares identifier ends typed =>
      refine Plays.intro (.written typed ?_) (variableDeclaration_casts code walk position _)
      rw [Bool.eq_false_iff]
      intro arrow
      have each (mark : String) : code.isPunctuation (position + 1) mark = _ := Code.any_of_isPunctuation arrow _
      simp [Code.endsDeclarator, each, Lexeme.isPunctuation] at ends
  | declarator comma progress identifier =>
      refine Plays.intro .declarator ?_
      have assigned : Casts code [] [] [] walk (walk.assign (position + 1) walk.frame.scope) := Casts.same rfl rfl
      exact assigned.append (Casts.declare code _ rfl)
  | deeper opens => exact Plays.idle rfl rfl
  | closeGroup closes => exact Plays.idle rfl rfl
  | claimed brace known => exact Plays.idle rfl rfl
  | brace here unclaimed => exact brace_plays
  | semicolon here => exact Plays.idle rfl rfl

end Walk

end ScopedRename
