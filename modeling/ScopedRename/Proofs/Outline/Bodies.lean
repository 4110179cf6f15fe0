import ScopedRename.Proofs.Outline.Moves

/-!
The bodies of types and methods. Drawing up an outline never takes back a scope or a declaration, and a declaration that
records a body is followed at once by the scope it records. Main statement: the body of a type is a type scope, that of
a method a method scope, either carries the declared name and lies directly in the scope of the declaration, and nothing
else has a body.
-/

namespace ScopedRename

def DeclarationKind.bodyKind? : DeclarationKind → Option ScopeKind
  | .type => some .type
  | .method => some .method
  | .field | .parameter | .localVariable => none

namespace Outline

/-- The body, if there is one, is a scope for declarations of that kind, with the declared name and directly in the
scope of the declaration. -/
def Embodies (outline : Outline) (declaration : Declaration) : Prop :=
  ∀ body, declaration.body = some body → ∃ scope, outline.scope? body = some scope ∧
    declaration.kind.bodyKind? = some scope.kind ∧ scope.name = some declaration.name ∧
    scope.parent = some declaration.scope

/-- Scopes stay as they are, and declarations are added only together with their bodies. -/
structure Grows (before after : Outline) : Prop where
  scopes : ∀ scope entry, before.scope? scope = some entry → after.scope? scope = some entry
  declarations : ∀ declaration ∈ after.declarations, declaration ∈ before.declarations ∨ after.Embodies declaration

namespace Grows

variable {before middle after : Outline}

theorem embodies (grows : Grows before after) {declaration : Declaration} (embodied : before.Embodies declaration) :
    after.Embodies declaration := by
  intro body recorded
  obtain ⟨scope, found, facts⟩ := embodied body recorded
  exact ⟨scope, grows.scopes body scope found, facts⟩

theorem of_same (scopes : after.scopes = before.scopes) (declarations : after.declarations = before.declarations) :
    Grows before after where
  scopes scope entry found := by
    unfold scope? at found ⊢
    rw [scopes]
    exact found
  declarations declaration member := Or.inl (declarations ▸ member)

theorem refl (outline : Outline) : Grows outline outline := of_same rfl rfl

theorem trans (first : Grows before middle) (second : Grows middle after) : Grows before after where
  scopes scope entry found := second.scopes scope entry (first.scopes scope entry found)
  declarations declaration member := by
    rcases second.declarations declaration member with earlier | embodied
    · rcases first.declarations declaration earlier with known | embodied
      · exact Or.inl known
      · exact Or.inr (second.embodies embodied)
    · exact Or.inr embodied

end Grows

end Outline

namespace Walk

open Outline

variable {code : Code} {walk : Walk} {position : Nat}

/-! ### Elementary changes -/

private theorem declare_grows {declaration : Declaration} (bodiless : declaration.body = none) :
    Grows walk.toOutline (walk.declare declaration).toOutline where
  scopes scope entry found := found
  declarations other member := by
    rcases Array.mem_push.mp member with earlier | new
    · exact Or.inl earlier
    · right
      intro body recorded
      rw [new, bodiless] at recorded
      cases recorded

private theorem openScope_grows (walk : Walk) (kind : ScopeKind) (name : Option String) (extent : Extent)
    (supertypes : List String) (inConstants : Bool) :
    Grows walk.toOutline (walk.openScope kind name extent supertypes inConstants).toOutline where
  scopes scope entry found := by
    have inside : scope < walk.scopes.size := (Array.getElem?_eq_some_iff.mp found).1
    unfold scope? openScope enter
    dsimp only
    rw [Array.getElem?_push_lt inside]
    exact Array.getElem?_eq_getElem inside ▸ found
  declarations _ member := Or.inl member

/-- A declaration that records the scope opened next as its body. -/
private theorem declareBody_grows {declaration : Declaration} {kind : ScopeKind} (extent : Extent)
    (supertypes : List String) (inConstants : Bool) (recorded : declaration.body = some walk.scopes.size)
    (bodied : declaration.kind.bodyKind? = some kind) (placed : declaration.scope = walk.frame.scope) :
    Grows walk.toOutline
      ((walk.declare declaration).openScope kind (some declaration.name) extent supertypes inConstants).toOutline where
  scopes scope entry found :=
    (openScope_grows (walk.declare declaration) kind _ extent supertypes inConstants).scopes scope entry found
  declarations other member := by
    rcases Array.mem_push.mp member with earlier | new
    · exact Or.inl earlier
    · right
      intro body recordedBody
      rw [new, recorded] at recordedBody
      cases recordedBody
      refine ⟨_, Array.getElem?_push_size, ?_, ?_, ?_⟩
      · rw [new, bodied]
      · rw [new]
      · rw [new, placed]
        rfl

private theorem foldl_grows {item : Type} {apply : Walk → item → Walk} (items : List item)
    (step : ∀ walk entry, Grows walk.toOutline (apply walk entry).toOutline) :
    Grows walk.toOutline (items.foldl apply walk).toOutline := by
  induction items generalizing walk with
  | nil => exact Grows.refl _
  | cons entry rest ih => exact (step walk entry).trans ih

private theorem assignRange_grows (first last : Nat) (scope : ScopeId) :
    Grows walk.toOutline (walk.assignRange first last scope).toOutline :=
  foldl_grows _ fun _ _ => Grows.of_same rfl rfl

private theorem declareParameter_grows (scope : ScopeId) (kind : DeclarationKind) (segment : Nat × Nat) :
    Grows walk.toOutline (declareParameter code walk scope kind segment).toOutline := by
  unfold declareParameter
  split
  · exact Grows.refl _
  · rename_i name _
    have marked : Grows walk.toOutline (walk.markTypes code (code.parameterTypeWords name segment.1)).toOutline :=
      Grows.of_same rfl rfl
    exact marked.trans (declare_grows rfl)

private theorem declareParameters_grows (scope : ScopeId) (kind : DeclarationKind) (segments : List (Nat × Nat)) :
    Grows walk.toOutline (segments.foldl (declareParameter code · scope kind) walk).toOutline :=
  foldl_grows segments fun _ segment => declareParameter_grows scope kind segment

/-! ### Constructs -/

private theorem typeDeclaration_grows :
    Grows walk.toOutline (walk.typeDeclaration code position).1.toOutline := by
  unfold typeDeclaration
  dsimp only
  generalize (if code.isPunctuation (position + 1 + 1) "<" = true then code.angleClose? (position + 1 + 1)
    else none) = generics
  split
  · refine Grows.trans ?_ (declareParameters_grows _ _ _)
    refine Grows.trans ?_ (foldl_grows _ fun _ _ => declare_grows rfl)
    refine Grows.trans ?_ (assignRange_grows _ _ _)
    -- the recorded body is the number of the scope that is opened next
    refine Grows.trans ?_ (declareBody_grows _ _ _ rfl rfl rfl)
    exact Grows.of_same rfl rfl
  · refine Grows.trans ?_ (declare_grows rfl)
    exact Grows.of_same rfl rfl

/-- From the scope of a method to the end of its header. -/
private theorem methodHeader_grows {opened : Walk} (grows : Grows walk.toOutline opened.toOutline)
    (generics : Option (Nat × Nat)) (scope : ScopeId) (before opener last : Nat) (segments : List (Nat × Nat)) :
    Grows walk.toOutline
      (segments.foldl (declareParameter code · scope .parameter)
        (assignRange
          (match generics with
            | some (start, stop) =>
              ((code.identifiersIn (start + 1) stop).filter code.startsTypeParameter).foldl
                (fun walk parameter => (declareTypeParameter code walk scope parameter).unmarkType parameter)
                (opened.assignRange start before scope)
            | none => opened)
          opener last scope)).toOutline := by
  refine Grows.trans ?_ (declareParameters_grows _ _ _)
  refine Grows.trans ?_ (assignRange_grows _ _ _)
  cases generics with
  | none => exact grows
  | some generics =>
      refine (grows.trans (assignRange_grows _ _ _)).trans (foldl_grows _ ?_)
      intro walk parameter
      have declared : Grows walk.toOutline (declareTypeParameter code walk scope parameter).toOutline :=
        declare_grows rfl
      exact declared.trans (Grows.of_same rfl rfl)

private theorem methodDeclaration_grows (type : Option TypeRun) :
    Grows walk.toOutline (walk.methodDeclaration code position type).1.toOutline := by
  unfold methodDeclaration
  dsimp only
  split
  · exact Grows.refl _
  · refine methodHeader_grows ?_ _ _ _ _ _ _
    cases type with
    | none =>
        refine Grows.trans ?_ (openScope_grows _ _ _ _ _ _)
        exact Grows.of_same rfl rfl
    | some run =>
        refine Grows.trans ?_ (declareBody_grows _ _ _ rfl rfl rfl)
        exact Grows.of_same rfl rfl

private theorem headerBlock_grows : Grows walk.toOutline (walk.headerBlock code position).1.toOutline := by
  unfold headerBlock
  split
  · exact Grows.refl _
  · dsimp only
    split
    · exact (openScope_grows walk .block none _ [] false).trans (Grows.of_same rfl rfl)
    · exact (openScope_grows walk .block none _ [] false).trans (Grows.of_same rfl rfl)

private theorem lambda_grows (arrow : Nat) : Grows walk.toOutline (walk.lambda code position arrow).1.toOutline := by
  unfold lambda
  dsimp only
  have opened {extent : Extent} {scope : ScopeId} : Grows walk.toOutline
      (if code.isIdentifier position then
        ((walk.openScope .block none extent [] false).assignRange position arrow scope).declare
          { kind := .parameter, name := code.text position, scope, position }
      else
        (code.segments position true).foldl (declareParameter code · scope .parameter)
          ((walk.openScope .block none extent [] false).assignRange position arrow scope)).toOutline := by
    have block := (openScope_grows walk .block none extent [] false).trans
      (assignRange_grows position arrow scope)
    split
    · exact block.trans (declare_grows rfl)
    · exact block.trans (declareParameters_grows _ _ _)
  split
  · exact opened.trans (Grows.of_same rfl rfl)
  · exact opened

private theorem brace_grows : Grows walk.toOutline (walk.brace code position).1.toOutline := by
  unfold brace
  split
  · exact Grows.of_same rfl rfl
  · dsimp only
    have assigned {opened : Walk} (grows : Grows walk.toOutline opened.toOutline) :
        Grows walk.toOutline (opened.assign position walk.scopes.size).toOutline :=
      grows.trans (Grows.of_same rfl rfl)
    apply assigned
    split
    · exact openScope_grows _ _ _ _ _ _
    · split
      · exact openScope_grows _ _ _ _ _ _
      · exact openScope_grows _ _ _ _ _ _

private theorem variableDeclaration_grows (run : TypeRun) :
    Grows walk.toOutline (walk.variableDeclaration code position run).toOutline := by
  unfold variableDeclaration
  dsimp only
  refine Grows.trans (Grows.trans ?_ (declare_grows rfl)) (Grows.of_same rfl rfl)
  exact Grows.of_same rfl rfl

/-! ### Steps and runs -/

theorem step_grows : Grows walk.toOutline (walk.step code position).1.toOutline := by
  have move := step_move code walk position
  generalize walk.step code position = stepped at move ⊢
  cases move with
  | skip noCloser noOpener => exact Grows.refl _
  | path keyword inFile => exact (assignRange_grows _ _ _).trans (Grows.of_same rfl rfl)
  | type keyword identifier => exact typeDeclaration_grows
  | block keyword header closed => exact headerBlock_grows
  | typeName noCloser noOpener => exact Grows.of_same rfl rfl
  | bareLambda identifier isArrow => exact lambda_grows _
  | lambda opens closed isArrow => exact lambda_grows _
  | constant identifier among behind => exact declare_grows rfl
  | method identifier opener typed closed => exact methodDeclaration_grows _
  | declares identifier ends typed => exact variableDeclaration_grows _
  | declarator comma progress identifier =>
      refine Grows.trans ?_ (declare_grows rfl)
      exact Grows.of_same rfl rfl
  | deeper opens => exact Grows.of_same rfl rfl
  | closeGroup closes => exact Grows.of_same rfl rfl
  | claimed brace known => exact Grows.of_same rfl rfl
  | brace here unclaimed => exact brace_grows
  | semicolon here => exact Grows.of_same rfl rfl

theorem run_grows (walk : Walk) (position : Nat) : Grows walk.toOutline (run code walk position).toOutline := by
  rw [run]
  split
  · have arrived : Grows walk.toOutline (walk.arrive position).toOutline := Grows.of_same rfl rfl
    exact (arrived.trans step_grows).trans (run_grows _ _)
  · exact Grows.refl _
termination_by code.size - position

end Walk

/-- In the outline of code every body is a scope for its declaration. -/
theorem Outline.ofCode_embodies (code : Code) :
    ∀ declaration ∈ (ofCode code).declarations, (ofCode code).Embodies declaration := by
  intro declaration member
  rcases (Walk.run_grows (Walk.start code.layout) 0).declarations declaration member with none | embodied
  · cases Array.not_mem_empty _ none
  · exact embodied

end ScopedRename
