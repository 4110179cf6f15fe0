import ScopedRename.Proofs.Outline.Settled

/-!
What a method or constructor adds to an outline: one scope over its header and body, the method itself unless it is a
constructor, its type parameters and its parameters. Main statement: the step adds this scope and these entries, in that
order, and the outline has them as the step leaves them.
-/

namespace ScopedRename

namespace Outline

def entries (outline : Outline) : List (DeclarationKind × ScopeId × Nat) :=
  outline.declarations.toList.map fun declaration => (declaration.kind, declaration.scope, declaration.position)

theorem mem_entries {outline : Outline} {kind : DeclarationKind} {scope : ScopeId} {word : Nat} :
    (kind, scope, word) ∈ outline.entries ↔
      ∃ declaration ∈ outline.declarations,
        declaration.kind = kind ∧ declaration.scope = scope ∧ declaration.position = word := by
  unfold entries
  rw [List.mem_map]
  simp only [Array.mem_toList_iff, Prod.mk.injEq]

end Outline

namespace Walk

variable {code : Code} {walk before middle after : Walk} {position : Nat}

theorem Settles.mem_entries {word : Nat} (settles : Settles word before after) {kind : DeclarationKind}
    {scope : ScopeId} : (kind, scope, word) ∈ after.entries ↔ (kind, scope, word) ∈ before.entries := by
  rw [Outline.mem_entries, Outline.mem_entries]
  constructor
  · rintro ⟨declaration, member, facts⟩
    exact ⟨declaration, (settles.mem_declarations facts.2.2).mp member, facts⟩
  · rintro ⟨declaration, member, facts⟩
    exact ⟨declaration, (settles.mem_declarations facts.2.2).mpr member, facts⟩

theorem Visits.not_mem_entries {state : Walk} (visits : Visits code (Walk.start code.layout) 0 state position)
    (kind : DeclarationKind) (word : Nat) : (kind, state.scopes.size, word) ∉ state.entries := by
  obtain ⟨walk, rfl, formed⟩ := visits.keeps (fun _ _ inside formed => Formed.step formed inside) (Formed.start code)
  intro member
  obtain ⟨declaration, listed, _, place, _⟩ := Outline.mem_entries.mp member
  exact absurd place (Nat.ne_of_lt (formed.placed declaration listed))

structure Enters (added : List (DeclarationKind × ScopeId × Nat)) (before after : Walk) : Prop where
  scopes : after.scopes = before.scopes
  entries : after.entries = before.entries ++ added

namespace Enters

variable {added further : List (DeclarationKind × ScopeId × Nat)}

theorem same (scopes : after.scopes = before.scopes) (declarations : after.declarations = before.declarations) :
    Enters [] before after where
  scopes := scopes
  entries := by
    unfold Outline.entries
    rw [declarations, List.append_nil]

theorem trans (left : Enters added before middle) (right : Enters further middle after) :
    Enters (added ++ further) before after where
  scopes := right.scopes.trans left.scopes
  entries := by rw [right.entries, left.entries, List.append_assoc]

theorem markTypes (code : Code) (walk : Walk) (words : List Nat) : Enters [] walk (walk.markTypes code words) :=
  same rfl rfl

theorem declare (walk : Walk) {declaration : Declaration} {entry : DeclarationKind × ScopeId × Nat}
    (same : (declaration.kind, declaration.scope, declaration.position) = entry) :
    Enters [entry] walk (walk.declare declaration) where
  scopes := rfl
  entries := by
    unfold Outline.entries Walk.declare
    rw [Array.toList_push, List.map_append, List.map_singleton, same]

theorem assignRange (walk : Walk) (first last : Nat) (scope : ScopeId) :
    Enters [] walk (walk.assignRange first last scope) :=
  same (assignRange_scopes first last scope) (assignRange_roles walk first last scope).1

theorem foldl {item : Type} {apply : Walk → item → Walk} {added : item → List (DeclarationKind × ScopeId × Nat)}
    (step : ∀ walk entry, Enters (added entry) walk (apply walk entry)) (items : List item) (walk : Walk) :
    Enters (items.flatMap added) walk (items.foldl apply walk) := by
  induction items generalizing walk with
  | nil => exact same rfl rfl
  | cons entry rest ih =>
      rw [List.flatMap_cons]
      exact (step walk entry).trans (ih (apply walk entry))

/-- Declarations made in front of a new scope and inside it. -/
theorem opened {named : Walk} {kind : ScopeKind} {title : Option String} {extent : Extent} {supertypes : List String}
    {inConstants : Bool} (outside : Enters added walk named) (current : named.frame = walk.frame)
    (inside : Enters further (named.openScope kind title extent supertypes inConstants) after) :
    after.scopes =
        walk.scopes.push ⟨kind, title, some walk.frame.scope, some extent, supertypes, walk.scopes.size⟩ ∧
      after.entries = walk.entries ++ (added ++ further) := by
  have opening : (named.openScope kind title extent supertypes inConstants).scopes =
      named.scopes.push ⟨kind, title, some named.frame.scope, some extent, supertypes, named.scopes.size⟩ := rfl
  have former : (named.openScope kind title extent supertypes inConstants).entries = named.entries := rfl
  rw [inside.scopes, inside.entries, opening, former, outside.scopes, outside.entries, current, List.append_assoc]
  exact ⟨rfl, rfl⟩

end Enters

variable (code)

theorem declareParameter_enters (walk : Walk) (scope : ScopeId) (kind : DeclarationKind) (segment : Nat × Nat) :
    Enters ((code.parameterName? segment.1 segment.2).map fun name => (kind, scope, name)).toList walk
      (declareParameter code walk scope kind segment) := by
  unfold declareParameter
  cases code.parameterName? segment.1 segment.2 with
  | none => exact Enters.same rfl rfl
  | some name =>
      exact (Enters.markTypes code walk (code.parameterTypeWords name segment.1)).trans (Enters.declare _ rfl)

theorem declareParameters_enters (walk : Walk) (scope : ScopeId) (kind : DeclarationKind) (opener : Nat) :
    Enters ((code.parameterNames opener).map fun name => (kind, scope, name)) walk
      ((code.segments opener true).foldl (declareParameter code · scope kind) walk) := by
  have each := Enters.foldl (fun walk segment => declareParameter_enters code walk scope kind segment)
    (code.segments opener true) walk
  rw [← List.filterMap_eq_flatMap_toList, ← List.map_filterMap] at each
  exact each

theorem freeParameters_enters (walk : Walk) (scope : ScopeId) (parameters : List Nat) :
    Enters (parameters.map fun parameter => (.type, scope, parameter)) walk
      (parameters.foldl (fun walk parameter => (declareTypeParameter code walk scope parameter).unmarkType parameter)
        walk) := by
  induction parameters generalizing walk with
  | nil => exact Enters.same rfl rfl
  | cons parameter rest ih =>
      have declared : Enters [(.type, scope, parameter)] walk (declareTypeParameter code walk scope parameter) :=
        Enters.declare walk rfl
      have cleared : Enters [(.type, scope, parameter)] walk
          ((declareTypeParameter code walk scope parameter).unmarkType parameter) :=
        declared.trans (Enters.same rfl rfl)
      exact cleared.trans (ih _)

theorem listedParameters_enters (walk : Walk) (position : Nat) (scope : ScopeId) (type : Option TypeRun) :
    Enters ((type.elim [] code.listedParameters).map fun parameter => (.type, scope, parameter)) walk
      (match type.bind code.methodTypeParameters? with
      | some (start, stop) =>
        ((code.identifiersIn (start + 1) stop).filter code.startsTypeParameter).foldl
          (fun walk parameter => (declareTypeParameter code walk scope parameter).unmarkType parameter)
          (walk.assignRange start (position - 1) scope)
      | none => walk) := by
  cases type with
  | none => exact Enters.same rfl rfl
  | some run =>
      rw [Option.elim_some, Option.bind_some]
      unfold Code.listedParameters
      cases code.methodTypeParameters? run with
      | none => exact Enters.same rfl rfl
      | some list =>
          exact (Enters.assignRange walk list.1 (position - 1) scope).trans (freeParameters_enters code _ scope _)

variable {code} in
/-- The scope that a method opens, and the declarations it makes: itself, its type parameters and its parameters. -/
theorem methodDeclaration_adds (walk : Walk) (type : Option TypeRun) {close : Nat} {later : position + 1 < close}
    (closed : code.close? (position + 1) = some ⟨close, later⟩) :
    (walk.methodDeclaration code position type).1.scopes =
        walk.scopes.push ⟨.method, some (code.text position), some walk.frame.scope,
          some (methodExtent code position type close), [], walk.scopes.size⟩ ∧
      (walk.methodDeclaration code position type).1.entries =
        walk.entries ++ (type.toList.map (fun _ => (.method, walk.frame.scope, position)) ++
          ((type.elim [] code.listedParameters).map (fun parameter => (.type, walk.scopes.size, parameter)) ++
            (code.parameterNames (position + 1)).map (fun name => (.parameter, walk.scopes.size, name)))) := by
  have inner (opened : Walk) :=
    ((listedParameters_enters code opened position walk.scopes.size type).trans
      (Enters.assignRange _ (position + 1) (min (code.methodBody close) code.last) walk.scopes.size)).trans
      (declareParameters_enters code _ walk.scopes.size .parameter (position + 1))
  simp only [List.append_nil] at inner
  have whole {named : Walk} {added : List (DeclarationKind × ScopeId × Nat)} (outside : Enters added walk named)
      (current : named.frame = walk.frame) (extent : Extent) :=
    outside.opened current (inner (named.openScope .method (some (code.text position)) extent [] false))
  have thrown := Enters.markTypes code walk (code.methodHeader false (close + 1)).1
  unfold methodDeclaration
  dsimp only
  rw [closed]
  cases type with
  | none => exact whole (thrown.trans (Enters.markTypes code _ [position])) rfl _
  | some run => exact whole ((thrown.trans (Enters.markTypes code _ run.identifiers)).trans (Enters.declare _ rfl)) rfl _

variable {code}

theorem methodDeclaration_next (walk : Walk) (type : Option TypeRun) {close : Nat} {later : position + 1 < close}
    (closed : code.close? (position + 1) = some ⟨close, later⟩) :
    (walk.methodDeclaration code position type).2 = code.methodBody close + 1 := by
  unfold methodDeclaration
  dsimp only
  rw [closed]
  rfl

/-- What a method leaves of a word behind a barrier is what the outline has of it. -/
theorem Visits.settles_method {state : Walk} {word : Nat} {type : Option TypeRun}
    (visits : Visits code (Walk.start code.layout) 0 state position)
    (reads : state.step code position = state.methodDeclaration code position type) {close : Nat}
    {later : position + 1 < close} (closed : code.close? (position + 1) = some ⟨close, later⟩)
    (barred : Barred code word (code.methodBody close + 1)) :
    Settles word (state.methodDeclaration code position type).1 (run code (Walk.start code.layout) 0) := by
  have settles : Barred code word (state.step code position).2 →
      Settles word (state.step code position).1 (run code (Walk.start code.layout) 0) := visits.settles
  rw [reads, methodDeclaration_next state type closed] at settles
  exact settles barred

theorem Visits.scope_method {state : Walk} {type : Option TypeRun}
    (visits : Visits code (Walk.start code.layout) 0 state position)
    (reads : state.step code position = state.methodDeclaration code position type) {close : Nat}
    {later : position + 1 < close} (closed : code.close? (position + 1) = some ⟨close, later⟩) :
    (Outline.ofCode code).scope? state.scopes.size =
      some ⟨.method, some (code.text position), some state.frame.scope, some (methodExtent code position type close),
        [], state.scopes.size⟩ := by
  unfold Outline.ofCode
  rw [visits.run_eq, reads]
  refine (run_grows _ _).scopes _ _ ?_
  unfold Outline.scope?
  rw [(methodDeclaration_adds state type closed).1]
  exact Array.getElem?_push_size

end Walk

end ScopedRename
