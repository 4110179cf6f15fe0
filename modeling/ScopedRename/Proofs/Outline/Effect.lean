import ScopedRename.Proofs.Code.Headers
import ScopedRename.Proofs.Outline.Marks
import ScopedRename.Proofs.Outline.Moves

/-!
What one step of a walk does to the scopes, the homes of words and the declarations. A step fills in the current scope,
or it opens one scope inside the current one and fills that in; with its type parameters, a method also takes in words
that were read before. Main statement: every step has one of these effects, and each construct says which words and
which extent they concern.
-/

namespace ScopedRename

namespace Walk

def places (walk : Walk) : List (ScopeId × Nat) := walk.frames.map fun frame => (frame.scope, frame.last)

structure Alike (before after : Walk) : Prop where
  scopes : after.scopes = before.scopes
  places : after.places = before.places
  layout : after.layout = before.layout
  homes : after.homes = before.homes
  declarations : after.declarations = before.declarations

theorem Alike.refl (walk : Walk) : Alike walk walk := ⟨rfl, rfl, rfl, rfl, rfl⟩

/-! ### Filling in a scope -/

/-- Between two states, `words` are assigned to a scope and declarations are made there whose positions, ascending, are
among `names`; the scopes and the frames stay. -/
structure Fills (scope : ScopeId) (words names : Nat → Prop) (before after : Walk) : Prop where
  scopes : after.scopes = before.scopes
  places : after.places = before.places
  layout : after.layout = before.layout
  assigned : ∀ word, word < before.layout.size → words word → after.homeAt? word = some scope
  kept : ∀ word, (words word → before.layout.size ≤ word) → after.homeAt? word = before.homeAt? word
  declared : ∃ added : List Declaration, after.declarations.toList = before.declarations.toList ++ added ∧
    added.Pairwise (fun left right => left.position < right.position) ∧
    ∀ declaration ∈ added, declaration.scope = scope ∧ names declaration.position

namespace Fills

variable {scope : ScopeId} {words others names further : Nat → Prop} {before middle after : Walk}

theorem idle (alike : Alike before after) (empty : ∀ word, ¬words word) : Fills scope words names before after where
  scopes := alike.scopes
  places := alike.places
  layout := alike.layout
  assigned word _ member := absurd member (empty word)
  kept word _ := Outline.homeAt?_congr alike.layout alike.homes word
  declared := by
    refine ⟨[], ?_, List.Pairwise.nil, ?_⟩
    · rw [alike.declarations, List.append_nil]
    · intro declaration member
      cases member

/-- Names declared later stand behind those declared before. -/
theorem trans (left : Fills scope words names before middle) (right : Fills scope others further middle after)
    (ordered : ∀ name other, names name → further other → name < other) :
    Fills scope (fun word => words word ∨ others word) (fun name => names name ∨ further name) before after where
  scopes := right.scopes.trans left.scopes
  places := right.places.trans left.places
  layout := right.layout.trans left.layout
  assigned word inside member := by
    by_cases again : others word
    · exact right.assigned word (left.layout ▸ inside) again
    · rw [right.kept word fun among => absurd among again]
      exact left.assigned word inside (member.resolve_right again)
  kept word outside := by
    rw [right.kept word fun member => left.layout ▸ outside (Or.inr member),
      left.kept word fun member => outside (Or.inl member)]
  declared := by
    obtain ⟨first, firstAdded, firstOrdered, firstFacts⟩ := left.declared
    obtain ⟨second, secondAdded, secondOrdered, secondFacts⟩ := right.declared
    refine ⟨first ++ second, ?_, ?_, ?_⟩
    · rw [secondAdded, firstAdded, List.append_assoc]
    · refine List.pairwise_append.mpr ⟨firstOrdered, secondOrdered, ?_⟩
      intro one here other there
      exact ordered _ _ (firstFacts one here).2 (secondFacts other there).2
    · intro declaration member
      rcases List.mem_append.mp member with here | there
      · exact ⟨(firstFacts declaration here).1, Or.inl (firstFacts declaration here).2⟩
      · exact ⟨(secondFacts declaration there).1, Or.inr (secondFacts declaration there).2⟩

theorem congr (fills : Fills scope words names before after) (sameWords : ∀ word, words word ↔ others word)
    (moreNames : ∀ name, names name → further name) : Fills scope others further before after where
  scopes := fills.scopes
  places := fills.places
  layout := fills.layout
  assigned word inside member := fills.assigned word inside ((sameWords word).mpr member)
  kept word outside := fills.kept word fun member => outside ((sameWords word).mp member)
  declared := by
    obtain ⟨added, list, ordered, facts⟩ := fills.declared
    exact ⟨added, list, ordered, fun declaration member =>
      ⟨(facts declaration member).1, moreNames _ (facts declaration member).2⟩⟩

theorem settle (fills : Fills scope words names before middle) (alike : Alike middle after) :
    Fills scope words names before after where
  scopes := alike.scopes.trans fills.scopes
  places := alike.places.trans fills.places
  layout := alike.layout.trans fills.layout
  assigned word inside member :=
    (Outline.homeAt?_congr alike.layout alike.homes word).trans (fills.assigned word inside member)
  kept word outside := (Outline.homeAt?_congr alike.layout alike.homes word).trans (fills.kept word outside)
  declared := alike.declarations ▸ fills.declared

theorem assign (walk : Walk) (word : Nat) (scope : ScopeId) :
    Fills scope (fun other => other = word) (fun _ => False) walk (walk.assign word scope) where
  scopes := rfl
  places := rfl
  layout := rfl
  assigned other inside here := by rw [homeAt?_assign, if_pos ⟨here.symm, inside⟩]
  kept other outside := by
    rw [homeAt?_assign, if_neg]
    rintro ⟨here, inside⟩
    have := outside here.symm
    omega
  declared := by
    refine ⟨[], (List.append_nil _).symm, List.Pairwise.nil, ?_⟩
    intro declaration member
    cases member

/-- A declaration, made after some words were marked. -/
theorem declare {marked : Walk} {declaration : Declaration} (alike : Alike before marked)
    (placed : declaration.scope = scope) (named : names declaration.position) (empty : ∀ word, ¬words word) :
    Fills scope words names before (marked.declare declaration) where
  scopes := alike.scopes
  places := alike.places
  layout := alike.layout
  assigned word _ member := absurd member (empty word)
  kept word _ := Outline.homeAt?_congr alike.layout alike.homes word
  declared := by
    refine ⟨[{ declaration with id := marked.declarations.size }], ?_, List.pairwise_singleton _ _, ?_⟩
    · rw [← alike.declarations]
      exact Array.toList_push
    · intro other member
      rw [List.mem_singleton.mp member]
      exact ⟨placed, named⟩

theorem foldl {item : Type} {apply : Walk → item → Walk} {items : List item} {words names : item → Nat → Prop}
    (step : ∀ walk, ∀ entry ∈ items, Fills scope (words entry) (names entry) walk (apply walk entry))
    (ordered : items.Pairwise fun left right => ∀ name other, names left name → names right other → name < other)
    (walk : Walk) :
    Fills scope (fun word => ∃ entry ∈ items, words entry word) (fun name => ∃ entry ∈ items, names entry name) walk
      (items.foldl apply walk) := by
  induction items generalizing walk with
  | nil =>
      refine idle (Alike.refl walk) ?_
      rintro word ⟨_, impossible, _⟩
      cases impossible
  | cons entry rest ih =>
      obtain ⟨here, later⟩ := List.pairwise_cons.mp ordered
      have first := step walk entry List.mem_cons_self
      have others := ih (fun walk other member => step walk other (List.mem_cons_of_mem _ member)) later
        (apply walk entry)
      refine (first.trans others ?_).congr ?_ ?_
      · rintro name other declared ⟨later, member, alsoDeclared⟩
        exact here later member name other declared alsoDeclared
      · intro word
        rw [List.exists_mem_cons_iff]
      · intro name
        rw [List.exists_mem_cons_iff]
        exact id

theorem assignRange (walk : Walk) (first last : Nat) (scope : ScopeId) :
    Fills scope (fun word => first ≤ word ∧ word ≤ last) (fun _ => False) walk (walk.assignRange first last scope) := by
  have each : Fills scope (fun word => ∃ entry ∈ List.range' first (last + 1 - first), word = entry)
      (fun _ => ∃ entry ∈ List.range' first (last + 1 - first), False) walk (walk.assignRange first last scope) :=
    foldl (fun walk word _ => Fills.assign walk word scope)
      (List.pairwise_of_forall fun _ _ _ _ impossible => impossible.elim) walk
  refine each.congr ?_ ?_
  · intro word
    simp only [List.mem_range'_1, exists_eq_right']
    omega
  · rintro name ⟨_, _, impossible⟩
    exact impossible

end Fills

variable {code : Code} {walk : Walk} {position : Nat}

theorem declareParameter_fills (walk : Walk) (scope : ScopeId) (kind : DeclarationKind) {segment : Nat × Nat}
    (ordered : segment.1 ≤ segment.2) :
    Fills scope (fun _ => False)
      (fun name => code.isIdentifier name = true ∧ segment.1 ≤ name ∧ name ≤ segment.2) walk
      (declareParameter code walk scope kind segment) := by
  unfold declareParameter
  split
  · exact Fills.idle (Alike.refl walk) fun _ => id
  · rename_i name found
    have bounds := code.parameterName?_bounds ordered found
    exact Fills.declare ⟨rfl, rfl, rfl, rfl, rfl⟩ rfl bounds fun _ => id

theorem declareParameters_fills {opener close : Nat} {later : opener < close}
    (closed : code.close? opener = some ⟨close, later⟩) (walk : Walk) (scope : ScopeId) (kind : DeclarationKind) :
    Fills scope (fun _ => False) (fun name => code.isIdentifier name = true ∧ opener < name ∧ name < close) walk
      ((code.segments opener true).foldl (declareParameter code · scope kind) walk) := by
  refine (Fills.foldl (fun walk segment member =>
    declareParameter_fills walk scope kind (code.segments_bounds closed member).2.1) ?_ walk).congr ?_ ?_
  · refine (code.segments_ascending opener true).imp ?_
    intro left right before name other here there
    omega
  · intro word
    exact ⟨fun ⟨_, _, impossible⟩ => impossible, False.elim⟩
  · rintro name ⟨segment, member, identifier, low, high⟩
    have bounds := code.segments_bounds closed member
    exact ⟨identifier, by omega, by omega⟩

theorem declareTypeParameter_fills (walk : Walk) (scope : ScopeId) (position : Nat) :
    Fills scope (fun _ => False) (fun name => name = position) walk (declareTypeParameter code walk scope position) :=
  Fills.declare (Alike.refl walk) rfl rfl fun _ => id

theorem declareTypeParameters_fills {positions : List Nat} (ascending : positions.Pairwise (· < ·)) (walk : Walk)
    (scope : ScopeId) :
    Fills scope (fun _ => False) (fun name => name ∈ positions) walk
      (positions.foldl (declareTypeParameter code · scope) walk) := by
  refine (Fills.foldl (fun walk position _ => declareTypeParameter_fills walk scope position) ?_ walk).congr ?_ ?_
  · refine ascending.imp ?_
    rintro left right before name other rfl rfl
    exact before
  · intro word
    exact ⟨fun ⟨_, _, impossible⟩ => impossible, False.elim⟩
  · rintro name ⟨position, member, rfl⟩
    exact member

/-! ### Opening a scope -/

/-- A step at `position` that goes on from `next` opens a scope over an extent inside the current one. Up to `middle`
it fills in the current scope, from there the new one; the new one also takes in the words from `start` on. -/
inductive Opening (code : Code) (position start middle next : Nat) (extent : Extent) (walk after : Walk) : Prop where
  | intro (named listed : Walk) (kind : ScopeKind) (title : Option String) (supertypes : List String)
      (inConstants : Bool) (noFile : kind ≠ .file)
      (outside : Fills walk.frame.scope (fun word => position < word ∧ word < middle)
        (fun name => code.isIdentifier name = true ∧ position ≤ name ∧ name < middle) walk named)
      (list : Fills walk.scopes.size (fun word => start ≤ word ∧ word < position)
        (fun name => code.startsTypeParameter name = true ∧ start < name ∧ name < position)
        (named.openScope kind title extent supertypes inConstants) listed)
      (inside : Fills walk.scopes.size (fun word => middle ≤ word ∧ word < next ∧ word < code.size)
        (fun name => code.isIdentifier name = true ∧ middle ≤ name ∧ name < next) listed after) :
      Opening code position start middle next extent walk after

/-- A scope that takes in no words read before. -/
theorem Opening.ahead {middle next : Nat} {extent : Extent} {named after : Walk} {kind : ScopeKind}
    {title : Option String} {supertypes : List String} {inConstants : Bool}
    (inside : Fills walk.scopes.size (fun word => middle ≤ word ∧ word < next ∧ word < code.size)
      (fun name => code.isIdentifier name = true ∧ middle ≤ name ∧ name < next)
      (named.openScope kind title extent supertypes inConstants) after)
    (outside : Fills walk.frame.scope (fun word => position < word ∧ word < middle)
      (fun name => code.isIdentifier name = true ∧ position ≤ name ∧ name < middle) walk named)
    (noFile : kind ≠ .file) : Opening code position position middle next extent walk after := by
  refine Opening.intro named _ kind title supertypes inConstants noFile outside ?_ inside
  exact Fills.idle (Alike.refl _) fun word => by omega

/-- A scope opened with nothing in front of it. -/
theorem Opening.here {next : Nat} {extent : Extent} {after : Walk} {kind : ScopeKind} {title : Option String}
    {supertypes : List String} {inConstants : Bool}
    (inside : Fills walk.scopes.size (fun word => position ≤ word ∧ word < next ∧ word < code.size)
      (fun name => code.isIdentifier name = true ∧ position ≤ name ∧ name < next)
      (walk.openScope kind title extent supertypes inConstants) after)
    (noFile : kind ≠ .file) : Opening code position position position next extent walk after :=
  Opening.ahead inside (Fills.idle (Alike.refl walk) fun word => by omega) noFile

/-- The components of a record, if a list of them starts at a position. -/
theorem components_fills (start : Nat) (walk : Walk) (scope : ScopeId) :
    Fills scope (fun _ => False)
      (fun name => code.isIdentifier name = true ∧ start < name ∧
        name < (code.afterParentheses? start).elim start (·.val)) walk
      ((if code.isPunctuation start "(" then code.segments start true else []).foldl
        (declareParameter code · scope .field) walk) := by
  split
  · rename_i opens
    unfold Code.afterParentheses? Code.afterGroup?
    rw [if_pos opens]
    cases closed : code.close? start with
    | none =>
        unfold Code.segments
        rw [closed]
        exact Fills.idle (Alike.refl walk) fun _ => id
    | some found =>
        obtain ⟨close, later⟩ := found
        refine (declareParameters_fills closed walk scope .field).congr (fun _ => Iff.rfl) ?_
        rintro name ⟨identifier, low, high⟩
        exact ⟨identifier, low, Nat.lt_succ_of_lt high⟩
  · exact Fills.idle (Alike.refl walk) fun _ => id

private theorem nextName_fills {walk marked : Walk} {declaration : Declaration}
    (alike : Alike (walk.assign (position + 1) walk.frame.scope) marked)
    (identifier : code.isIdentifier (position + 1) = true) (placed : declaration.scope = walk.frame.scope)
    (named : declaration.position = position + 1) :
    Fills walk.frame.scope (fun word => position < word ∧ word < position + 2)
      (fun name => code.isIdentifier name = true ∧ position ≤ name ∧ name < position + 2) walk
      (marked.declare declaration) := by
  have assigned := (Fills.assign walk (position + 1) walk.frame.scope).settle alike
  have declared : Fills walk.frame.scope (fun _ => False)
      (fun name => code.isIdentifier name = true ∧ position ≤ name ∧ name < position + 2) marked
      (marked.declare declaration) :=
    Fills.declare (Alike.refl _) placed (named ▸ ⟨identifier, Nat.le_succ _, Nat.lt_succ_self _⟩) fun _ => id
  refine (assigned.trans declared fun _ _ => False.elim).congr ?_ ?_
  · intro word
    rw [or_false]
    omega
  · rintro name (impossible | here)
    · exact impossible.elim
    · exact here

theorem typeDeclaration_opening (walk : Walk) (identifier : code.isIdentifier (position + 1) = true)
    (brace : code.isPunctuation (code.typeBody position) openBrace = true) :
    ∃ after, walk.typeDeclaration code position = (after, code.typeBody position + 1) ∧
      Opening code position position (position + 2) (code.typeBody position + 1)
        ⟨position + 1, code.groupEnd (code.typeBody position)⟩ walk after := by
  have inside := code.isPunctuation_lt_size brace
  have start := code.le_componentsStart position
  have components := code.componentsStart_le position
  have body := code.componentsEnd_le position
  refine ⟨_, if_pos brace, ?_⟩
  apply Opening.ahead
  case inside =>
    refine Fills.congr (Fills.trans (Fills.trans (Fills.assignRange _ (position + 2) (code.typeBody position) _)
      (declareTypeParameters_fills (Code.typeParameters_ascending position) _ _) ?_)
        (components_fills (code.componentsStart position) _ _) ?_) ?_ ?_
    · exact fun _ _ => False.elim
    · rintro name other (impossible | parameter) component
      · exact impossible.elim
      · have := Code.typeParameters_bounds parameter
        omega
    · intro word
      simp only [or_false]
      omega
    · rintro name ((impossible | parameter) | ⟨component, low, high⟩)
      · exact impossible.elim
      · have bounds := Code.typeParameters_bounds parameter
        exact ⟨bounds.1, bounds.2.1, by omega⟩
      · exact ⟨component, by omega, Nat.lt_succ_of_le (Nat.le_of_lt (Nat.lt_of_lt_of_le high body))⟩
  case outside => exact nextName_fills ⟨rfl, rfl, rfl, rfl, rfl⟩ identifier rfl rfl
  case noFile => decide

theorem typeDeclaration_fills (walk : Walk) (identifier : code.isIdentifier (position + 1) = true)
    (bodiless : code.isPunctuation (code.typeBody position) openBrace = false) :
    ∃ after, walk.typeDeclaration code position = (after, position + 2) ∧
      Fills walk.frame.scope (fun word => position < word ∧ word < position + 2)
        (fun name => code.isIdentifier name = true ∧ position ≤ name ∧ name < position + 2) walk after := by
  refine ⟨_, if_neg (Bool.eq_false_iff.mp bodiless), ?_⟩
  exact nextName_fills ⟨rfl, rfl, rfl, rfl, rfl⟩ identifier rfl rfl

/-- The type parameters of a method, which stand in front of its name. -/
private theorem methodList_fills {start stop : Nat} (bound : start < stop ∧ stop < position) (walk : Walk)
    (scope : ScopeId) :
    Fills scope (fun word => start ≤ word ∧ word < position)
      (fun name => code.startsTypeParameter name = true ∧ start < name ∧ name < position) walk
      (((code.identifiersIn (start + 1) stop).filter code.startsTypeParameter).foldl
        (fun walk parameter => (declareTypeParameter code walk scope parameter).unmarkType parameter)
        (walk.assignRange start (position - 1) scope)) := by
  have each (walk : Walk) (parameter : Nat) : Fills scope (fun _ => False) (fun name => name = parameter) walk
      ((declareTypeParameter code walk scope parameter).unmarkType parameter) :=
    (declareTypeParameter_fills walk scope parameter).settle ⟨rfl, rfl, rfl, rfl, rfl⟩
  have ascending : ((code.identifiersIn (start + 1) stop).filter code.startsTypeParameter).Pairwise (· < ·) :=
    (code.identifiersIn_ascending _ _).filter _
  refine ((Fills.assignRange walk start (position - 1) scope).trans
    (Fills.foldl (fun walk parameter _ => each walk parameter) ?_ _) fun _ _ => False.elim).congr ?_ ?_
  · refine ascending.imp ?_
    rintro left right before name other rfl rfl
    exact before
  · intro word
    simp only [and_false, exists_false, or_false]
    omega
  · rintro name (impossible | ⟨parameter, member, rfl⟩)
    · exact impossible.elim
    · obtain ⟨inside, starts⟩ := List.mem_filter.mp member
      have bounds := (code.mem_identifiersIn.mp inside).1
      exact ⟨starts, by omega, by omega⟩

def methodStart (code : Code) (position : Nat) (type : Option TypeRun) : Nat :=
  (type.bind code.methodTypeParameters?).elim position (·.1)

def methodExtent (code : Code) (position : Nat) (type : Option TypeRun) (close : Nat) : Extent :=
  ⟨(type.bind code.methodTypeParameters?).elim (position + 1) (·.1), code.methodEnd close⟩

theorem methodDeclaration_opening (walk : Walk) {type : Option TypeRun} {close : Nat} {later : position + 1 < close}
    (identifier : code.isIdentifier position = true) (closed : code.close? (position + 1) = some ⟨close, later⟩)
    (typed : ∀ run, type = some run → code.typeBefore? position = some run) (inside : position + 1 < code.size) :
    ∃ after, walk.methodDeclaration code position type = (after, code.methodBody close + 1) ∧
      Opening code position (methodStart code position type) (position + 1) (code.methodBody close + 1)
        (methodExtent code position type close) walk after := by
  have bodyBound : close + 1 ≤ code.methodBody close := code.le_methodHeader false (close + 1)
  -- the parenthesis and the rest of the header belong to the new scope
  have header : ∀ opened : Walk,
      Fills walk.scopes.size
        (fun word => position + 1 ≤ word ∧ word < code.methodBody close + 1 ∧ word < code.size)
        (fun name => code.isIdentifier name = true ∧ position + 1 ≤ name ∧ name < code.methodBody close + 1) opened
        ((code.segments (position + 1) true).foldl (declareParameter code · walk.scopes.size .parameter)
          (opened.assignRange (position + 1) (min (code.methodBody close) code.last) walk.scopes.size)) := by
    intro opened
    refine Fills.congr (Fills.trans (Fills.assignRange opened _ _ _) (declareParameters_fills closed _ _ _) ?_) ?_ ?_
    · exact fun _ _ => False.elim
    · intro word
      rw [or_false]
      unfold Code.last
      omega
    · rintro name (impossible | ⟨parameter, low, high⟩)
      · exact impossible.elim
      · exact ⟨parameter, by omega, by omega⟩
  unfold methodDeclaration methodStart methodExtent
  dsimp only
  rw [closed]
  refine ⟨_, rfl, ?_⟩
  cases type with
  | none =>
      apply Opening.ahead
      case inside => exact header _
      case outside => exact Fills.idle ⟨rfl, rfl, rfl, rfl, rfl⟩ fun word => by omega
      case noFile => decide
  | some run =>
      have named {marked : Walk} {declaration : Declaration} (alike : Alike walk marked)
          (placed : declaration.scope = walk.frame.scope) (here : declaration.position = position) :
          Fills walk.frame.scope (fun word => position < word ∧ word < position + 1)
            (fun name => code.isIdentifier name = true ∧ position ≤ name ∧ name < position + 1) walk
            (marked.declare declaration) := by
        refine Fills.declare alike placed ?_ fun word => by omega
        rw [here]
        exact ⟨identifier, Nat.le_refl _, Nat.lt_succ_self _⟩
      dsimp only [Option.bind_some]
      cases found : code.methodTypeParameters? run with
      | none =>
          apply Opening.ahead
          case inside => exact header _
          case outside => exact named ⟨rfl, rfl, rfl, rfl, rfl⟩ rfl rfl
          case noFile => decide
      | some generics =>
          obtain ⟨start, stop⟩ := generics
          have bounds := code.methodTypeParameters?_bounds (typed run rfl) found
          apply Opening.intro
          case inside => exact header _
          case list => exact methodList_fills ⟨bounds.1, bounds.2.1⟩ _ _
          case outside => exact named ⟨rfl, rfl, rfl, rfl, rfl⟩ rfl rfl
          case noFile => decide

theorem headerBlock_opening (walk : Walk) {close : Nat} {later : position + 1 < close}
    (closed : code.close? (position + 1) = some ⟨close, later⟩) (inside : position < code.size) :
    ∃ after, walk.headerBlock code position = (after, position + 1) ∧
      Opening code position position position (position + 1) ⟨position, code.headerEnd position close⟩ walk after := by
  unfold headerBlock
  rw [closed]
  refine ⟨_, rfl, ?_⟩
  have assigned (opened : Walk) : Fills walk.scopes.size
      (fun word => position ≤ word ∧ word < position + 1 ∧ word < code.size)
      (fun name => code.isIdentifier name = true ∧ position ≤ name ∧ name < position + 1) opened
      (opened.assign position walk.scopes.size) := by
    refine (Fills.assign opened position walk.scopes.size).congr ?_ fun _ => False.elim
    intro word
    omega
  split
  · apply Opening.here
    case inside => exact (assigned _).settle ⟨rfl, rfl, rfl, rfl, rfl⟩
    case noFile => decide
  · apply Opening.here
    case inside => exact assigned _
    case noFile => decide

theorem lambda_opening (walk : Walk) {arrow : Nat} (ordered : position < arrow)
    (isArrow : code.isPunctuation arrow "->" = true)
    (list : code.isIdentifier position = false →
      ∃ close, ∃ later : position < close, code.close? position = some ⟨close, later⟩ ∧ close < arrow) :
    ∃ after, walk.lambda code position arrow = (after, arrow + 1) ∧
      Opening code position position position (arrow + 1) ⟨position, code.lambdaEnd arrow⟩ walk after := by
  have inside := code.isPunctuation_lt_size isArrow
  have last : (if code.isPunctuation (arrow + 1) openBrace then (code.close? (arrow + 1)).elim code.last (·.val)
    else code.expressionEnd (arrow + 1)) = code.lambdaEnd arrow := rfl
  unfold lambda
  refine ⟨_, rfl, ?_⟩
  rw [last]
  have filled (opened : Walk) : Fills walk.scopes.size
      (fun word => position ≤ word ∧ word < arrow + 1 ∧ word < code.size)
      (fun name => code.isIdentifier name = true ∧ position ≤ name ∧ name < arrow + 1) opened
      (if code.isIdentifier position then
        (opened.assignRange position arrow walk.scopes.size).declare
          { kind := .parameter, name := code.text position, scope := walk.scopes.size, position }
      else
        (code.segments position true).foldl (declareParameter code · walk.scopes.size .parameter)
          (opened.assignRange position arrow walk.scopes.size)) := by
    have parameters : Fills walk.scopes.size (fun _ => False)
        (fun name => code.isIdentifier name = true ∧ position ≤ name ∧ name < arrow + 1)
        (opened.assignRange position arrow walk.scopes.size)
        (if code.isIdentifier position then
          (opened.assignRange position arrow walk.scopes.size).declare
            { kind := .parameter, name := code.text position, scope := walk.scopes.size, position }
        else
          (code.segments position true).foldl (declareParameter code · walk.scopes.size .parameter)
            (opened.assignRange position arrow walk.scopes.size)) := by
      split
      · rename_i identifier
        exact Fills.declare (Alike.refl _) rfl ⟨identifier, Nat.le_refl _, Nat.lt_succ_of_lt ordered⟩ fun _ => id
      · rename_i other
        obtain ⟨close, later, closed, before⟩ := list (Bool.eq_false_iff.mpr other)
        refine (declareParameters_fills closed _ _ _).congr (fun _ => Iff.rfl) ?_
        rintro name ⟨parameter, low, high⟩
        exact ⟨parameter, by omega, by omega⟩
    refine ((Fills.assignRange opened position arrow walk.scopes.size).trans parameters
      fun _ _ => False.elim).congr ?_ ?_
    · intro word
      rw [or_false]
      omega
    · rintro name (impossible | here)
      · exact impossible.elim
      · exact here
  split
  · apply Opening.here
    case inside => exact (filled _).settle ⟨rfl, rfl, rfl, rfl, rfl⟩
    case noFile => decide
  · apply Opening.here
    case inside => exact filled _
    case noFile => decide

theorem brace_opening (walk : Walk) (inside : position < code.size)
    (unclaimed : walk.claimed.contains position = false) :
    ∃ after, walk.brace code position = (after, position + 1) ∧
      Opening code position position position (position + 1) ⟨position, code.groupEnd position⟩ walk after := by
  unfold brace
  rw [if_neg (Bool.eq_false_iff.mp unclaimed)]
  refine ⟨_, rfl, ?_⟩
  have opening (kind : ScopeKind) (supertypes : List String) (noFile : kind ≠ .file) :
      Opening code position position position (position + 1) ⟨position, code.groupEnd position⟩ walk
        ((walk.openScope kind none ⟨position, code.groupEnd position⟩ supertypes false).assign position
          walk.scopes.size) := by
    refine Opening.here ((Fills.assign _ position walk.scopes.size).congr ?_ fun _ => False.elim) noFile
    intro word
    omega
  split
  · exact opening .type _ (by decide)
  · split
    · exact opening .type _ (by decide)
    · exact opening .block _ (by decide)

/-! ### Steps -/

inductive Stays (code : Code) (walk : Walk) (position : Nat) : Nat → Prop where
  | word : Stays code walk position (position + 1)
  | path {next : Nat} (inFile : walk.kindOfScope walk.frame.scope = .file) (ahead : position < next) :
      Stays code walk position next
  /-- A type without a body. -/
  | typeName {text : String} (keyword : code.isKeyword position text = true)
      (identifier : code.isIdentifier (position + 1) = true) : Stays code walk position (position + 2)
  /-- A further variable of a declaration. -/
  | declarator {after : Walk} (reads : walk.step code position = walk.comma code position)
      (skips : walk.comma code position = (after, position + 2)) (comma : code.isPunctuation position "," = true)
      (identifier : code.isIdentifier (position + 1) = true) : Stays code walk position (position + 2)

/-- The extent of the scope that a step opens, by what it reads, with the places where the scope starts to take in
words, where it follows what belongs to the current scope, and where the step goes on from. -/
inductive Opens (code : Code) (walk : Walk) (position : Nat) : Nat → Nat → Nat → Extent → Prop where
  | type (reads : walk.step code position = walk.typeDeclaration code position)
      (identifier : code.isIdentifier (position + 1) = true)
      (brace : code.isPunctuation (code.typeBody position) openBrace = true) :
      Opens code walk position position (position + 2) (code.typeBody position + 1)
        ⟨position + 1, code.groupEnd (code.typeBody position)⟩
  | method {type : Option TypeRun} {close : Nat} {later : position + 1 < close}
      (reads : walk.step code position = walk.methodDeclaration code position type)
      (identifier : code.isIdentifier position = true) (opener : code.isPunctuation (position + 1) "(" = true)
      (closed : code.close? (position + 1) = some ⟨close, later⟩)
      (typed : ∀ run, type = some run → code.typeBefore? position = some run) :
      Opens code walk position (methodStart code position type) (position + 1) (code.methodBody close + 1)
        (methodExtent code position type close)
  | block {text : String} {close : Nat} {later : position + 1 < close}
      (reads : walk.step code position = walk.headerBlock code position)
      (keyword : code.isKeyword position text = true) (header : text ∈ ["for", "catch", "try"])
      (closed : code.close? (position + 1) = some ⟨close, later⟩) :
      Opens code walk position position position (position + 1) ⟨position, code.headerEnd position close⟩
  | lambda {arrow : Nat} (reads : walk.step code position = walk.lambda code position arrow)
      (ordered : position < arrow) (isArrow : code.isPunctuation arrow "->" = true)
      (list : code.isIdentifier position = false →
        ∃ close, ∃ later : position < close, code.close? position = some ⟨close, later⟩ ∧ close < arrow) :
      Opens code walk position position position (arrow + 1) ⟨position, code.lambdaEnd arrow⟩
  | brace (reads : walk.step code position = walk.brace code position)
      (here : code.isPunctuation position openBrace = true)
      (unclaimed : walk.claimed.contains position = false) :
      Opens code walk position position position (position + 1) ⟨position, code.groupEnd position⟩

theorem Opens.opening {start middle next : Nat} {extent : Extent}
    (opens : Opens code walk position start middle next extent) :
    ∃ after, walk.step code position = (after, next) ∧
      Opening code position start middle next extent walk after := by
  cases opens with
  | type reads identifier brace =>
      rw [reads]
      exact typeDeclaration_opening walk identifier brace
  | method reads identifier opener closed typed =>
      rw [reads]
      exact methodDeclaration_opening walk identifier closed typed (code.isPunctuation_lt_size opener)
  | block reads keyword _ closed =>
      rw [reads]
      exact headerBlock_opening walk closed (code.isKeyword_lt_size keyword)
  | lambda reads ordered isArrow list =>
      rw [reads]
      exact lambda_opening walk ordered isArrow list
  | brace reads here unclaimed =>
      rw [reads]
      exact brace_opening walk (code.isPunctuation_lt_size here) unclaimed

inductive Effect (code : Code) (walk : Walk) (position : Nat) : Walk × Nat → Prop where
  | stays {after : Walk} {next : Nat} (stays : Stays code walk position next)
      (fills : Fills walk.frame.scope (fun word => position < word ∧ word < next)
        (fun name => code.isIdentifier name = true ∧ position ≤ name ∧ name < next) walk after) :
      Effect code walk position (after, next)
  | opens {after : Walk} {start middle next : Nat} {extent : Extent}
      (opens : Opens code walk position start middle next extent)
      (opening : Opening code position start middle next extent walk after) : Effect code walk position (after, next)

theorem Effect.of_opens {start middle next : Nat} {extent : Extent}
    (opens : Opens code walk position start middle next extent) :
    Effect code walk position (walk.step code position) := by
  obtain ⟨after, result, opening⟩ := opens.opening
  rw [result]
  exact Effect.opens opens opening

theorem Effect.idle {after : Walk} (alike : Alike walk after) : Effect code walk position (after, position + 1) :=
  Effect.stays .word (Fills.idle alike fun word => by omega)

theorem Effect.declares {marked after : Walk} {declaration : Declaration} (alike : Alike walk marked)
    (placed : declaration.scope = walk.frame.scope) (here : declaration.position = position)
    (identifier : code.isIdentifier position = true) (settled : Alike (marked.declare declaration) after) :
    Effect code walk position (after, position + 1) := by
  refine Effect.stays .word (Fills.settle (Fills.declare alike placed ?_ fun word => by omega) settled)
  rw [here]
  exact ⟨identifier, Nat.le_refl _, Nat.lt_succ_self _⟩

private theorem importPath_effect (inside : position < code.size)
    (inFile : walk.kindOfScope walk.frame.scope = .file) :
    Effect code walk position (walk.importPath code position) := by
  unfold importPath
  dsimp only
  generalize found : ((List.range' position (code.size - position)).find? (code.isPunctuation · ";")).getD code.last =
    stop
  have ahead : position ≤ stop := by
    cases semicolon : (List.range' position (code.size - position)).find? (code.isPunctuation · ";") with
    | none =>
        rw [semicolon, Option.getD_none] at found
        rw [← found]
        unfold Code.last
        omega
    | some place =>
        rw [semicolon, Option.getD_some] at found
        have member := (List.mem_range'_1.mp (List.mem_of_find?_eq_some semicolon)).1
        omega
  refine Effect.stays (.path inFile (Nat.lt_succ_of_le ahead)) ?_
  refine Fills.settle ((Fills.assignRange walk (position + 1) stop walk.frame.scope).congr ?_ fun _ => False.elim)
    ⟨rfl, rfl, rfl, rfl, rfl⟩
  intro word
  omega

theorem step_effect (walk : Walk) (inside : position < code.size) :
    Effect code walk position (walk.step code position) := by
  have move := step_move code walk position
  generalize reads : walk.step code position = stepped at move ⊢
  cases move with
  | skip noCloser noOpener => exact Effect.idle (Alike.refl walk)
  | path keyword inFile => exact importPath_effect inside inFile
  | type keyword identifier =>
      cases brace : code.isPunctuation (code.typeBody position) openBrace with
      | true =>
          rw [← reads]
          exact Effect.of_opens (.type reads identifier brace)
      | false =>
          obtain ⟨after, result, fills⟩ := typeDeclaration_fills walk identifier brace
          rw [result]
          exact Effect.stays (.typeName keyword identifier) fills
  | block keyword header closed =>
      rw [← reads]
      exact Effect.of_opens (.block reads keyword header closed)
  | typeName noCloser noOpener => exact Effect.idle ⟨rfl, rfl, rfl, rfl, rfl⟩
  | bareLambda identifier isArrow =>
      rw [← reads]
      refine Effect.of_opens (.lambda reads (Nat.lt_succ_self _) isArrow ?_)
      intro other
      rw [identifier] at other
      cases other
  | @lambda close later opens closed isArrow =>
      rw [← reads]
      refine Effect.of_opens (.lambda reads (by omega) isArrow ?_)
      intro _
      exact ⟨close, later, closed, Nat.lt_succ_self _⟩
  | constant identifier among behind => exact Effect.declares (Alike.refl walk) rfl rfl identifier (Alike.refl _)
  | method identifier opener typed closed =>
      rw [← reads]
      exact Effect.of_opens (.method reads identifier opener closed typed)
  | declares identifier ends typed =>
      exact Effect.declares ⟨rfl, rfl, rfl, rfl, rfl⟩ rfl rfl identifier ⟨rfl, rfl, rfl, rfl, rfl⟩
  | declarator comma progress identifier =>
      have skips : walk.step code position = walk.comma code position := step_of_isPunctuation comma
      refine Effect.stays (.declarator skips (skips.symm.trans reads) comma identifier) ?_
      exact nextName_fills (Alike.refl _) identifier rfl rfl
  | deeper opens => exact Effect.idle ⟨rfl, rfl, rfl, rfl, rfl⟩
  | closeGroup closes => exact Effect.idle ⟨rfl, rfl, rfl, rfl, rfl⟩
  | claimed brace known => exact Effect.idle ⟨rfl, rfl, rfl, rfl, rfl⟩
  | brace here unclaimed =>
      rw [← reads]
      exact Effect.of_opens (.brace reads here unclaimed)
  | semicolon here =>
      refine Effect.idle ⟨rfl, ?_, rfl, rfl, rfl⟩
      unfold Walk.semicolon places
      dsimp only
      cases walk.frames with
      | nil => rfl
      | cons frame outer => rfl

/-! ### What an effect leaves -/

theorem frame_scope_of_places {walk other : Walk} (same : walk.places = other.places) :
    walk.frame.scope = other.frame.scope := by
  have scopes := congrArg (fun places => (places.map Prod.fst).headD 0) same
  unfold places at scopes
  rw [List.map_map, List.map_map] at scopes
  unfold frame
  cases walkFrames : walk.frames with
  | nil =>
      cases otherFrames : other.frames with
      | nil => rfl
      | cons first rest => rw [walkFrames, otherFrames] at scopes; exact scopes
  | cons first rest =>
      cases otherFrames : other.frames with
      | nil => rw [walkFrames, otherFrames] at scopes; exact scopes
      | cons otherFirst otherRest => rw [walkFrames, otherFrames] at scopes; exact scopes

namespace Opening

variable {start middle next : Nat} {extent : Extent} {after : Walk}

theorem scopes (opening : Opening code position start middle next extent walk after) :
    ∃ kind title supertypes, kind ≠ .file ∧
      after.scopes =
        walk.scopes.push ⟨kind, title, some walk.frame.scope, some extent, supertypes, walk.scopes.size⟩ := by
  obtain ⟨named, listed, kind, title, supertypes, inConstants, noFile, outside, list, inside⟩ := opening
  refine ⟨kind, title, supertypes, noFile, ?_⟩
  rw [inside.scopes, list.scopes, ← frame_scope_of_places outside.places, ← outside.scopes]
  rfl

theorem places (opening : Opening code position start middle next extent walk after) :
    after.places = (walk.scopes.size, extent.last) :: walk.places := by
  obtain ⟨named, listed, kind, title, supertypes, inConstants, noFile, outside, list, inside⟩ := opening
  rw [inside.places, list.places, ← outside.places, ← outside.scopes]
  rfl

/-- The new scope takes in the words from `start` on and those from `middle` on. -/
theorem taken (opening : Opening code position start middle next extent walk after) {word : Nat}
    (within : word < walk.layout.size)
    (among : start ≤ word ∧ word < position ∨ middle ≤ word ∧ word < next ∧ word < code.size) :
    after.homeAt? word = some walk.scopes.size := by
  obtain ⟨named, listed, kind, title, supertypes, inConstants, noFile, outside, list, inside⟩ := opening
  have opened : word < (named.openScope kind title extent supertypes inConstants).layout.size := outside.layout ▸ within
  by_cases behind : middle ≤ word ∧ word < next ∧ word < code.size
  · exact inside.assigned word (list.layout ▸ opened) behind
  · rw [inside.kept word fun here => absurd here behind]
    exact list.assigned word opened (among.resolve_right behind)

/-- Words on the way to `middle` stay in the scope around the new one. -/
theorem passed (opening : Opening code position start middle next extent walk after) {word : Nat}
    (within : word < walk.layout.size) (among : position < word ∧ word < middle) :
    after.homeAt? word = some walk.frame.scope := by
  obtain ⟨named, listed, kind, title, supertypes, inConstants, noFile, outside, list, inside⟩ := opening
  rw [inside.kept word (by omega), list.kept word (by omega), ← outside.assigned word within among]
  rfl

theorem kept (opening : Opening code position start middle next extent walk after) {word : Nat}
    (listed : start ≤ word ∧ word < position → walk.layout.size ≤ word)
    (ahead : position < word ∧ word < middle → walk.layout.size ≤ word)
    (behind : middle ≤ word ∧ word < next ∧ word < code.size → walk.layout.size ≤ word) :
    after.homeAt? word = walk.homeAt? word := by
  obtain ⟨named, listedWalk, kind, title, supertypes, inConstants, noFile, outside, list, inside⟩ := opening
  have opened : (named.openScope kind title extent supertypes inConstants).layout = walk.layout := outside.layout
  rw [inside.kept word (list.layout ▸ opened ▸ behind), list.kept word (opened ▸ listed), ← outside.kept word ahead]
  rfl

theorem layout (opening : Opening code position start middle next extent walk after) : after.layout = walk.layout := by
  obtain ⟨named, listed, kind, title, supertypes, inConstants, noFile, outside, list, inside⟩ := opening
  exact inside.layout.trans (list.layout.trans outside.layout)

/-- The names declared: first in the scope around, then those listed in front, then in the new scope. -/
theorem declared (opening : Opening code position start middle next extent walk after) :
    ∃ first second third : List Declaration,
      after.declarations.toList = walk.declarations.toList ++ (first ++ second ++ third) ∧
      (first.Pairwise (fun left right => left.position < right.position) ∧ ∀ declaration ∈ first,
        declaration.scope = walk.frame.scope ∧ code.isIdentifier declaration.position = true ∧
          position ≤ declaration.position ∧ declaration.position < middle) ∧
      (second.Pairwise (fun left right => left.position < right.position) ∧ ∀ declaration ∈ second,
        declaration.scope = walk.scopes.size ∧ code.startsTypeParameter declaration.position = true ∧
          start < declaration.position ∧ declaration.position < position) ∧
      (third.Pairwise (fun left right => left.position < right.position) ∧ ∀ declaration ∈ third,
        declaration.scope = walk.scopes.size ∧ code.isIdentifier declaration.position = true ∧
          middle ≤ declaration.position ∧ declaration.position < next) := by
  obtain ⟨named, listed, kind, title, supertypes, inConstants, noFile, outside, list, inside⟩ := opening
  obtain ⟨first, firstAdded, firstFacts⟩ := outside.declared
  obtain ⟨second, secondAdded, secondFacts⟩ := list.declared
  obtain ⟨third, thirdAdded, thirdFacts⟩ := inside.declared
  refine ⟨first, second, third, ?_, firstFacts, secondFacts, thirdFacts⟩
  have opened : (named.openScope kind title extent supertypes inConstants).declarations = named.declarations := rfl
  rw [thirdAdded, secondAdded, opened, firstAdded, List.append_assoc, List.append_assoc, List.append_assoc]

end Opening

theorem Stays.ahead {next : Nat} (stays : Stays code walk position next) : position < next := by
  cases stays with
  | word => exact Nat.lt_succ_self _
  | path _ ahead => exact ahead
  | typeName => omega
  | declarator => omega

theorem Opens.ordered {start middle next : Nat} {extent : Extent}
    (opens : Opens code walk position start middle next extent) :
    position ≤ middle ∧ middle ≤ next ∧ position < next := by
  cases opens with
  | type =>
      have body := code.le_typeBody position
      omega
  | @method type close later =>
      have body := code.le_methodBody close
      omega
  | block => omega
  | lambda => omega
  | brace => omega

/-- An angle bracket stands at `start`, the words from there up to the name of a method are parts of types, and its
parenthesis follows the name. -/
theorem Opens.listed {start middle next : Nat} {extent : Extent}
    (opens : Opens code walk position start middle next extent) (listed : start < position) :
    (∀ word, start ≤ word → word < position → code.isTypePart word = true) ∧
      code.isPunctuation (position + 1) "(" = true ∧ position + 1 < next ∧ code.isPunctuation start "<" = true := by
  cases opens with
  | type => omega
  | @method type close later reads identifier opener closed typed =>
      have body := code.le_methodBody close
      unfold methodStart at listed ⊢
      cases found : type.bind code.methodTypeParameters? with
      | none =>
          rw [found] at listed
          exact absurd listed (Nat.lt_irrefl _)
      | some generics =>
          obtain ⟨first, last⟩ := generics
          obtain ⟨run, given, parameters⟩ := Option.bind_eq_some_iff.mp found
          exact ⟨code.methodTypeParameters?_parts (typed run given) parameters, opener, by omega,
            (code.methodTypeParameters?_bounds (typed run given) parameters).2.2⟩
  | block => omega
  | lambda => omega
  | brace => omega

def Rehomed (walk after : Walk) (word : Nat) : Prop :=
  ∃ scope, after.homeAt? word = some scope ∧
    (scope = walk.frame.scope ∨ scope = walk.scopes.size ∧ walk.scopes.size < after.scopes.size)

namespace Effect

variable {after : Walk} {next : Nat}

theorem scopes (effect : Effect code walk position (after, next)) :
    after.scopes = walk.scopes ∨ ∃ kind title extent supertypes, kind ≠ .file ∧
      after.scopes =
        walk.scopes.push ⟨kind, title, some walk.frame.scope, some extent, supertypes, walk.scopes.size⟩ := by
  cases effect with
  | stays _ fills => exact Or.inl fills.scopes
  | opens _ opening =>
      obtain ⟨kind, title, supertypes, noFile, pushed⟩ := opening.scopes
      exact Or.inr ⟨kind, title, _, supertypes, noFile, pushed⟩

theorem size_bounds (effect : Effect code walk position (after, next)) :
    walk.scopes.size ≤ after.scopes.size ∧ after.scopes.size ≤ walk.scopes.size + 1 := by
  rcases effect.scopes with same | ⟨_, _, _, _, _, pushed⟩
  · rw [same]
    omega
  · rw [pushed, Array.size_push]
    omega

/-- A scope after a step was there before, or it is the one opened inside the current scope. -/
theorem entry_cases (effect : Effect code walk position (after, next)) {scope : ScopeId} {entry : Scope}
    (found : after.scopes[scope]? = some entry) :
    walk.scopes[scope]? = some entry ∨
      scope = walk.scopes.size ∧ entry.parent = some walk.frame.scope ∧ entry.kind ≠ .file := by
  rcases effect.scopes with same | ⟨_, _, _, _, noFile, pushed⟩
  · rw [same] at found
    exact Or.inl found
  · rw [pushed, Array.getElem?_push] at found
    split at found
    · rename_i last
      cases found
      exact Or.inr ⟨last, rfl, noFile⟩
    · exact Or.inl found

theorem opened {start middle : Nat} {extent : Extent}
    (opening : Opening code position start middle next extent walk after) : walk.scopes.size < after.scopes.size := by
  obtain ⟨kind, title, supertypes, _, pushed⟩ := opening.scopes
  rw [pushed, Array.size_push]
  exact Nat.lt_succ_self _

theorem rehomed (effect : Effect code walk position (after, next)) {word : Nat} (behind : position < word)
    (before : word < next) (inside : word < code.size) (within : word < walk.layout.size) :
    Rehomed walk after word := by
  cases effect with
  | stays _ fills => exact ⟨_, fills.assigned word within ⟨behind, before⟩, Or.inl rfl⟩
  | @opens _ start middle _ extent _ opening =>
      by_cases passed : word < middle
      · exact ⟨_, opening.passed within ⟨behind, passed⟩, Or.inl rfl⟩
      · exact ⟨_, opening.taken within (Or.inr ⟨by omega, before, inside⟩), Or.inr ⟨rfl, opened opening⟩⟩

theorem kept_or_rehomed (effect : Effect code walk position (after, next)) (word : Nat) :
    after.homeAt? word = walk.homeAt? word ∨ Rehomed walk after word := by
  by_cases within : word < walk.layout.size
  · cases effect with
    | stays _ fills =>
        by_cases among : position < word ∧ word < next
        · exact Or.inr ⟨_, fills.assigned word within among, Or.inl rfl⟩
        · exact Or.inl (fills.kept word fun here => absurd here among)
    | @opens _ start middle _ extent _ opening =>
        by_cases taken : start ≤ word ∧ word < position ∨ middle ≤ word ∧ word < next ∧ word < code.size
        · exact Or.inr ⟨_, opening.taken within taken, Or.inr ⟨rfl, opened opening⟩⟩
        · by_cases passed : position < word ∧ word < middle
          · exact Or.inr ⟨_, opening.passed within passed, Or.inl rfl⟩
          · exact Or.inl (opening.kept (fun listed => absurd (Or.inl listed) taken) (fun ahead => absurd ahead passed)
              fun behind => absurd (Or.inr behind) taken)
  · have past := Nat.le_of_not_lt within
    cases effect with
    | stays _ fills => exact Or.inl (fills.kept word fun _ => past)
    | opens _ opening => exact Or.inl (opening.kept (fun _ => past) (fun _ => past) fun _ => past)

/-- A declaration is an old one or belongs to the current scope or to a scope that is opened. -/
theorem placed (effect : Effect code walk position (after, next)) {declaration : Declaration}
    (member : declaration ∈ after.declarations) :
    declaration ∈ walk.declarations ∨ declaration.scope = walk.frame.scope ∨
      declaration.scope = walk.scopes.size ∧ walk.scopes.size < after.scopes.size := by
  cases effect with
  | stays _ fills =>
      obtain ⟨added, list, _, facts⟩ := fills.declared
      have inside := Array.mem_toList_iff.mpr member
      rw [list] at inside
      rcases List.mem_append.mp inside with former | here
      · exact Or.inl (Array.mem_toList_iff.mp former)
      · exact Or.inr (Or.inl (facts declaration here).1)
  | opens _ opening =>
      have room := opened opening
      obtain ⟨first, second, third, list, ⟨_, firstFacts⟩, ⟨_, secondFacts⟩, ⟨_, thirdFacts⟩⟩ := opening.declared
      have inside := Array.mem_toList_iff.mpr member
      rw [list] at inside
      rcases List.mem_append.mp inside with former | added
      · exact Or.inl (Array.mem_toList_iff.mp former)
      · rcases List.mem_append.mp added with early | last
        · rcases List.mem_append.mp early with outer | listed
          · exact Or.inr (Or.inl (firstFacts declaration outer).1)
          · exact Or.inr (Or.inr ⟨(secondFacts declaration listed).1, room⟩)
        · exact Or.inr (Or.inr ⟨(thirdFacts declaration last).1, room⟩)

end Effect

theorem Effect.ahead {after : Walk} {next : Nat} (effect : Effect code walk position (after, next)) :
    position < next := by
  cases effect with
  | stays stays => exact stays.ahead
  | opens opens => exact opens.ordered.2.2

theorem step_advances (walk : Walk) (inside : position < code.size) : position < (walk.step code position).2 :=
  (step_effect walk inside).ahead

end Walk

end ScopedRename
