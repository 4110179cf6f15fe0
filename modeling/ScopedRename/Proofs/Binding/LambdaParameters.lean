import ScopedRename.Proofs.Binding.ScopingRules
import ScopedRename.Proofs.Code.Lambdas
import ScopedRename.Proofs.Outline.Ancestry
import ScopedRename.Proofs.Outline.Declarators
import ScopedRename.Proofs.Outline.Nesting

/-!
Lambdas and their parameters. A lambda opens a block over its parameters and its body and declares the parameters there,
so a bare name in the body leads to the parameter it spells. Main statement: the block covers exactly the words up to
the end of a body without braces and is around all of them, and every value use of a parameter that no scope inside
redeclares denotes the parameter, if and only if no comma of the body stands among the type arguments of a created type,
no later method takes a word of the lambda for its type parameters, and a parameter that is used shares its name with no
other value of the block.
-/

namespace ScopedRename

def Code.lambdaParameters (code : Code) (position : Nat) : List Nat :=
  if code.isIdentifier position then [position] else code.parameterNames position

namespace Walk

variable {code : Code} {state : Walk} {position arrow : Nat}

/-! ### What a lambda adds -/

theorem step_lambda (walk : Walk) (starts : code.StartsLambda position arrow) :
    walk.step code position = walk.lambda code position arrow := by
  cases starts with
  | name identifier isArrow noLabel =>
      rw [step_of_isIdentifier identifier]
      unfold Walk.identifier
      rw [isArrow, noLabel]
      rfl
  | list opens closed isArrow =>
      rw [step_of_isPunctuation opens]
      unfold Walk.punctuation
      rw [if_pos (beq_self_eq_true "("), closed]
      dsimp only
      rw [if_pos isArrow]

theorem opens_lambda (walk : Walk) (starts : code.StartsLambda position arrow) :
    Opens code walk position position position (arrow + 1) ⟨position, code.lambdaEnd arrow⟩ := by
  refine .lambda (step_lambda walk starts) starts.ordered starts.isArrow fun noName => ?_
  cases starts with
  | name identifier => exact absurd identifier (Bool.eq_false_iff.mp noName)
  | @list close later _ closed _ => exact ⟨close, later, closed, Nat.lt_succ_self _⟩

/-- What the walk leaves behind a lambda is what it goes on from. -/
theorem Visits.ofCode_lambda (visits : Visits code (Walk.start code.layout) 0 state position)
    (starts : code.StartsLambda position arrow) :
    Outline.ofCode code =
      (run code (state.lambda code position arrow).1 (state.lambda code position arrow).2).toOutline := by
  unfold Outline.ofCode
  rw [visits.run_eq, step_lambda state starts]

theorem lambda_entries (walk : Walk) (position arrow : Nat) :
    (walk.lambda code position arrow).1.entries =
      walk.entries ++ (code.lambdaParameters position).map fun name => (.parameter, walk.scopes.size, name) := by
  have listed (opened : Walk) :
      Enters ((code.lambdaParameters position).map fun name => (.parameter, walk.scopes.size, name)) opened
        (if code.isIdentifier position then
          (opened.assignRange position arrow walk.scopes.size).declare
            { kind := .parameter, name := code.text position, scope := walk.scopes.size, position }
        else
          (code.segments position true).foldl (declareParameter code · walk.scopes.size .parameter)
            (opened.assignRange position arrow walk.scopes.size)) := by
    have assigned := Enters.assignRange opened position arrow walk.scopes.size
    unfold Code.lambdaParameters
    split
    · exact assigned.trans (Enters.declare _ rfl)
    · exact assigned.trans (declareParameters_enters code _ walk.scopes.size .parameter position)
  have nothing : Enters [] walk walk := Enters.same rfl rfl
  unfold lambda
  dsimp only
  split
  · exact (nothing.opened rfl ((listed _).trans (Enters.same rfl rfl))).2.trans (by rw [List.nil_append, List.append_nil])
  · exact (nothing.opened rfl (listed _)).2

end Walk

namespace Analysis

variable (analysis : Analysis)

/-- A parameter of the lambda that starts at a position and opens the scope is used as a value by its bare name, in front
of `stop`, where no scope inside the lambda redeclares it. -/
structure UsesParameter (scope : ScopeId) (position stop : Nat) (id : DeclarationId) (reference : Reference) :
    Prop where
  used : reference ∈ analysis.bound.references.toList
  value : reference.space = .value
  bare : reference.lookup = .lexical reference.scope
  within : position ≤ reference.position ∧ reference.position < stop
  parameter : ∃ declaration, analysis.bound.outline.declaration? id = some declaration ∧
    declaration.kind = .parameter ∧ declaration.scope = scope ∧
    declaration.position ∈ analysis.code.lambdaParameters position ∧ declaration.name = reference.name
  unhidden : ∀ inner ∈ analysis.bound.outline.ancestors reference.scope, inner ≠ scope →
    scope ∈ analysis.bound.outline.ancestors inner →
      ∀ other, ¬analysis.Shows inner reference.name .value (analysis.startOf reference.position) other

/-- A lambda's parameters are in scope over its whole body: the scope that the lambda opens is a block, covers the words
from its parameters up to the end of the body, is around each of them and declares the parameters, and their uses in the
body denote them. -/
structure ScopesLambda (scope : ScopeId) (position arrow : Nat) : Prop where
  block : (analysis.bound.outline.scope? scope).map Scope.kind = some .block
  covers : ∀ word < analysis.code.size,
    (analysis.bound.outline.spanOf analysis.layout scope).encloses (analysis.layout.span word) = true ↔
      position ≤ word ∧ word < analysis.code.bodyStop (arrow + 1)
  around : ∀ word, position ≤ word → word < analysis.code.bodyStop (arrow + 1) →
    scope ∈ analysis.bound.outline.ancestors (analysis.bound.outline.home word)
  declares : ∀ name ∈ analysis.code.lambdaParameters position, (.parameter, scope, name) ∈ analysis.bound.outline.entries
  resolves : ∀ id reference, analysis.UsesParameter scope position (analysis.code.bodyStop (arrow + 1)) id reference →
    reference.resolution = .resolved id

variable {analysis} {source : String} {index : ProjectIndex} {scope : ScopeId} {position arrow stop : Nat}
  {id : DeclarationId} {reference : Reference}

/-! ### Uses of parameters -/

theorem Narrows.resolved_iff {candidates : List DeclarationId} {resolution : Resolution}
    (narrows : analysis.Narrows none candidates resolution) : resolution = .resolved id ↔ candidates = [id] := by
  cases narrows with
  | single alone => rw [alone, Resolution.resolved.injEq, List.singleton_inj]
  | uncounted several _ =>
      refine iff_of_false (fun impossible => nomatch impossible) ?_
      rintro rfl
      rw [List.length_singleton] at several
      omega
  | taken _ known => cases known
  | overloaded _ known => cases known
  | rejected _ known => cases known

theorem Shows.facts {name : String} {space : NameSpace} {offset : Nat} {declaration : Declaration}
    (shown : analysis.Shows scope name space offset id)
    (found : analysis.bound.outline.declaration? id = some declaration) :
    declaration.scope = scope ∧ declaration.kind.space = space := by
  obtain ⟨⟨again, listed, placed, _, kind⟩, _⟩ := shown
  rw [found] at listed
  cases listed
  exact ⟨placed, kind⟩

theorem reference_reads (analysed : ofText source index = .ok analysis)
    (used : reference ∈ analysis.bound.references.toList) :
    reference.scope = analysis.bound.outline.home reference.position ∧
      reference.space = (analysis.code.usageAt analysis.bound.outline reference.position).space := by
  obtain ⟨_, _, _, _, bound, _⟩ := ofText_eq_ok analysed
  rw [bound] at used ⊢
  obtain ⟨_, same⟩ := (analysis.code.referenceAt?_eq_some _ index).mp ((analysis.code.mem_references _ index).mp used)
  exact ⟨congrArg Reference.scope same, congrArg Reference.space same⟩

theorem arguments_of_value (analysed : ofText source index = .ok analysis)
    (used : reference ∈ analysis.bound.references.toList) (value : reference.space = .value) :
    (analysis.code.usageAt analysis.bound.outline reference.position).arguments = none := by
  have space := (reference_reads analysed used).2
  rw [value] at space
  rw [analysis.code.usageAt_eq _ reference.position (by rw [← space]; decide)]

namespace UsesParameter

theorem shows (uses : analysis.UsesParameter scope position stop id reference) :
    analysis.Shows scope reference.name .value (analysis.startOf reference.position) id := by
  obtain ⟨declaration, found, kind, placed, _, named⟩ := uses.parameter
  refine ⟨⟨declaration, found, placed, named, by rw [kind]; rfl⟩, ?_⟩
  intro other again isLocal
  rw [found] at again
  cases again
  rw [kind] at isLocal
  cases isLocal

/-- What the innermost scope with the name shows is what the lambda's scope shows, if that is around the use. -/
theorem hit_eq (uses : analysis.UsesParameter scope position stop id reference)
    (around : scope ∈ analysis.bound.outline.ancestors reference.scope) {nearer outer : List ScopeId} {hit : ScopeId}
    (split : analysis.bound.outline.ancestors reference.scope = nearer ++ hit :: outer)
    (missed : ∀ inner ∈ nearer, ∀ other,
      ¬analysis.Shows inner reference.name .value (analysis.startOf reference.position) other)
    {other : DeclarationId}
    (shown : analysis.Shows hit reference.name .value (analysis.startOf reference.position) other) : hit = scope := by
  have member : hit ∈ analysis.bound.outline.ancestors reference.scope := by
    rw [split]
    exact List.mem_append_right _ List.mem_cons_self
  have ordered := analysis.bound.outline.ancestors_pairwise reference.scope
  rw [split] at ordered
  rcases List.mem_append.mp (split ▸ around) with inside | rest
  · exact absurd uses.shows (missed scope inside id)
  · rcases List.mem_cons.mp rest with here | outside
    · exact here.symm
    · -- the hit lies inside the lambda, where nothing redeclares the name
      have below := (List.pairwise_cons.mp (List.pairwise_append.mp ordered).2.1).1 scope outside
      have nested := analysis.bound.outline.mem_ancestors_of_le member around (Nat.le_of_lt below)
      exact absurd shown (uses.unhidden hit member (Nat.ne_of_gt below) nested other)

/-- A use denotes the parameter if and only if the lambda's scope is around it and shows nothing else of that name. -/
theorem resolved_iff (uses : analysis.UsesParameter scope position stop id reference)
    (analysed : ofText source index = .ok analysis) :
    reference.resolution = .resolved id ↔
      scope ∈ analysis.bound.outline.ancestors reference.scope ∧
        ∀ other, analysis.Shows scope reference.name .value (analysis.startOf reference.position) other → other = id := by
  obtain ⟨declaration, found, kind, placed, _, _⟩ := uses.parameter
  -- the lambda's scope shows the parameter, so a search that comes past it cannot miss
  have missing (misses : analysis.Misses reference.lookup reference.name .value (analysis.startOf reference.position))
      (around : scope ∈ analysis.bound.outline.ancestors reference.scope) : False := by
    rw [uses.bare] at misses
    exact misses scope around id uses.shows
  cases (reference_follows analysed uses.used).1 with
  | @direct candidates finds narrows =>
      rw [arguments_of_value analysed uses.used uses.value] at narrows
      rw [uses.bare, uses.value] at finds
      obtain ⟨nonempty, ordered, nearer, hit, outer, split, missed, exactly⟩ := finds
      rw [narrows.resolved_iff]
      constructor
      · -- the scope that shows the parameter is the hit, and the hit is around the use
        intro alone
        have listed : ∀ {other : DeclarationId}, other ∈ candidates ↔ other = id := by
          intro other
          rw [alone, List.mem_singleton]
        have same := (((exactly id).mp (listed.mpr rfl)).facts found).1
        rw [placed] at same
        subst same
        refine ⟨?_, fun other shown => listed.mp ((exactly other).mpr shown)⟩
        rw [split]
        exact List.mem_append_right _ List.mem_cons_self
      · rintro ⟨around, only⟩
        obtain ⟨first, rest, shape⟩ := List.exists_cons_of_ne_nil nonempty
        have shown := (exactly first).mp (shape ▸ List.mem_cons_self)
        have same := uses.hit_eq around split missed shown
        subst same
        have all : ∀ other ∈ candidates, other = id := fun other member => only other ((exactly other).mp member)
        rw [shape] at all ordered ⊢
        cases rest with
        | nil => rw [all first List.mem_cons_self]
        | cons second rest =>
            have before := (List.pairwise_cons.mp ordered).1 second List.mem_cons_self
            rw [all first List.mem_cons_self, all second (List.mem_cons_of_mem _ List.mem_cons_self)] at before
            exact absurd before (Nat.lt_irrefl _)
  | type value misses finds narrows =>
      rw [narrows.resolved_iff]
      refine iff_of_false ?_ fun ⟨around, _⟩ => missing misses around
      intro alone
      rw [uses.bare] at finds
      obtain ⟨_, _, _, hit, _, _, _, exactly⟩ := finds
      have space := (((exactly id).mp (alone ▸ List.mem_cons_self)).facts found).2
      rw [kind] at space
      cases space
  | elsewhere misses _ unbound =>
      rw [uses.value] at misses
      refine iff_of_false ?_ fun ⟨around, _⟩ => missing misses around
      intro denotes
      rw [denotes] at unbound
      cases unbound

end UsesParameter

/-! ### The scope of a lambda -/

section Scope

variable {state : Walk} (analysed : ofText source index = .ok analysis)
  (visits : Walk.Visits analysis.code (Walk.start analysis.code.layout) 0 state position)
  (starts : analysis.code.StartsLambda position arrow)

include analysed visits starts

theorem lambda_block :
    (analysis.bound.outline.scope? state.scopes.size).map Scope.kind = some .block := by
  obtain ⟨_, _, _, _, bound, _⟩ := ofText_eq_ok analysed
  rw [bound]
  dsimp only
  rw [visits.ofCode_lambda starts]
  exact Walk.run_kind (Walk.lambda_opens_block arrow)

theorem lambda_declares {name : Nat} (parameter : name ∈ analysis.code.lambdaParameters position) :
    (.parameter, state.scopes.size, name) ∈ analysis.bound.outline.entries := by
  obtain ⟨_, _, _, _, bound, _⟩ := ofText_eq_ok analysed
  rw [bound]
  dsimp only
  rw [visits.ofCode_lambda starts]
  refine Walk.run_entries analysis.code _ _ ?_
  rw [Walk.lambda_entries]
  exact List.mem_append_right _ (List.mem_map_of_mem parameter)

theorem lambda_encloses {word : Nat} (inside : word < analysis.code.size) :
    (analysis.bound.outline.spanOf analysis.layout state.scopes.size).encloses (analysis.layout.span word) = true ↔
      position ≤ word ∧ word ≤ analysis.code.lambdaEnd arrow := by
  obtain ⟨_, built, _, layout, bound, _⟩ := ofText_eq_ok analysed
  have size := Code.size_ofTokens built
  obtain ⟨_, _, framed⟩ := Walk.run_framed (Code.ofTokens_balanced built)
  have bounded : Outline.Bounded analysis.tokens (Outline.ofCode analysis.code) := by
    intro scope extent found
    obtain ⟨ordered, within, _⟩ := framed.extents scope extent found
    exact ⟨ordered, size ▸ within⟩
  rw [layout, bound]
  exact Outline.encloses_span (tiled analysed) bounded ((Walk.opens_lambda state starts).kept visits).1 (size ▸ inside)

theorem lambda_around_iff {word : Nat} (low : position ≤ word) (high : word ≤ analysis.code.lambdaEnd arrow) :
    state.scopes.size ∈ analysis.bound.outline.ancestors (analysis.bound.outline.home word) ↔
      ¬Walk.TakenFrom analysis.code (state.step analysis.code position).1 (arrow + 1) state.scopes.size word := by
  obtain ⟨_, built, _, _, bound, _⟩ := ofText_eq_ok analysed
  have last := (Code.lambdaEnd_portion (Code.ofTokens_balanced built) starts.isArrow).inside
  rw [bound]
  exact (Walk.opens_lambda state starts).mem_ancestors_home_iff visits low high (Nat.lt_of_le_of_lt high last)

end Scope

end Analysis

/-- A lambda that the walk comes to, with a body that has words but no braces, has its parameters in scope over its whole
body if and only if no comma of the body outside its groups stands among the type arguments of a created type, no later
method outside takes a word of the lambda into its own scope, and the lambda's scope shows nothing but the parameter where
a parameter is used. -/
theorem lambda_parameters_in_scope_iff {source : String} {index : ProjectIndex} {analysis : Analysis} {state : Walk}
    {position arrow : Nat} (analysed : Analysis.ofText source index = .ok analysis)
    (visits : Walk.Visits analysis.code (Walk.start analysis.code.layout) 0 state position)
    (starts : analysis.code.StartsLambda position arrow)
    (unbraced : analysis.code.isPunctuation (arrow + 1) openBrace = false)
    (nonempty : arrow + 1 < analysis.code.bodyStop (arrow + 1)) :
    analysis.ScopesLambda state.scopes.size position arrow ↔
      (∀ comma ∈ analysis.code.ownCommas (arrow + 1) (analysis.code.bodyStop (arrow + 1)),
        analysis.code.isCreationArgument comma = false) ∧
      (∀ word, position ≤ word → word < analysis.code.bodyStop (arrow + 1) →
        ¬Walk.TakenFrom analysis.code (state.step analysis.code position).1 (arrow + 1) state.scopes.size word) ∧
      ∀ id reference,
        analysis.UsesParameter state.scopes.size position (analysis.code.bodyStop (arrow + 1)) id reference →
        ∀ other, analysis.Shows state.scopes.size reference.name .value (analysis.startOf reference.position) other →
          other = id := by
  obtain ⟨_, built, _, _, _, _⟩ := Analysis.ofText_eq_ok analysed
  have balanced := Code.ofTokens_balanced built
  have last : analysis.code.lambdaEnd arrow = analysis.code.expressionEnd (arrow + 1) :=
    if_neg (Bool.eq_false_iff.mp unbraced)
  have portion := Code.lambdaEnd_portion balanced starts.isArrow
  have ends := Code.expressionEnd_eq_bodyStop_iff balanced nonempty (Code.isCreationArgument_of_isArrow starts.isArrow)
  have bound := analysis.code.bodyStop_le (arrow + 1)
  have ordered := starts.ordered
  rw [← last] at ends
  constructor
  · intro scopes
    -- the two ends enclose each other's last word
    have same : analysis.code.lambdaEnd arrow + 1 = analysis.code.bodyStop (arrow + 1) := by
      have reached := portion.ordered
      have inner := (scopes.covers _ portion.inside).mp
        ((Analysis.lambda_encloses analysed visits starts portion.inside).mpr ⟨by omega, Nat.le_refl _⟩)
      have inside : analysis.code.bodyStop (arrow + 1) - 1 < analysis.code.size := by omega
      have outer := (Analysis.lambda_encloses analysed visits starts inside).mp
        ((scopes.covers _ inside).mpr ⟨by omega, by omega⟩)
      omega
    refine ⟨ends.mp same, fun word low high => ?_, fun id reference uses => ?_⟩
    · exact (Analysis.lambda_around_iff analysed visits starts low (by omega)).mp (scopes.around word low high)
    · exact ((uses.resolved_iff analysed).mp (scopes.resolves id reference uses)).2
  · rintro ⟨plain, free, alone⟩
    have same := ends.mpr plain
    have around : ∀ word, position ≤ word → word < analysis.code.bodyStop (arrow + 1) →
        state.scopes.size ∈ analysis.bound.outline.ancestors (analysis.bound.outline.home word) :=
      fun word low high =>
        (Analysis.lambda_around_iff analysed visits starts low (by omega)).mpr (free word low high)
    refine ⟨Analysis.lambda_block analysed visits starts, fun word inside => ?_, around,
      fun name => Analysis.lambda_declares analysed visits starts, fun id reference uses => ?_⟩
    · rw [Analysis.lambda_encloses analysed visits starts inside]
      omega
    · refine (uses.resolved_iff analysed).mpr ⟨?_, alone id reference uses⟩
      rw [(Analysis.reference_reads analysed uses.used).1]
      exact around reference.position uses.within.1 uses.within.2

/-- A body with a call, a lambda inside it and the creation of a generic object with one type argument. -/
theorem lambda_parameters_in_scope_iff_nested :
    ∃ analysis state,
      Analysis.ofText "class K { int a; Foo f = a -> g(a, b -> a, new M<A>(a)); }" ProjectIndex.empty = .ok analysis ∧
      Walk.Visits analysis.code (Walk.start analysis.code.layout) 0 state 9 ∧ analysis.code.StartsLambda 9 10 ∧
      analysis.code.isPunctuation 11 openBrace = false ∧ analysis.code.bodyStop 11 = 28 ∧
      (analysis.bound.references.toList.filter (·.name == "a")).map (·.resolution) =
        [.resolved 3, .resolved 3, .resolved 3] ∧
      analysis.ScopesLambda state.scopes.size 9 10 := by
  -- all that is asked of this text is computed at once, the rest only reads the answers
  have computed :
      ((Analysis.ofText "class K { int a; Foo f = a -> g(a, b -> a, new M<A>(a)); }" ProjectIndex.empty).toOption.any
        fun analysis => (Walk.visited analysis.code (Walk.start analysis.code.layout) 0).any fun read =>
          decide (read.2 = 9) && decide (analysis.code.isIdentifier 9 = true ∧
            analysis.code.isPunctuation 10 "->" = true ∧ analysis.code.isCaseLabel 9 = false ∧
            analysis.code.isPunctuation 11 openBrace = false ∧ analysis.code.bodyStop 11 = 28 ∧
            (analysis.bound.references.toList.filter (·.name == "a")).map (·.resolution) =
              [.resolved 3, .resolved 3, .resolved 3] ∧
            (∀ comma ∈ analysis.code.ownCommas 11 28, analysis.code.isCreationArgument comma = false) ∧
            (∀ other ∈ Walk.visited analysis.code (read.1.step analysis.code 9).1 11,
              read.1.scopes.size ∈ other.1.places.map Prod.fst ∨ 28 ≤ other.2) ∧
            analysis.code.isTypePart 27 = false ∧
            ∀ id ∈ analysis.bound.outline.declarationIds,
              (analysis.bound.outline.declaration? id).any (·.scope == read.1.scopes.size) = true → id = 3)) = true := by
    decide +kernel
  obtain ⟨analysis, analysed, walked⟩ := exists_ok_of_any computed
  obtain ⟨⟨state, position⟩, member, read⟩ := List.any_eq_true.mp walked
  obtain ⟨here, facts⟩ := Bool.and_eq_true_iff.mp read
  obtain ⟨identifier, isArrow, noLabel, unbraced, stop, resolved, plain, around, closer, only⟩ := of_decide_eq_true facts
  cases of_decide_eq_true here
  have visits := Walk.mem_visited.mp member
  have starts : analysis.code.StartsLambda 9 10 := .name identifier isArrow noLabel
  refine ⟨analysis, state, analysed, visits, starts, unbraced, stop, resolved, ?_⟩
  have bodyStop : analysis.code.bodyStop (10 + 1) = 28 := stop
  refine (lambda_parameters_in_scope_iff analysed visits starts unbraced (by omega)).mpr ⟨?_, ?_, ?_⟩
  · rw [bodyStop]
    exact plain
  · rintro word low high ⟨other, place, start, _, _, _, goesOn, opens, listed, read, outside⟩
    have behind := (around (other, place) (Walk.mem_visited.mpr goesOn)).resolve_left outside
    dsimp only at behind
    have part := (opens.listed (by omega)).1 27 (by omega) (by omega)
    rw [closer] at part
    cases part
  · intro id reference uses other shown
    have sole {id : DeclarationId} {name : String} {offset : Nat}
        (shown : analysis.Shows state.scopes.size name .value offset id) : id = 3 := by
      obtain ⟨⟨declaration, found, placed, _⟩, _⟩ := shown
      refine only id (analysis.bound.outline.mem_declarationIds.mpr (by rw [found]; rfl)) ?_
      rw [found, Option.any_some, placed]
      exact beq_self_eq_true _
    rw [sole shown, sole uses.shows]

/-- The comma between two type arguments ends the scope of a lambda early, and the use behind it denotes a field. -/
theorem lambda_parameter_out_of_scope :
    ∃ analysis state reference,
      Analysis.ofText "class K { int a; Foo f = a -> new M<A, B>(a); }" ProjectIndex.empty = .ok analysis ∧
      Walk.Visits analysis.code (Walk.start analysis.code.layout) 0 state 9 ∧ analysis.code.StartsLambda 9 10 ∧
      analysis.code.isPunctuation 11 openBrace = false ∧ analysis.code.bodyStop 11 = 21 ∧
      analysis.bound.outline.spanOf analysis.layout state.scopes.size = ⟨25, 37⟩ ∧
      analysis.UsesParameter state.scopes.size 9 21 3 reference ∧ reference.resolution = .resolved 1 ∧
      ¬analysis.ScopesLambda state.scopes.size 9 10 := by
  have computed :
      ((Analysis.ofText "class K { int a; Foo f = a -> new M<A, B>(a); }" ProjectIndex.empty).toOption.any
        fun analysis => (Walk.visited analysis.code (Walk.start analysis.code.layout) 0).any fun read =>
          decide (read.2 = 9) && analysis.bound.references.toList.any fun reference =>
            (analysis.bound.outline.declaration? 3).any fun declaration => decide (
              analysis.code.isIdentifier 9 = true ∧ analysis.code.isPunctuation 10 "->" = true ∧
              analysis.code.isCaseLabel 9 = false ∧ analysis.code.isPunctuation 11 openBrace = false ∧
              analysis.code.bodyStop 11 = 21 ∧
              analysis.bound.outline.spanOf analysis.layout read.1.scopes.size = ⟨25, 37⟩ ∧
              reference.space = .value ∧ reference.lookup = .lexical reference.scope ∧ reference.position = 19 ∧
              (declaration.kind = .parameter ∧ declaration.scope = read.1.scopes.size ∧
                declaration.position ∈ analysis.code.lambdaParameters 9 ∧ declaration.name = reference.name) ∧
              reference.scope < read.1.scopes.size ∧ reference.resolution = .resolved 1)) = true := by
    decide +kernel
  obtain ⟨analysis, analysed, walked⟩ := exists_ok_of_any computed
  obtain ⟨⟨state, position⟩, member, read⟩ := List.any_eq_true.mp walked
  obtain ⟨here, referred⟩ := Bool.and_eq_true_iff.mp read
  obtain ⟨reference, used, declared⟩ := List.any_eq_true.mp referred
  obtain ⟨declaration, found, facts⟩ := (Option.any_eq_true _ _).mp declared
  obtain ⟨identifier, isArrow, noLabel, unbraced, stop, span, value, bare, place, parameter, outside, denotes⟩ :=
    of_decide_eq_true facts
  cases of_decide_eq_true here
  have uses : analysis.UsesParameter state.scopes.size 9 21 3 reference := by
    refine ⟨used, value, bare, by omega, ⟨declaration, found, parameter⟩, ?_⟩
    intro inner member _ nested _ _
    have low := analysis.bound.outline.le_of_mem_ancestors member
    have high := analysis.bound.outline.le_of_mem_ancestors nested
    exact absurd (Nat.le_trans high low) (Nat.not_le.mpr outside)
  refine ⟨analysis, state, reference, analysed, Walk.mem_visited.mp member, .name identifier isArrow noLabel, unbraced,
    stop, span, uses, denotes, ?_⟩
  intro scopes
  have resolved := scopes.resolves 3 reference (stop.symm ▸ uses)
  rw [denotes] at resolved
  cases resolved

end ScopedRename
