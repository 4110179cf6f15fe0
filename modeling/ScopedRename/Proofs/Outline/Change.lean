import Mathlib.Logic.Relation
import ScopedRename.Proofs.Code.Headers
import ScopedRename.Proofs.Outline.Marks
import ScopedRename.Proofs.Outline.Moves

/-!
What one step of a walk can do. Every construct is a chain of elementary changes: it assigns words to scopes, marks
words, declares names that are spelled there, opens scopes, or turns over its own bookkeeping. Each change says where
the names it records were read, so that invariants of the outline are proved once for a change and not once for a
construct.
-/

namespace ScopedRename.Walk

variable (code : Code)

def TypeSpelling (outline : Outline) (base : String) : Prop :=
  ∃ word, base = code.text word ∧
    (outline.NamesType word ∨ code.spellsTypeKeyword word = true)

inductive TypeSource (walk : Walk) (name : Nat) : String → Prop where
  /-- The type is written in front of the name. -/
  | written (run : TypeRun) (before : code.typeBefore? name = some run) :
      TypeSource walk name (code.text (run.simple.getD run.start))
  /-- A constant has the type of its enum. -/
  | constant (base : String) (bare : code.typeBefore? name = none) (inside : walk.frame.inConstants = true)
      (named : walk.nameOfScope walk.frame.scope = some base) : TypeSource walk name base
  /-- A further variable has the type of the first. -/
  | continued (list : Declarators) (type : DeclaredType) (bare : code.typeBefore? name = none)
      (progress : walk.declarators = some list) (declared : list.declaredType = some type) :
      TypeSource walk name type.base

/-- The body opened at `brace` is that of an anonymous type that extends the type it creates. -/
def Creates (kind : ScopeKind) (name : Option String) (brace : Nat) (base : String) : Prop :=
  kind = .type ∧ name = none ∧ code.anonymousSupertype? brace = some base

inductive SupertypeSource (walk : Walk) (kind : ScopeKind) (name : Option String) (first : Nat) : String → Prop where
  | typeWord (word : Nat) (names : walk.NamesType word) : SupertypeSource walk kind name first (code.text word)
  | anonymous (base : String) (creates : Creates code kind name first base) :
      SupertypeSource walk kind name first base
  /-- The body of a constant extends its enum. -/
  | constant (base : String) (inside : walk.frame.inConstants = true)
      (named : walk.nameOfScope walk.frame.scope = some base) : SupertypeSource walk kind name first base

/-- An elementary change made by the step at `position`, which goes on from `limit`. -/
inductive Change (position limit : Nat) : Walk → Walk → Prop where
  /-- Of the words read before, only those in front of a method's name are assigned again, and no parenthesis. -/
  | assign (walk : Walk) (word : Nat) (scope : ScopeId)
      (apart : word < position → code.isPunctuation word "(" = false) :
      Change position limit walk (walk.assign word scope)
  | markTypes (walk : Walk) (words : List Nat) : Change position limit walk (walk.markTypes code words)
  | markPath (walk : Walk) (words : List Nat) (within : ∀ word ∈ words, position < word ∧ word < limit) :
      Change position limit walk (walk.markPath code words)
  | declare (walk : Walk) (declaration : Declaration) (identifier : code.isIdentifier declaration.position = true)
      (named : declaration.name = code.text declaration.position)
      (within : position ≤ declaration.position ∧ declaration.position < limit)
      (typed : ∀ type, declaration.declaredType = some type →
        TypeSource code walk declaration.position type.base) :
      Change position limit walk (walk.declare declaration)
  /-- A type parameter of a method, which stands in front of the return type. -/
  | typeParameter (walk : Walk) (scope : ScopeId) (parameter : Nat) (identifier : code.isIdentifier parameter = true) :
      Change position limit walk ((declareTypeParameter code walk scope parameter).unmarkType parameter)
  | openScope (walk : Walk) (kind : ScopeKind) (name : Option String) (extent : Extent) (supertypes : List String)
      (inConstants : Bool)
      (named : kind = .type → ∀ text, name = some text →
        ∃ declaration ∈ walk.declarations, declaration.kind = .type ∧ text = code.text declaration.position ∧
          declaration.position = extent.first)
      (constants : inConstants = true → kind = .type)
      (inherits : ∀ base ∈ supertypes, SupertypeSource code walk kind name extent.first base)
      (creates : ∀ base, Creates code kind name extent.first base → supertypes = [base]) :
      Change position limit walk (walk.openScope kind name extent supertypes inConstants)
  /-- Only the bookkeeping changes. -/
  | settle (walk settled : Walk) (outline : settled.toOutline = walk.toOutline)
      (frames : ∀ frame ∈ settled.frames, ∃ former ∈ walk.frames,
        frame.scope = former.scope ∧ (frame.inConstants = true → former.inConstants = true))
      (progress : ∀ list type, settled.declarators = some list → list.declaredType = some type →
        settled.declarators = walk.declarators ∨ TypeSpelling code walk.toOutline type.base) :
      Change position limit walk settled

abbrev Changes (position limit : Nat) : Walk → Walk → Prop := Relation.ReflTransGen (Change code position limit)

variable {code} {position limit : Nat} {walk : Walk}

/-! ### Elementary chains -/

private theorem assignRange_changes (first last : Nat) (scope : ScopeId)
    (apart : ∀ word, first ≤ word → word < position → code.isPunctuation word "(" = false) :
    Changes code position limit walk (walk.assignRange first last scope) := by
  have each : ∀ word ∈ List.range' first (last + 1 - first), word < position →
      code.isPunctuation word "(" = false := by
    intro word member before
    exact apart word (List.mem_range'_1.mp member).1 before
  unfold assignRange
  generalize List.range' first (last + 1 - first) = words at each ⊢
  induction words generalizing walk with
  | nil => exact Relation.ReflTransGen.refl
  | cons word rest ih =>
      refine Relation.ReflTransGen.head (Change.assign walk word scope (each word List.mem_cons_self)) (ih ?_)
      intro other member
      exact each other (List.mem_cons_of_mem _ member)

private theorem assignHere (scope : ScopeId) : Change code position limit walk (walk.assign position scope) :=
  Change.assign walk position scope fun before => absurd before (Nat.lt_irrefl _)

private theorem assignAhead_changes {first : Nat} (ahead : position ≤ first) (last : Nat) (scope : ScopeId) :
    Changes code position limit walk (walk.assignRange first last scope) :=
  assignRange_changes first last scope fun _ low before => absurd before (by omega)

private theorem foldl_changes {item : Type} {apply : Walk → item → Walk} {items : List item}
    (step : ∀ walk, ∀ entry ∈ items, Changes code position limit walk (apply walk entry)) :
    Changes code position limit walk (items.foldl apply walk) := by
  induction items generalizing walk with
  | nil => exact Relation.ReflTransGen.refl
  | cons entry rest ih =>
      refine (step walk entry List.mem_cons_self).trans ?_
      exact ih fun other later member => step other later (List.mem_cons_of_mem _ member)

theorem declaredType?_base {run : TypeRun} {type : DeclaredType} (declared : code.declaredType? run = some type) :
    type.base = code.text (run.simple.getD run.start) := by
  unfold Code.declaredType? at declared
  dsimp only at declared
  split at declared
  · cases declared
  · cases declared
    rfl

theorem typeOfName?_base {run : TypeRun} {name : Nat} {type : DeclaredType}
    (declared : code.typeOfName? run name = some type) : type.base = code.text (run.simple.getD run.start) := by
  unfold Code.typeOfName? at declared
  obtain ⟨plain, declaredPlain, dimensions⟩ := Option.map_eq_some_iff.mp declared
  rw [← declaredType?_base declaredPlain, ← dimensions]
  unfold Code.withDimensions
  split
  · rfl
  · rfl

/-- Once its identifiers are marked, a type in front of a name is spelled by a word that names a type. -/
private theorem spelling_of_marked {name : Nat} {run : TypeRun}
    (before : code.typeBefore? name = some run) :
    TypeSpelling code (walk.markTypes code run.identifiers).toOutline (code.text (run.simple.getD run.start)) := by
  have parts := code.typeBefore?_simple before
  cases simple : run.simple with
  | none => exact ⟨run.start, rfl, Or.inr (parts.2 simple)⟩
  | some word =>
      obtain ⟨member, identifier⟩ := parts.1 word simple
      refine ⟨word, rfl, Or.inl (Or.inl ?_)⟩
      exact (walk.isTypeWord_markTypes code run.identifiers word).mpr (Or.inr ⟨member, identifier⟩)

private theorem declareParameter_changes (scope : ScopeId) (kind : DeclarationKind) {segment : Nat × Nat}
    (ordered : segment.1 ≤ segment.2) (low : position ≤ segment.1) (high : segment.2 < limit) :
    Changes code position limit walk (declareParameter code walk scope kind segment) := by
  unfold declareParameter
  split
  · exact Relation.ReflTransGen.refl
  · rename_i name found
    have bounds := code.parameterName?_bounds ordered found
    refine Relation.ReflTransGen.head (Change.markTypes walk (code.parameterTypeWords name segment.1)) ?_
    refine Relation.ReflTransGen.single (Change.declare _ _ bounds.1 rfl ⟨?_, ?_⟩ ?_)
    · exact Nat.le_trans low bounds.2.1
    · exact Nat.lt_of_le_of_lt bounds.2.2 high
    · intro type declared
      obtain ⟨run, before, typed⟩ := Option.bind_eq_some_iff.mp declared
      rw [typeOfName?_base typed]
      exact TypeSource.written run before

private theorem declareParameters_changes {opener close : Nat} {later : opener < close}
    (closed : code.close? opener = some ⟨close, later⟩) (scope : ScopeId) (kind : DeclarationKind)
    (low : position ≤ opener) (high : close ≤ limit) :
    Changes code position limit walk ((code.segments opener true).foldl (declareParameter code · scope kind) walk) := by
  apply foldl_changes
  intro walk segment member
  have bounds := code.segments_bounds closed member
  exact declareParameter_changes scope kind bounds.2.1 (by omega) (by omega)

/-- Entering braces, parentheses and statements changes the bookkeeping only. -/
private theorem settle_same {settled : Walk} (outline : settled.toOutline = walk.toOutline)
    (frames : settled.frames = walk.frames)
    (progress : settled.declarators = walk.declarators ∨ settled.declarators = none) :
    Change code position limit walk settled := by
  refine Change.settle walk settled outline ?_ ?_
  · intro frame member
    rw [frames] at member
    exact ⟨frame, member, rfl, id⟩
  · intro list type going _
    rcases progress with same | none
    · exact Or.inl same
    · rw [none] at going
      cases going

private theorem declareTypeParameters_changes {words : List Nat} (scope : ScopeId)
    (inside : ∀ word ∈ words, code.isIdentifier word = true ∧ position ≤ word ∧ word < limit) :
    Changes code position limit walk (words.foldl (declareTypeParameter code · scope) walk) := by
  apply foldl_changes
  intro walk word member
  obtain ⟨identifier, low, high⟩ := inside word member
  refine Relation.ReflTransGen.single (Change.declare walk _ identifier rfl ⟨low, high⟩ ?_)
  intro type impossible
  cases impossible

private theorem components_changes (start : Nat) (scope : ScopeId) (low : position ≤ start)
    (high : (code.afterParentheses? start).elim start (·.val) ≤ limit) :
    Changes code position limit walk
      ((if code.isPunctuation start "(" then code.segments start true else []).foldl
        (declareParameter code · scope .field) walk) := by
  split
  · rename_i opens
    cases closed : code.close? start with
    | none =>
        unfold Code.segments
        rw [closed]
        exact Relation.ReflTransGen.refl
    | some found =>
        obtain ⟨close, later⟩ := found
        refine declareParameters_changes closed scope .field low ?_
        unfold Code.afterParentheses? Code.afterGroup? at high
        rw [if_pos opens, closed] at high
        exact Nat.le_of_succ_le high
  · exact Relation.ReflTransGen.refl

private theorem typeName_changes {declaration : Declaration} (identifier : code.isIdentifier (position + 1) = true)
    (reached : position + 2 ≤ limit) (named : declaration.name = code.text (position + 1))
    (here : declaration.position = position + 1) (untyped : declaration.declaredType = none) :
    Changes code position limit walk
      (((walk.assign (position + 1) walk.frame.scope).markTypes code (code.headerTypes position)).declare
        declaration) := by
  have assigned : Change code position limit walk (walk.assign (position + 1) walk.frame.scope) :=
    Change.assign _ _ _ fun before => absurd before (by omega)
  refine Relation.ReflTransGen.tail
    ((Relation.ReflTransGen.single assigned).tail (Change.markTypes _ (code.headerTypes position)))
    (Change.declare _ _ (here ▸ identifier) (here ▸ named) (here ▸ ⟨Nat.le_succ position, reached⟩) ?_)
  intro type impossible
  rw [untyped] at impossible
  cases impossible

private theorem typeDeclaration_changes (identifier : code.isIdentifier (position + 1) = true)
    (reached : (walk.typeDeclaration code position).2 ≤ limit) :
    Changes code position limit walk (walk.typeDeclaration code position).1 := by
  have start := code.le_componentsStart position
  have components := code.componentsStart_le position
  have body := code.componentsEnd_le position
  cases brace : code.isPunctuation (code.typeBody position) openBrace with
  | false =>
      have result : walk.typeDeclaration code position = (_, position + 2) := if_neg (Bool.eq_false_iff.mp brace)
      rw [result] at reached ⊢
      exact typeName_changes identifier reached rfl rfl rfl
  | true =>
      have result : walk.typeDeclaration code position = (_, code.typeBody position + 1) := if_pos brace
      rw [result] at reached ⊢
      dsimp only at reached
      -- the chain is built from its end: components, type parameters, the words of the body, the scope, the name
      refine Relation.ReflTransGen.trans ?_
        (components_changes (code.componentsStart position) _ (by omega) (Nat.le_trans body (by omega)))
      refine Relation.ReflTransGen.trans ?_ (declareTypeParameters_changes _ ?_)
      · refine Relation.ReflTransGen.trans ?_ (assignAhead_changes (by omega) _ _)
        refine Relation.ReflTransGen.tail (typeName_changes identifier (by omega) rfl rfl rfl)
          (Change.openScope _ _ _ _ _ _ ?_ ?_ ?_ ?_)
        · intro _ text same
          cases same
          exact ⟨_, Array.mem_push_self, rfl, rfl, rfl⟩
        · intro _
          rfl
        · intro base member
          obtain ⟨word, inside, spelled⟩ := code.mem_supertypesFrom member
          have here := (code.mem_identifiersIn.mp inside).2
          rw [spelled]
          refine SupertypeSource.typeWord word (Or.inl ?_)
          exact (isTypeWord_markTypes code _ _ word).mpr (Or.inr ⟨List.mem_append_right _ inside, here⟩)
        · rintro base ⟨_, impossible, _⟩
          cases impossible
      · intro word member
        have listed : word ∈ code.typeParameters position := member
        have bounds := Code.typeParameters_bounds listed
        exact ⟨bounds.1, by omega, by omega⟩

/-- From the recorded name of a method to the end of its header. -/
theorem methodScope_changes {named : Walk} (chain : Changes code position limit walk named)
    {opener close : Nat} {later : opener < close} (closed : code.close? opener = some ⟨close, later⟩)
    (low : position ≤ opener) (high : close ≤ limit) (text : String) (extent : Extent) (scope : ScopeId)
    (generics : Option (Nat × Nat)) (last : Nat) :
    (∀ start stop, generics = some (start, stop) →
      ∀ word, start ≤ word → word < position → code.isPunctuation word "(" = false) →
    Changes code position limit walk
      ((code.segments opener true).foldl (declareParameter code · scope .parameter)
        (assignRange
          (match generics with
            | some (start, stop) =>
              ((code.identifiersIn (start + 1) stop).filter code.startsTypeParameter).foldl
                (fun walk parameter => (declareTypeParameter code walk scope parameter).unmarkType parameter)
                ((named.openScope .method (some text) extent [] false).assignRange start (position - 1) scope)
            | none => named.openScope .method (some text) extent [] false)
          opener last scope)) := by
  intro apart
  have opened : Changes code position limit walk (named.openScope .method (some text) extent [] false) := by
    refine chain.tail (Change.openScope _ _ _ _ _ _ ?_ ?_ ?_ ?_)
    · intro impossible
      cases impossible
    · intro impossible
      cases impossible
    · intro base impossible
      cases impossible
    · rintro base ⟨impossible, _⟩
      cases impossible
  refine Relation.ReflTransGen.trans ?_ (declareParameters_changes closed _ _ low high)
  refine Relation.ReflTransGen.trans ?_ (assignAhead_changes low _ _)
  cases generics with
  | none => exact opened
  | some generics =>
      obtain ⟨start, stop⟩ := generics
      refine Relation.ReflTransGen.trans (opened.trans (assignRange_changes _ _ _ (apart start stop rfl)))
        (foldl_changes ?_)
      intro walk parameter member
      have inside := List.mem_of_mem_filter member
      exact Relation.ReflTransGen.single (Change.typeParameter walk _ parameter (code.mem_identifiersIn.mp inside).2)

private theorem methodDeclaration_changes {type : Option TypeRun} {close : Nat} {later : position + 1 < close}
    (identifier : code.isIdentifier position = true)
    (typed : ∀ run, type = some run → code.typeBefore? position = some run)
    (closed : code.close? (position + 1) = some ⟨close, later⟩)
    (reached : (walk.methodDeclaration code position type).2 ≤ limit) :
    Changes code position limit walk (walk.methodDeclaration code position type).1 := by
  unfold methodDeclaration at reached ⊢
  dsimp only at reached ⊢
  rw [closed] at reached ⊢
  dsimp only at reached ⊢
  have headerBound := code.le_methodHeader false (close + 1)
  generalize code.methodHeader false (close + 1) = header at reached headerBound ⊢
  obtain ⟨thrown, stop⟩ := header
  dsimp only at reached headerBound ⊢
  have start : Changes code position limit walk (walk.markTypes code thrown) :=
    Relation.ReflTransGen.single (Change.markTypes walk thrown)
  have high : close ≤ limit := by omega
  have apart : ∀ first last, type.bind code.methodTypeParameters? = some (first, last) →
      ∀ word, first ≤ word → word < position → code.isPunctuation word "(" = false := by
    intro first last listed
    obtain ⟨run, given, parameters⟩ := Option.bind_eq_some_iff.mp listed
    exact code.methodTypeParameters?_marks (typed run given) parameters
  generalize type.bind code.methodTypeParameters? = generics at apart ⊢
  cases type with
  | none =>
      refine methodScope_changes ?_ closed (Nat.le_succ _) high _ _ _ generics _ apart
      exact start.tail (Change.markTypes _ [position])
  | some run =>
      refine methodScope_changes ?_ closed (Nat.le_succ _) high _ _ _ generics _ apart
      refine (start.tail (Change.markTypes _ run.identifiers)).tail
        (Change.declare _ _ identifier rfl ⟨Nat.le_refl _, by dsimp only; omega⟩ ?_)
      intro type declared
      rw [typeOfName?_base declared]
      exact TypeSource.written run (typed run rfl)

private theorem openBlock_changes (extent : Extent) :
    Changes code position limit walk (walk.openScope .block none extent [] false) := by
  refine Relation.ReflTransGen.single (Change.openScope _ _ _ _ _ _ ?_ ?_ ?_ ?_)
  · intro impossible
    cases impossible
  · intro impossible
    cases impossible
  · intro base impossible
    cases impossible
  · rintro base ⟨impossible, _⟩
    cases impossible

private theorem headerBlock_changes : Changes code position limit walk (walk.headerBlock code position).1 := by
  unfold headerBlock
  split
  · exact Relation.ReflTransGen.refl
  · dsimp only
    split
    · exact ((openBlock_changes _).tail (assignHere _)).tail (settle_same rfl rfl (Or.inl rfl))
    · exact (openBlock_changes _).tail (assignHere _)

private theorem lambda_changes {arrow : Nat} (ordered : position < arrow)
    (list : code.isIdentifier position = false →
      ∃ close, ∃ later : position < close, code.close? position = some ⟨close, later⟩ ∧ close < arrow)
    (reached : (walk.lambda code position arrow).2 ≤ limit) :
    Changes code position limit walk (walk.lambda code position arrow).1 := by
  unfold lambda at reached ⊢
  dsimp only at reached ⊢
  have opened {extent : Extent} {scope : ScopeId} : Changes code position limit walk
      (if code.isIdentifier position then
        ((walk.openScope .block none extent [] false).assignRange position arrow scope).declare
          { kind := .parameter, name := code.text position, scope, position }
      else
        (code.segments position true).foldl (declareParameter code · scope .parameter)
          ((walk.openScope .block none extent [] false).assignRange position arrow scope)) := by
    split
    · rename_i identifier
      refine Relation.ReflTransGen.tail ((openBlock_changes _).trans (assignAhead_changes (Nat.le_refl _) _ _))
        (Change.declare _ _ identifier rfl ⟨Nat.le_refl _, by dsimp only; omega⟩ ?_)
      intro type impossible
      cases impossible
    · rename_i other
      obtain ⟨close, later, closed, before⟩ := list (Bool.eq_false_iff.mpr other)
      refine Relation.ReflTransGen.trans ?_ (declareParameters_changes closed _ _ (Nat.le_refl _) (by omega))
      exact (openBlock_changes _).trans (assignAhead_changes (Nat.le_refl _) _ _)
  split
  · exact opened.tail (settle_same rfl rfl (Or.inl rfl))
  · exact opened

private theorem brace_changes : Changes code position limit walk (walk.brace code position).1 := by
  unfold brace
  split
  · exact Relation.ReflTransGen.single (settle_same rfl rfl (Or.inl rfl))
  · refine Relation.ReflTransGen.tail ?_ (assignHere _)
    have anonymousType {last : Nat} {supertypes : List String}
        (inherits : ∀ base ∈ supertypes, SupertypeSource code walk .type none position base)
        (creates : ∀ base, code.anonymousSupertype? position = some base → supertypes = [base]) :
        Changes code position limit walk (walk.openScope .type none ⟨position, last⟩ supertypes false) := by
      refine Relation.ReflTransGen.single (Change.openScope _ _ _ _ _ _ ?_ ?_ inherits ?_)
      · intro _ text impossible
        cases impossible
      · intro impossible
        cases impossible
      · rintro base ⟨_, _, created⟩
        exact creates base created
    split
    · rename_i base created
      apply anonymousType
      · intro other member
        rw [List.mem_singleton.mp member]
        exact SupertypeSource.anonymous base ⟨rfl, rfl, created⟩
      · intro other alsoCreated
        rw [created] at alsoCreated
        cases alsoCreated
        rfl
    · rename_i notCreated
      split
      · rename_i constants
        apply anonymousType
        · intro base member
          exact SupertypeSource.constant base (Bool.and_eq_true_iff.mp constants).1 (Option.mem_toList.mp member)
        · intro base created
          rw [notCreated] at created
          cases created
      · exact openBlock_changes _

private theorem declarator_changes {list : Declarators} (comma : code.isPunctuation position "," = true)
    (progress : walk.declarators = some list) (identifier : code.isIdentifier (position + 1) = true)
    (reached : position + 2 ≤ limit) :
    Changes code position limit walk
      ((walk.assign (position + 1) walk.frame.scope).declare
        { kind := list.kind, name := code.text (position + 1), scope := walk.frame.scope, position := position + 1
          declaredType := list.declaredType.map (code.withDimensions · (position + 1)) }) := by
  have next : Change code position limit walk (walk.assign (position + 1) walk.frame.scope) :=
    Change.assign _ _ _ fun before => absurd before (by omega)
  refine Relation.ReflTransGen.tail (Relation.ReflTransGen.single next)
    (Change.declare _ _ identifier rfl ⟨Nat.le_succ _, by dsimp only; omega⟩ ?_)
  intro type declared
  obtain ⟨first, firstDeclared, dimensions⟩ := Option.map_eq_some_iff.mp declared
  have base : type.base = first.base := by
    rw [← dimensions]
    unfold Code.withDimensions
    split
    · rfl
    · rfl
  rw [base]
  refine TypeSource.continued list first ?_ progress firstDeclared
  have follows : code.followsPunctuation (position + 1) "," = true := comma
  exact code.typeBefore?_of_followsPunctuation follows (by decide) (by decide) (by decide)

private theorem variableDeclaration_changes {run : TypeRun} (identifier : code.isIdentifier position = true)
    (before : code.typeBefore? position = some run) (reached : position < limit) :
    Changes code position limit walk (walk.variableDeclaration code position run) := by
  unfold variableDeclaration
  dsimp only
  have spelling : TypeSpelling code (walk.markTypes code run.identifiers).toOutline
      (code.text (run.simple.getD run.start)) := spelling_of_marked before
  have declared (kind : DeclarationKind) : Changes code position limit walk
      ((walk.markTypes code run.identifiers).declare
        { kind, name := code.text position, scope := walk.frame.scope, position
          declaredType := code.typeOfName? run position }) := by
    refine Relation.ReflTransGen.tail (Relation.ReflTransGen.single (Change.markTypes _ run.identifiers))
      (Change.declare _ _ identifier rfl ⟨Nat.le_refl _, reached⟩ ?_)
    intro type typed
    rw [typeOfName?_base typed]
    exact TypeSource.written run before
  refine (declared _).tail (Change.settle _ _ rfl ?_ ?_)
  · intro frame member
    exact ⟨frame, member, rfl, id⟩
  · intro list type going typed
    cases going
    dsimp only at typed
    rw [declaredType?_base typed]
    obtain ⟨word, spelled, names⟩ := spelling
    refine Or.inr ⟨word, spelled, ?_⟩
    rcases names with (marked | ⟨declaration, member, kind⟩) | keyword
    · exact Or.inl (Or.inl marked)
    · exact Or.inl (Or.inr ⟨declaration, Array.mem_push_of_mem _ member, kind⟩)
    · exact Or.inr keyword

private theorem importPath_changes (reached : (walk.importPath code position).2 ≤ limit) :
    Changes code position limit walk (walk.importPath code position).1 := by
  unfold importPath at reached ⊢
  dsimp only at reached ⊢
  refine (assignAhead_changes (Nat.le_succ _) _ _).tail (Change.markPath _ _ ?_)
  intro word member
  rw [List.mem_range'_1] at member
  omega

private theorem closeGroup_change : Change code position limit walk walk.closeGroup := by
  refine settle_same rfl rfl ?_
  unfold closeGroup
  dsimp only
  cases walk.declarators with
  | none => exact Or.inl rfl
  | some list =>
      rw [Option.filter_some]
      split
      · exact Or.inl rfl
      · exact Or.inr rfl

private theorem semicolon_change : Change code position limit walk walk.semicolon := by
  refine Change.settle walk _ rfl ?_ ?_
  · intro frame member
    unfold semicolon at member
    dsimp only at member
    cases frames : walk.frames with
    | nil =>
        rw [frames] at member
        cases member
    | cons first outer =>
        rw [frames] at member
        rcases List.mem_cons.mp member with here | further
        · refine ⟨first, List.mem_cons_self, ?_⟩
          rw [here]
          exact ⟨rfl, fun inside => (Bool.and_eq_true_iff.mp inside).1⟩
        · exact ⟨frame, List.mem_cons_of_mem _ further, rfl, id⟩
  · intro list type going _
    unfold semicolon at going ⊢
    dsimp only at going ⊢
    rw [going]
    exact Or.inl (Option.filter_eq_some_iff.mp going).1.symm

private theorem constant_change (identifier : code.isIdentifier position = true) (ahead : position < limit)
    (among : walk.frame.inConstants = true)
    (behind : code.followsPunctuation position openBrace = true ∨ code.followsPunctuation position "," = true) :
    Change code position limit walk
      (walk.declare
        { kind := .field, name := code.text position, scope := walk.frame.scope, position
          declaredType := (walk.nameOfScope walk.frame.scope).map (⟨·, false⟩) }) := by
  refine Change.declare _ _ identifier rfl ⟨Nat.le_refl _, ahead⟩ ?_
  intro type declared
  obtain ⟨base, named, same⟩ := Option.map_eq_some_iff.mp declared
  rw [← same]
  refine TypeSource.constant base ?_ among named
  rcases behind with opens | separates
  · exact code.typeBefore?_of_followsPunctuation opens (by decide) (by decide) (by decide)
  · exact code.typeBefore?_of_followsPunctuation separates (by decide) (by decide) (by decide)

/-! ### Steps and runs -/

theorem step_changes (ahead : position < limit)
    (reached : (walk.step code position).2 ≤ limit) :
    Changes code position limit walk (walk.step code position).1 := by
  have move := step_move code walk position
  generalize walk.step code position = stepped at move reached ⊢
  cases move with
  | skip noCloser noOpener => exact Relation.ReflTransGen.refl
  | path keyword inFile => exact importPath_changes reached
  | type keyword identifier => exact typeDeclaration_changes identifier reached
  | block keyword header closed => exact headerBlock_changes
  | typeName noCloser noOpener => exact Relation.ReflTransGen.single (Change.markTypes _ _)
  | bareLambda identifier isArrow =>
      refine lambda_changes (Nat.lt_succ_self _) ?_ reached
      intro other
      rw [identifier] at other
      cases other
  | @lambda close later opens closed isArrow =>
      refine lambda_changes (by omega) ?_ reached
      intro _
      exact ⟨close, later, closed, Nat.lt_succ_self _⟩
  | constant identifier among behind =>
      exact Relation.ReflTransGen.single (constant_change identifier ahead among behind)
  | method identifier opener typed closed => exact methodDeclaration_changes identifier typed closed reached
  | declares identifier ends typed => exact variableDeclaration_changes identifier typed ahead
  | declarator comma progress identifier => exact declarator_changes comma progress identifier reached
  | deeper opens => exact Relation.ReflTransGen.single (settle_same rfl rfl (Or.inl rfl))
  | closeGroup closes => exact Relation.ReflTransGen.single closeGroup_change
  | claimed brace known => exact Relation.ReflTransGen.single (settle_same rfl rfl (Or.inl rfl))
  | brace here unclaimed => exact brace_changes
  | semicolon here => exact Relation.ReflTransGen.single semicolon_change

theorem arrive_changes : Changes code position limit walk (walk.arrive position) := by
  unfold arrive
  dsimp only
  refine Relation.ReflTransGen.tail (Relation.ReflTransGen.single ?_) (assignHere _)
  refine Change.settle walk (walk.leave position) rfl ?_ ?_
  · intro frame member
    exact ⟨frame, (List.dropWhile_sublist _).subset member, rfl, id⟩
  · intro list type _ _
    exact Or.inl rfl

theorem Changes.layout {after : Walk} (changes : Changes code position limit walk after) :
    after.layout = walk.layout := by
  induction changes with
  | refl => rfl
  | tail _ change ih =>
      rw [← ih]
      cases change with
      | assign => rfl
      | markTypes => rfl
      | markPath => rfl
      | declare => rfl
      | typeParameter => rfl
      | openScope => rfl
      | settle settled outline => exact congrArg Outline.layout outline

/-- What holds at the start and is kept by every step holds at the end of a run. The invariant may depend on how far
the walk has come. -/
theorem run_induction (invariant : Nat → Walk → Prop)
    (step : ∀ walk position, invariant position walk →
      Changes code position (max (position + 1) ((walk.arrive position).step code position).2) walk
        ((walk.arrive position).step code position).1 →
      invariant (max (position + 1) ((walk.arrive position).step code position).2)
        ((walk.arrive position).step code position).1)
    (walk : Walk) (position : Nat) (start : invariant position walk) :
    ∃ stop, invariant stop (run code walk position) := by
  rw [run]
  split
  · have changes : Changes code position (max (position + 1) ((walk.arrive position).step code position).2) walk
        ((walk.arrive position).step code position).1 := by
      have arrived : Changes code position (max (position + 1) ((walk.arrive position).step code position).2) walk
        (walk.arrive position) := arrive_changes
      exact arrived.trans (step_changes (by omega) (by omega))
    exact run_induction invariant step _ _ (step walk position start changes)
  · exact ⟨position, start⟩
termination_by code.size - position

end ScopedRename.Walk
