import ScopedRename.Proofs.Code.Respelling
import ScopedRename.Proofs.Outline.Registers
import ScopedRename.Proofs.Outline.Spelling

/-!
The outline of respelled code is the respelled outline. Each construct of the walk commutes with respelling; the one
test that compares two texts is that of a constructor, whose name is that of its type, and there the respelling has to
keep texts of words that name types apart.
-/

namespace ScopedRename

variable (spell : String → String)

def Scope.respell (scope : Scope) : Scope :=
  { scope with name := scope.name.map spell, supertypes := scope.supertypes.map spell }

def Declaration.respell (declaration : Declaration) : Declaration :=
  { declaration with
    name := spell declaration.name
    declaredType := declaration.declaredType.map (DeclaredType.respell spell) }

theorem map_scope_respell_id (scopes : Array Scope) : scopes.map (Scope.respell id) = scopes := by
  have unchanged : Scope.respell id = id := by
    funext scope
    simp [Scope.respell]
  rw [unchanged, Array.map_id]

theorem map_declaration_respell_id (declarations : Array Declaration) :
    declarations.map (Declaration.respell id) = declarations := by
  have unchanged : Declaration.respell id = id := by
    have type : DeclaredType.respell id = id := rfl
    funext declaration
    unfold Declaration.respell
    rw [type, Option.map_id]
    rfl
  rw [unchanged, Array.map_id]

/-- The outline with its names respelled, for the words in a layout of their own. -/
noncomputable def Outline.respell (outline : Outline) : Outline :=
  let layout := outline.layout.respell spell
  { layout
    scopes := outline.scopes.map (Scope.respell spell)
    declarations := outline.declarations.map (Declaration.respell spell)
    children := outline.children
    symbols := .ofEntries ((outline.declarations.map (Declaration.respell spell)).toList.map Declaration.entry)
    named := outline.layout.relay layout outline.named
    homes := outline.layout.relay layout outline.homes
    typeTokens := outline.layout.relayed layout outline.typeTokens
    pathTokens := outline.layout.relayed layout outline.pathTokens }

section Reading

variable {spell} (outline : Outline)

@[simp]
theorem Outline.respell_homeAt? (word : Nat) : (outline.respell spell).homeAt? word = outline.homeAt? word :=
  Layout.lookup_relay _ _ _

@[simp]
theorem Outline.respell_home (word : Nat) : (outline.respell spell).home word = outline.home word := by
  unfold Outline.home
  rw [respell_homeAt?]

@[simp]
theorem Outline.respell_isTypeWord (word : Nat) :
    (outline.respell spell).isTypeWord word = outline.isTypeWord word :=
  Layout.contains_relayed _ _ _

@[simp]
theorem Outline.respell_isPathWord (word : Nat) :
    (outline.respell spell).isPathWord word = outline.isPathWord word :=
  Layout.contains_relayed _ _ _

@[simp]
theorem Outline.respell_declarationAt? (word : Nat) :
    (outline.respell spell).declarationAt? word = outline.declarationAt? word :=
  Layout.lookup_relay _ _ _

end Reading

variable {spell} in
theorem Outline.respell_namesType {outline : Outline} {word : Nat} :
    (outline.respell spell).NamesType word ↔ outline.NamesType word := by
  have declarations : (outline.respell spell).declarations = outline.declarations.map (Declaration.respell spell) := rfl
  unfold Outline.NamesType
  rw [respell_isTypeWord]
  refine or_congr Iff.rfl ?_
  constructor
  · rintro ⟨declaration, member, kind, position⟩
    rw [declarations] at member
    obtain ⟨plain, plainMember, same⟩ := Array.mem_map.mp member
    rw [← same] at kind position
    exact ⟨plain, plainMember, kind, position⟩
  · rintro ⟨declaration, member, kind, position⟩
    rw [declarations]
    exact ⟨declaration.respell spell, Array.mem_map_of_mem member, kind, position⟩

variable {spell} in
instance Outline.respell_registered {outline : Outline} [registered : outline.Registered] :
    (outline.respell spell).Registered where
  scopeId id scope found := by
    unfold Outline.respell Outline.scope? at found
    rw [Array.getElem?_map] at found
    obtain ⟨plain, opened, rfl⟩ := Option.map_eq_some_iff.mp found
    exact registered.scopeId id plain opened
  declarationId id declaration found := by
    unfold Outline.respell Outline.declaration? at found
    rw [Array.getElem?_map] at found
    obtain ⟨plain, declared, rfl⟩ := Option.map_eq_some_iff.mp found
    exact registered.declarationId id plain declared
  children := by
    unfold Outline.respell
    rw [registered.children, Array.toList_map, List.filterMap_map]
    rfl
  symbols := rfl
  named := by
    unfold Outline.respell
    dsimp only
    rw [registered.named, ← List.map_reverse, Layout.relay_map, Array.toList_map, List.map_map, ← List.map_reverse]
    rfl
  homes entry member := by
    obtain ⟨position, listed, here⟩ := Layout.exists_of_mem_relay _ member
    obtain ⟨place, inside, same⟩ := registered.homes _ listed
    cases Layout.tokenIndex_inj.mp same
    exact ⟨position, (outline.layout.respell_size spell).symm ▸ inside, here⟩

def Declarators.respell (list : Declarators) : Declarators :=
  { list with declaredType := list.declaredType.map (DeclaredType.respell spell) }

namespace Walk

noncomputable def respell (walk : Walk) : Walk :=
  { walk with
    toOutline := walk.toOutline.respell spell
    declarators := walk.declarators.map (Declarators.respell spell) }

noncomputable def respellStep (stepped : Walk × Nat) : Walk × Nat := (stepped.1.respell spell, stepped.2)

variable {spell} {code : Code} {walk : Walk}

/-! ### Elementary changes -/

@[simp]
theorem respell_frame : (walk.respell spell).frame = walk.frame := rfl

@[simp]
theorem respell_atBase : (walk.respell spell).atBase = walk.atBase := rfl

@[simp]
theorem respell_scopes_size : (walk.respell spell).scopes.size = walk.scopes.size := Array.size_map

theorem respell_scope? (scope : ScopeId) :
    (walk.respell spell).scope? scope = (walk.scope? scope).map (Scope.respell spell) :=
  Array.getElem?_map

@[simp]
theorem respell_kindOfScope (scope : ScopeId) : (walk.respell spell).kindOfScope scope = walk.kindOfScope scope := by
  unfold kindOfScope
  rw [respell_scope?]
  cases walk.scope? scope with
  | none => rfl
  | some entry => rfl

@[simp]
theorem respell_nameOfScope (scope : ScopeId) :
    (walk.respell spell).nameOfScope scope = (walk.nameOfScope scope).map spell := by
  unfold nameOfScope
  rw [respell_scope?]
  cases walk.scope? scope with
  | none => rfl
  | some entry => rfl

@[simp]
theorem respell_assign (position : Nat) (scope : ScopeId) :
    (walk.respell spell).assign position scope = (walk.assign position scope).respell spell := by
  unfold assign respell Outline.respell
  dsimp only
  rw [Layout.respell_size]
  split
  · rw [Layout.relay_cons]
  · rfl

@[simp]
theorem respell_assignRange (first last : Nat) (scope : ScopeId) :
    (walk.respell spell).assignRange first last scope = (walk.assignRange first last scope).respell spell := by
  unfold assignRange
  induction List.range' first (last + 1 - first) generalizing walk with
  | nil => rfl
  | cons position rest ih => rw [List.foldl_cons, List.foldl_cons, respell_assign, ih]

@[simp]
theorem respell_markTypes (positions : List Nat) :
    (walk.respell spell).markTypes (code.respell spell) positions =
      (walk.markTypes code positions).respell spell := by
  unfold markTypes respell Outline.respell
  rw [Code.respell_isIdentifier]
  dsimp only
  rw [Layout.relayed_append]

@[simp]
theorem respell_markPath (positions : List Nat) :
    (walk.respell spell).markPath (code.respell spell) positions = (walk.markPath code positions).respell spell := by
  unfold markPath respell Outline.respell
  rw [Code.respell_isIdentifier]
  dsimp only
  rw [Layout.relayed_append]

@[simp]
theorem respell_unmarkType (position : Nat) :
    (walk.respell spell).unmarkType position = (walk.unmarkType position).respell spell := by
  unfold unmarkType respell Outline.respell
  dsimp only
  rw [Layout.relayed_filter]

@[simp]
theorem respell_declare (declaration : Declaration) :
    (walk.respell spell).declare (declaration.respell spell) = (walk.declare declaration).respell spell := by
  unfold declare respell Outline.respell
  simp [Array.map_push, Declaration.respell, Declaration.entry, Register.ofEntries_concat]

theorem respell_declare_untyped (kind : DeclarationKind) (name : String) (scope : ScopeId) (position : Nat)
    (arity : Option Arity) (body : Option ScopeId) :
    (walk.respell spell).declare ⟨kind, spell name, scope, position, none, arity, body, 0⟩ =
      (walk.declare ⟨kind, name, scope, position, none, arity, body, 0⟩).respell spell :=
  respell_declare ⟨kind, name, scope, position, none, arity, body, 0⟩

theorem respell_openScope (kind : ScopeKind) (name : Option String) (extent : Extent) (supertypes : List String)
    (inConstants : Bool) :
    (walk.respell spell).openScope kind (name.map spell) extent (supertypes.map spell) inConstants =
      (walk.openScope kind name extent supertypes inConstants).respell spell := by
  simp [openScope, enter, respell, Outline.respell, Scope.respell, Array.map_push, frame]

theorem respell_openScope_named (kind : ScopeKind) (name : String) (extent : Extent) (supertypes : List String)
    (inConstants : Bool) :
    (walk.respell spell).openScope kind (some (spell name)) extent (supertypes.map spell) inConstants =
      (walk.openScope kind (some name) extent supertypes inConstants).respell spell :=
  respell_openScope kind (some name) extent supertypes inConstants

@[simp]
theorem respell_openScope_unnamed (kind : ScopeKind) (extent : Extent) (inConstants : Bool) :
    (walk.respell spell).openScope kind none extent [] inConstants =
      (walk.openScope kind none extent [] inConstants).respell spell :=
  respell_openScope kind none extent [] inConstants

theorem respell_foldl {item : Type} {respelled plain : Walk → item → Walk} {items : List item}
    (commutes : ∀ walk, ∀ entry ∈ items, respelled (walk.respell spell) entry = (plain walk entry).respell spell) :
    items.foldl respelled (walk.respell spell) = (items.foldl plain walk).respell spell := by
  induction items generalizing walk with
  | nil => rfl
  | cons entry rest ih =>
      rw [List.foldl_cons, List.foldl_cons, commutes walk entry List.mem_cons_self]
      exact ih fun other later member => commutes other later (List.mem_cons_of_mem _ member)

/-! ### Constructs -/

variable (keeps : KeepsTypeKeywords spell)

include keeps

theorem respell_declareParameter (scope : ScopeId) (kind : DeclarationKind) (segment : Nat × Nat) :
    declareParameter (code.respell spell) (walk.respell spell) scope kind segment =
      (declareParameter code walk scope kind segment).respell spell := by
  unfold declareParameter
  rw [Code.respell_parameterName?]
  split
  · rfl
  · rename_i name found
    have identifier : code.isIdentifier name = true := by
      unfold Code.parameterName? at found
      dsimp only at found
      split at found
      · rename_i identifier
        cases found
        exact identifier
      · cases found
    have typed : (code.typeBefore? name).bind ((code.respell spell).typeOfName? · name) =
        ((code.typeBefore? name).bind (code.typeOfName? · name)).map (DeclaredType.respell spell) := by
      cases before : code.typeBefore? name with
      | none => rfl
      | some run => exact Code.respell_typeOfName? keeps before
    dsimp only
    rw [Code.respell_parameterTypeWords, respell_markTypes, Code.respell_typeBefore?, typed,
      code.respell_text_of_isIdentifier spell identifier, ← respell_declare]
    rfl

omit keeps in
theorem respell_declareTypeParameter (scope : ScopeId) {position : Nat}
    (identifier : code.isIdentifier position = true) :
    declareTypeParameter (code.respell spell) (walk.respell spell) scope position =
      (declareTypeParameter code walk scope position).respell spell := by
  unfold declareTypeParameter
  rw [code.respell_text_of_isIdentifier spell identifier, ← respell_declare]
  rfl

omit keeps in
theorem respell_declareTypeParameters (scope : ScopeId) {words : List Nat}
    (identifiers : ∀ word ∈ words, code.isIdentifier word = true) :
    words.foldl (declareTypeParameter (code.respell spell) · scope) (walk.respell spell) =
      (words.foldl (declareTypeParameter code · scope) walk).respell spell := by
  apply respell_foldl
  intro walk word member
  exact respell_declareTypeParameter scope (identifiers word member)

theorem respell_declareParameters (scope : ScopeId) (kind : DeclarationKind) (segments : List (Nat × Nat)) :
    segments.foldl (declareParameter (code.respell spell) · scope kind) (walk.respell spell) =
      (segments.foldl (declareParameter code · scope kind) walk).respell spell := by
  apply respell_foldl
  intro walk segment _
  exact respell_declareParameter keeps scope kind segment

theorem respell_typeDeclaration {position : Nat} (identifier : code.isIdentifier (position + 1) = true) :
    (walk.respell spell).typeDeclaration (code.respell spell) position =
      respellStep spell (walk.typeDeclaration code position) := by
  unfold typeDeclaration respellStep
  dsimp only
  rw [Code.respell_isPunctuation, Code.respell_angleClose?, Code.respell_identifiersIn, Code.respell_segments,
    Code.respell_close?, Code.respell_isKeyword, Code.respell_afterParentheses?, Code.respell_typeParametersFrom,
    Code.respell_headerStop, Code.respell_last]
  have parameters : ∀ word ∈ code.typeParameters position, code.isIdentifier word = true :=
    fun word member => (Code.typeParameters_bounds member).1
  unfold Code.typeParameters Code.typeListEnd? at parameters
  generalize (if code.isPunctuation (position + 1 + 1) "<" = true then code.angleClose? (position + 1 + 1)
    else none) = generics at parameters ⊢
  generalize generics.elim (position + 1 + 1) (· + 1) = start
  generalize (code.afterParentheses? start).elim start (·.val) = after
  generalize code.headerStop after = stop
  simp only [code.respell_text_of_isIdentifier spell identifier, respell_assign, respell_markTypes, respell_frame,
    respell_scopes_size]
  split
  · refine Prod.ext ?_ rfl
    dsimp only
    rw [respell_declare_untyped, Code.respell_supertypesFrom, respell_openScope_named, respell_assignRange,
      respell_declareTypeParameters _ parameters, respell_declareParameters keeps]
  · refine Prod.ext ?_ rfl
    dsimp only
    rw [respell_declare_untyped]

/-- From the recorded name of a method to the end of its header. -/
private theorem respell_methodScope (named : Walk) (text : String) (extent : Extent) (scope : ScopeId)
    (generics : Option (Nat × Nat)) (position opener last : Nat) (segments : List (Nat × Nat)) :
    segments.foldl (declareParameter (code.respell spell) · scope .parameter)
        (assignRange
          (match generics with
            | some (start, stop) =>
              ((code.identifiersIn (start + 1) stop).filter code.startsTypeParameter).foldl
                (fun walk parameter =>
                  (declareTypeParameter (code.respell spell) walk scope parameter).unmarkType parameter)
                (((named.respell spell).openScope .method (some (spell text)) extent [] false).assignRange start
                  (position - 1) scope)
            | none => (named.respell spell).openScope .method (some (spell text)) extent [] false)
          opener last scope) =
      Walk.respell spell (segments.foldl (declareParameter code · scope .parameter)
        (assignRange
          (match generics with
            | some (start, stop) =>
              ((code.identifiersIn (start + 1) stop).filter code.startsTypeParameter).foldl
                (fun walk parameter => (declareTypeParameter code walk scope parameter).unmarkType parameter)
                ((named.openScope .method (some text) extent [] false).assignRange start (position - 1) scope)
            | none => named.openScope .method (some text) extent [] false)
          opener last scope)) := by
  have opened : (named.respell spell).openScope .method (some (spell text)) extent [] false =
      (named.openScope .method (some text) extent [] false).respell spell :=
    respell_openScope_named .method text extent [] false
  rw [opened]
  cases generics with
  | none =>
      dsimp only
      rw [respell_assignRange, respell_declareParameters keeps]
  | some generics =>
      obtain ⟨start, stop⟩ := generics
      have parameters (walk : Walk) :
          ((code.identifiersIn (start + 1) stop).filter code.startsTypeParameter).foldl
              (fun walk parameter =>
                (declareTypeParameter (code.respell spell) walk scope parameter).unmarkType parameter)
              (walk.respell spell) =
            (((code.identifiersIn (start + 1) stop).filter code.startsTypeParameter).foldl
              (fun walk parameter => (declareTypeParameter code walk scope parameter).unmarkType parameter)
              walk).respell spell := by
        apply respell_foldl
        intro walk parameter member
        have identifier := (code.mem_identifiersIn.mp (List.mem_of_mem_filter member)).2
        rw [respell_declareTypeParameter scope identifier, respell_unmarkType]
      dsimp only
      rw [respell_assignRange, parameters, respell_assignRange, respell_declareParameters keeps]

theorem respell_methodDeclaration {position : Nat} {type : Option TypeRun}
    (identifier : code.isIdentifier position = true)
    (typed : ∀ run, type = some run → code.typeBefore? position = some run) :
    (walk.respell spell).methodDeclaration (code.respell spell) position type =
      respellStep spell (walk.methodDeclaration code position type) := by
  unfold methodDeclaration respellStep
  dsimp only
  rw [Code.respell_close?, Code.respell_isPunctuation, Code.respell_segments, Code.respell_identifiersIn,
    Code.respell_startsTypeParameter, Code.respell_methodTypeParameters?, Code.respell_methodHeader, Code.respell_last,
    code.respell_text_of_isIdentifier spell identifier]
  cases code.close? (position + 1) with
  | none => rfl
  | some found =>
      obtain ⟨close, later⟩ := found
      dsimp only
      rw [respell_frame, respell_scopes_size, respell_markTypes]
      generalize type.bind code.methodTypeParameters? = generics
      refine Prod.ext ?_ rfl
      dsimp only
      cases type with
      | none =>
          dsimp only
          rw [respell_markTypes]
          exact respell_methodScope keeps _ _ _ _ _ _ _ _ _
      | some run =>
          dsimp only
          have declared {scope : ScopeId} {arity : Arity} {marked : Walk} :
              (marked.respell spell).declare
                  { kind := .method, name := spell (code.text position), scope := walk.frame.scope, position
                    declaredType := (code.respell spell).typeOfName? run position
                    arity := some arity
                    body := some scope } =
                (marked.declare
                  { kind := .method, name := code.text position, scope := walk.frame.scope, position
                    declaredType := code.typeOfName? run position
                    arity := some arity
                    body := some scope }).respell spell := by
            rw [Code.respell_typeOfName? keeps (typed run rfl), ← respell_declare]
            rfl
          rw [respell_markTypes, declared]
          exact respell_methodScope keeps _ _ _ _ _ _ _ _ _

omit keeps in
theorem respell_headerBlock (position : Nat) :
    (walk.respell spell).headerBlock (code.respell spell) position =
      respellStep spell (walk.headerBlock code position) := by
  unfold headerBlock respellStep
  rw [Code.respell_close?, Code.respell_isPunctuation, Code.respell_isKeyword, Code.respell_statementEnd]
  cases code.close? (position + 1) with
  | none => rfl
  | some found =>
      obtain ⟨close, later⟩ := found
      dsimp only
      rw [respell_openScope_unnamed, respell_scopes_size, respell_assign]
      refine Prod.ext ?_ rfl
      dsimp only
      split
      · rfl
      · rfl

theorem respell_lambda (position arrow : Nat) :
    (walk.respell spell).lambda (code.respell spell) position arrow =
      respellStep spell (walk.lambda code position arrow) := by
  unfold lambda respellStep
  rw [Code.respell_close?, Code.respell_isPunctuation, Code.respell_expressionEnd, Code.respell_last,
    Code.respell_segments]
  dsimp only
  rw [respell_openScope_unnamed, respell_scopes_size, respell_assignRange]
  have parameters (walk : Walk) (scope : ScopeId) :
      (if (code.respell spell).isIdentifier position then
        (walk.respell spell).declare
          { kind := .parameter, name := (code.respell spell).text position, scope, position }
      else
        (code.segments position true).foldl (declareParameter (code.respell spell) · scope .parameter)
          (walk.respell spell)) =
      Walk.respell spell (if code.isIdentifier position then
        walk.declare { kind := .parameter, name := code.text position, scope, position }
      else
        (code.segments position true).foldl (declareParameter code · scope .parameter) walk) := by
    rw [Code.respell_isIdentifier]
    split
    · rename_i identifier
      rw [code.respell_text_of_isIdentifier spell identifier, respell_declare_untyped]
    · exact respell_declareParameters keeps scope .parameter _
  rw [parameters]
  refine Prod.ext ?_ rfl
  dsimp only
  split
  · rfl
  · rfl

omit keeps in
theorem respell_brace (position : Nat) :
    (walk.respell spell).brace (code.respell spell) position = respellStep spell (walk.brace code position) := by
  unfold brace respellStep
  rw [Code.respell_close?, Code.respell_anonymousSupertype?, Code.respell_last]
  have claimed : (walk.respell spell).claimed = walk.claimed := rfl
  rw [claimed]
  split
  · rfl
  · dsimp only
    rw [respell_scopes_size, respell_frame, respell_atBase, respell_nameOfScope]
    refine Prod.ext ?_ rfl
    dsimp only
    cases code.anonymousSupertype? position with
    | some base =>
        dsimp only [Option.map_some]
        rw [← respell_assign, ← respell_openScope]
        rfl
    | none =>
        dsimp only [Option.map_none]
        split
        · rw [← respell_assign, ← respell_openScope]
          cases walk.nameOfScope walk.frame.scope with
          | none => rfl
          | some name => rfl
        · rw [← respell_assign, ← respell_openScope]
          rfl

omit keeps in
theorem respell_comma (position : Nat) :
    (walk.respell spell).comma (code.respell spell) position = respellStep spell (walk.comma code position) := by
  have declarators : (walk.respell spell).declarators = walk.declarators.map (Declarators.respell spell) := rfl
  unfold comma respellStep
  rw [declarators, Code.respell_isIdentifier, Code.respell_endsDeclarator, Code.respell_withDimensions]
  cases walk.declarators with
  | none => rfl
  | some list =>
      simp only [Option.map_some]
      have conditions : ((Declarators.respell spell list).depth == (walk.respell spell).depth &&
          (Declarators.respell spell list).frames == (walk.respell spell).frames.length &&
          code.isIdentifier (position + 1) && code.endsDeclarator (position + 2)) =
          (list.depth == walk.depth && list.frames == walk.frames.length && code.isIdentifier (position + 1)
            && code.endsDeclarator (position + 2)) := rfl
      rw [conditions]
      split
      · rename_i follows
        have identifier : code.isIdentifier (position + 1) = true := by
          simp only [Bool.and_eq_true] at follows
          exact follows.1.2
        have typed : (Declarators.respell spell list).declaredType.map (code.withDimensions · (position + 1)) =
            (list.declaredType.map (code.withDimensions · (position + 1))).map (DeclaredType.respell spell) := by
          cases declared : list.declaredType with
          | none => simp [Declarators.respell, declared]
          | some type => simp [Declarators.respell, declared, Code.withDimensions_respell]
        refine Prod.ext ?_ rfl
        dsimp only
        rw [respell_frame, respell_assign, typed, code.respell_text_of_isIdentifier spell identifier,
          ← respell_declare]
        rfl
      · rfl

theorem respell_variableDeclaration {position : Nat} {run : TypeRun} (identifier : code.isIdentifier position = true)
    (before : code.typeBefore? position = some run) :
    (walk.respell spell).variableDeclaration (code.respell spell) position run =
      (walk.variableDeclaration code position run).respell spell := by
  unfold variableDeclaration
  dsimp only
  rw [Code.respell_isCatchParameter, respell_frame, respell_kindOfScope, respell_atBase, respell_markTypes,
    Code.respell_typeOfName? keeps before, Code.respell_declaredType? keeps before,
    code.respell_text_of_isIdentifier spell identifier]
  generalize (if (walk.kindOfScope walk.frame.scope == .type && walk.atBase) = true then DeclarationKind.field
    else if code.isCatchParameter run.start = true then .parameter else .localVariable) = kind
  exact congrArg
    (fun after : Walk => { after with
      declarators := some ⟨kind, (code.declaredType? run).map (DeclaredType.respell spell), walk.depth,
        walk.frames.length⟩ })
    (respell_declare ⟨kind, code.text position, walk.frame.scope, position, code.typeOfName? run position, none, none, 0⟩)

theorem respell_plainName {position : Nat} (identifier : code.isIdentifier position = true) :
    (walk.respell spell).plainName (code.respell spell) position = respellStep spell
    (walk.plainName code position) := by
  unfold plainName respellStep
  rw [Code.respell_endsDeclarator, Code.respell_typeBefore?, Code.respell_startsStatement]
  split
  · cases before : code.typeBefore? position with
    | none => rfl
    | some run =>
        dsimp only
        split
        · rw [respell_variableDeclaration keeps identifier before]
        · rfl
  · rfl

omit keeps in
/-- A call is no declaration of a variable. -/
theorem plainName_of_call {position : Nat} (call : code.isPunctuation (position + 1) "(" = true) :
    walk.plainName code position = (walk, position + 1) := by
  have other {mark : String} (different : "(" ≠ mark) := code.isPunctuation_of_ne call different
  unfold plainName
  rw [if_neg]
  simp [Code.endsDeclarator, other]

/-- The name may be that of a constructor: in the body of a type but no constant of an enum, in front of a list,
without a type of its own, where a declaration may begin. -/
structure AtConstructor (code : Code) (walk : Walk) (position : Nat) : Prop where
  noConstant : ¬(walk.frame.inConstants && walk.atBase
    && (code.followsPunctuation position openBrace || code.followsPunctuation position ",")) = true
  inType : (walk.kindOfScope walk.frame.scope == .type && walk.atBase && code.isPunctuation (position + 1) "(") = true
  untyped : code.typeBefore? position = none
  starts : code.startsStatement position = true
  closed : code.close? (position + 1) ≠ none

theorem respell_identifier {position : Nat} (identifier : code.isIdentifier position = true)
    (constructs : AtConstructor code walk position →
      (walk.nameOfScope walk.frame.scope).map spell = some (spell (code.text position)) →
      walk.nameOfScope walk.frame.scope = some (code.text position)) :
    (walk.respell spell).identifier (code.respell spell) position =
      respellStep spell (walk.identifier code position) := by
  unfold Walk.identifier
  dsimp only
  rw [Code.respell_isPunctuation, Code.respell_isCaseLabel, Code.respell_followsPunctuation, Code.respell_typeBefore?,
    Code.respell_startsStatement, respell_frame, respell_atBase, respell_kindOfScope, respell_nameOfScope,
    code.respell_text_of_isIdentifier spell identifier]
  split
  · exact respell_lambda keeps position (position + 1)
  · split
    · refine Prod.ext ?_ rfl
      dsimp only [respellStep]
      rw [← respell_declare]
      cases walk.nameOfScope walk.frame.scope with
      | none => rfl
      | some name => rfl
    · rename_i noConstant
      split
      · rename_i call
        cases before : code.typeBefore? position with
        | some run =>
            dsimp only
            split
            · refine respell_methodDeclaration keeps identifier ?_
              intro other same
              cases same
              exact before
            · exact respell_plainName keeps identifier
        | none =>
            dsimp only
            by_cases same : walk.nameOfScope walk.frame.scope = some (code.text position)
            · rw [same, Option.map_some, beq_self_eq_true, beq_self_eq_true]
              split
              · refine respell_methodDeclaration keeps identifier ?_
                intro run impossible
                cases impossible
              · exact respell_plainName keeps identifier
            · rw [beq_eq_false_iff_ne.mpr same, Bool.false_and, if_neg Bool.false_ne_true]
              split
              · rename_i taken
                obtain ⟨respelled, starts⟩ := Bool.and_eq_true_iff.mp taken
                -- the names only agree once respelled, so the list never closes and nothing is declared
                cases closed : code.close? (position + 1) with
                | some found =>
                    have reached : AtConstructor code walk position :=
                      ⟨noConstant, call, before, starts, closed ▸ Option.some_ne_none found⟩
                    exact absurd (constructs reached (beq_iff_eq.mp respelled)) same
                | none =>
                    simp only [Bool.and_eq_true] at call
                    rw [plainName_of_call call.2]
                    unfold methodDeclaration
                    dsimp only
                    rw [Code.respell_close?, closed]
                    rfl
              · exact respell_plainName keeps identifier
      · exact respell_plainName keeps identifier

omit keeps in
theorem respell_importPath (position : Nat) :
    (walk.respell spell).importPath (code.respell spell) position =
      respellStep spell (walk.importPath code position) := by
  unfold importPath respellStep
  rw [Code.respell_size, Code.respell_isPunctuation, Code.respell_last]
  dsimp only
  rw [respell_frame, respell_assignRange, respell_markPath]

theorem respell_keyword (position : Nat) (text : String) :
    (walk.respell spell).keyword (code.respell spell) position text =
      respellStep spell (walk.keyword code position text) := by
  unfold keyword
  rw [Code.respell_isIdentifier, Code.respell_followsPunctuation, Code.respell_isPunctuation,
    Code.respell_typeNameWords, respell_frame, respell_kindOfScope]
  split
  · exact respell_importPath position
  · split
    · rename_i named
      simp only [Bool.and_eq_true] at named
      exact respell_typeDeclaration keeps named.1.2
    · split
      · exact respell_headerBlock position
      · split
        · rw [respell_markTypes]
          rfl
        · rfl

omit keeps in
/-- Ending a declaration in progress asks for its depth only. -/
private theorem respell_filter (test : Nat → Bool) :
    (walk.respell spell).declarators.filter (fun list => test list.depth) =
      (walk.declarators.filter fun list => test list.depth).map (Declarators.respell spell) := by
  have declarators : (walk.respell spell).declarators = walk.declarators.map (Declarators.respell spell) := rfl
  rw [declarators]
  cases walk.declarators with
  | none => rfl
  | some list =>
      have depth : (Declarators.respell spell list).depth = list.depth := rfl
      rw [Option.map_some, Option.filter_some, Option.filter_some, depth]
      split
      · rfl
      · rfl

omit keeps in
theorem respell_closeGroup : (walk.respell spell).closeGroup = walk.closeGroup.respell spell := by
  have ended : (walk.respell spell).declarators.filter (fun list => list.depth ≤ walk.depth - 1) =
      (walk.declarators.filter fun list => list.depth ≤ walk.depth - 1).map (Declarators.respell spell) :=
    respell_filter fun depth => depth ≤ walk.depth - 1
  exact congrArg (fun declarators => { walk.respell spell with depth := walk.depth - 1, declarators }) ended

omit keeps in
theorem respell_semicolon : (walk.respell spell).semicolon = walk.semicolon.respell spell := by
  have ended : (walk.respell spell).declarators.filter (fun list => list.depth != walk.depth) =
      (walk.declarators.filter fun list => list.depth != walk.depth).map (Declarators.respell spell) :=
    respell_filter fun depth => depth != walk.depth
  exact congrArg (fun declarators => { walk.respell spell with declarators, frames := walk.semicolon.frames }) ended

theorem respell_punctuation (position : Nat) (text : String) :
    (walk.respell spell).punctuation (code.respell spell) position text =
      respellStep spell (walk.punctuation code position text) := by
  unfold punctuation
  rw [Code.respell_close?, Code.respell_isPunctuation, Code.respell_isIdentifier, Code.respell_typeNameWords]
  split
  · split
    · split
      · exact respell_lambda keeps _ _
      · rfl
    · rfl
  · split
    · rfl
    · split
      · rw [respell_closeGroup]
        rfl
      · split
        · exact respell_brace position
        · split
          · rw [respell_semicolon]
            rfl
          · split
            · split
              · rw [respell_markTypes]
                rfl
              · rfl
            · split
              · exact respell_comma position
              · rfl

/-! ### Steps and runs -/

/-- A step over respelled code is the respelled step, unless a name and that of the type around it are only alike once
respelled. -/
theorem respell_step {position : Nat}
    (constructs : code.isIdentifier position = true → AtConstructor code walk position →
      (walk.nameOfScope walk.frame.scope).map spell = some (spell (code.text position)) →
      walk.nameOfScope walk.frame.scope = some (code.text position)) :
    (walk.respell spell).step (code.respell spell) position = respellStep spell (walk.step code position) := by
  unfold step
  rw [Code.respell_word?]
  cases found : code.word? position with
  | none => rfl
  | some word =>
      rw [Option.map_some]
      dsimp only
      rw [Lexeme.respell_kind]
      by_cases kind : word.kind = .identifier
      · rw [kind]
        dsimp only
        have identifier : code.isIdentifier position = true := by
          simp [Code.isIdentifier, found, Lexeme.isIdentifier, kind]
        exact respell_identifier keeps identifier (constructs identifier)
      · rw [Lexeme.respell_of_kind_ne spell word kind]
        cases other : word.kind with
        | identifier => exact absurd other kind
        | keyword => exact respell_keyword keeps position word.text
        | punctuation => exact respell_punctuation keeps position word.text
        | _ => rfl

omit keeps in
theorem respell_arrive (position : Nat) :
    (walk.respell spell).arrive position = (walk.arrive position).respell spell := by
  have left : (walk.respell spell).leave position = (walk.leave position).respell spell := rfl
  unfold arrive
  dsimp only
  rw [left, respell_assign, respell_frame]

omit keeps in
theorem AtConstructor.respell {position : Nat} (reached : AtConstructor code walk position) :
    AtConstructor (code.respell spell) (walk.respell spell) position where
  noConstant := by
    rw [respell_frame, respell_atBase, Code.respell_followsPunctuation]
    exact reached.noConstant
  inType := by
    rw [respell_frame, respell_atBase, respell_kindOfScope, Code.respell_isPunctuation]
    exact reached.inType
  untyped := by
    rw [Code.respell_typeBefore?]
    exact reached.untyped
  starts := by
    rw [Code.respell_startsStatement]
    exact reached.starts
  closed := reached.closed

omit keeps in
/-- In the place of a constructor the name of the type opens one, and any other name is read over. -/
theorem AtConstructor.step_eq {position : Nat} (reached : AtConstructor code walk position)
    (identifier : code.isIdentifier position = true) :
    walk.step code position =
      if walk.nameOfScope walk.frame.scope = some (code.text position) then walk.methodDeclaration code position none
      else (walk, position + 1) := by
  obtain ⟨noConstant, inType, untyped, starts, _⟩ := reached
  have call : code.isPunctuation (position + 1) "(" = true := (Bool.and_eq_true_iff.mp inType).2
  have noArrow : code.isPunctuation (position + 1) "->" = false := code.isPunctuation_of_ne call (by decide)
  rw [step_of_isIdentifier identifier]
  unfold Walk.identifier
  dsimp only
  rw [noArrow, Bool.false_and, if_neg Bool.false_ne_true, if_neg noConstant, if_pos inType, untyped]
  dsimp only
  rw [starts, Bool.and_true, plainName_of_call call]
  by_cases named : walk.nameOfScope walk.frame.scope = some (code.text position)
  · rw [if_pos named, if_pos (beq_iff_eq.mpr named)]
  · rw [if_neg named, if_neg (mt beq_iff_eq.mp named)]

omit keeps in
/-- The name of a constructor is marked as that of its type. -/
theorem step_constructor {position : Nat} (identifier : code.isIdentifier position = true)
    (reached : AtConstructor code walk position)
    (named : walk.nameOfScope walk.frame.scope = some (code.text position)) :
    (walk.step code position).1.NamesType position := by
  have closed := reached.closed
  rw [reached.step_eq identifier, if_pos named]
  unfold methodDeclaration
  dsimp only
  cases found : code.close? (position + 1) with
  | none => exact absurd found closed
  | some close =>
      obtain ⟨close, later⟩ := close
      dsimp only
      refine (methodScope_changes Relation.ReflTransGen.refl found (Nat.le_succ _) (Nat.le_refl _) _ _ _ none _
        ?_).namesType ?_
      · intro first last impossible
        cases impossible
      exact Or.inl ((isTypeWord_markTypes code _ [position] position).mpr (Or.inr ⟨List.mem_cons_self, identifier⟩))

omit keeps in
theorem run_namesType {position word : Nat} (names : walk.NamesType word) :
    (run code walk position).NamesType word := by
  have stopped : ∃ _ : Nat, (run code walk position).NamesType word := by
    refine run_induction (fun _ walk => walk.NamesType word) ?_ walk position names
    intro walk position names changes
    exact changes.namesType names
  obtain ⟨_, kept⟩ := stopped
  exact kept

omit keeps in
/-- Where a constructor may stand, its name is that of the type around it already before respelling, if the texts of
words that name types after the step stay apart. -/
theorem AtConstructor.name_eq {position : Nat} (reached : AtConstructor code walk position)
    (identifier : code.isIdentifier position = true) (spelled : Spelled code walk)
    (distinct : ∀ left right, ((walk.respell spell).step (code.respell spell) position).1.NamesType left →
      ((walk.respell spell).step (code.respell spell) position).1.NamesType right →
      spell (code.text left) = spell (code.text right) → code.text left = code.text right)
    (alike : (walk.nameOfScope walk.frame.scope).map spell = some (spell (code.text position))) :
    walk.nameOfScope walk.frame.scope = some (code.text position) := by
  obtain ⟨name, named, same⟩ := Option.map_eq_some_iff.mp alike
  -- the name of the type is spelled where the type is declared
  have spelledName : ∃ word, name = code.text word ∧ walk.NamesType word := by
    unfold nameOfScope at named
    obtain ⟨entry, found, entryName⟩ := Option.bind_eq_some_iff.mp named
    have kind : entry.kind = .type := by
      have inType := (Bool.and_eq_true_iff.mp (Bool.and_eq_true_iff.mp reached.inType).1).1
      unfold kindOfScope at inType
      rw [found] at inType
      exact beq_iff_eq.mp inType
    obtain ⟨declaration, declared, isType, text⟩ :=
      spelled.named entry (Array.mem_of_getElem? found) kind name entryName
    exact ⟨declaration.position, text, Or.inr ⟨declaration, declared, isType, rfl⟩⟩
  obtain ⟨word, text, names⟩ := spelledName
  have wordNames : ((walk.respell spell).step (code.respell spell) position).1.NamesType word := by
    have changes : Changes (code.respell spell) position
        (max (position + 1) ((walk.respell spell).step (code.respell spell) position).2) (walk.respell spell)
        ((walk.respell spell).step (code.respell spell) position).1 :=
      step_changes (by omega) (by omega)
    exact changes.namesType (Outline.respell_namesType.mpr names)
  have respelledName : (walk.respell spell).nameOfScope (walk.respell spell).frame.scope =
      some ((code.respell spell).text position) := by
    rw [respell_frame, respell_nameOfScope, code.respell_text_of_isIdentifier spell identifier]
    exact alike
  have positionNames := step_constructor ((code.respell_isIdentifier spell).symm ▸ identifier) reached.respell
    respelledName
  rw [named, text, distinct word position wordNames positionNames (text ▸ same)]

/-- A run over respelled code is the respelled run, provided that the texts of words that name types stay apart. -/
theorem respell_run (walk : Walk) (position : Nat) (spelled : Spelled code walk)
    (distinct : ∀ left right, (run (code.respell spell) (walk.respell spell) position).NamesType left →
      (run (code.respell spell) (walk.respell spell) position).NamesType right →
      spell (code.text left) = spell (code.text right) → code.text left = code.text right) :
    run (code.respell spell) (walk.respell spell) position = (run code walk position).respell spell := by
  induction bound : code.size - position using Nat.strongRecOn generalizing walk position with
  | ind size shorter =>
      rw [run.eq_def (code.respell spell)] at distinct ⊢
      rw [run.eq_def code]
      rw [Code.respell_size] at distinct ⊢
      split
      · rename_i inside
        rw [if_pos inside] at distinct
        dsimp only at distinct ⊢
        rw [respell_arrive] at distinct ⊢
        have arrivedChanges : Changes code position (position + 1) walk (walk.arrive position) :=
          arrive_changes
        have stepped : ((walk.arrive position).respell spell).step (code.respell spell) position =
            respellStep spell ((walk.arrive position).step code position) := by
          refine respell_step keeps ?_
          intro identifier reached alike
          refine reached.name_eq identifier (spelled.changes arrivedChanges) ?_ alike
          intro left right leftNames rightNames same
          exact distinct left right (run_namesType leftNames) (run_namesType rightNames) same
        rw [stepped] at distinct ⊢
        have nextChanges : Changes code position
            (max (position + 1) ((walk.arrive position).step code position).2) (walk.arrive position)
            ((walk.arrive position).step code position).1 :=
          step_changes (by omega) (by omega)
        exact shorter _ (by omega) _ _ ((spelled.changes arrivedChanges).changes nextChanges) distinct rfl
      · rfl

omit keeps in
theorem respell_start (layout : Layout) : (start layout).respell spell = start (layout.respell spell) := by
  simp [start, respell, Outline.respell, Scope.respell, Register.ofEntries]

end Walk

/-- The outline of respelled code is the respelled outline, provided that the texts of words that name types stay
apart. -/
theorem Outline.respell_ofCode {code : Code} {spell : String → String} (keeps : KeepsTypeKeywords spell)
    (distinct : ∀ left right, (Outline.ofCode (code.respell spell)).NamesType left →
      (Outline.ofCode (code.respell spell)).NamesType right →
      spell (code.text left) = spell (code.text right) → code.text left = code.text right) :
    Outline.ofCode (code.respell spell) = (Outline.ofCode code).respell spell := by
  unfold Outline.ofCode at distinct ⊢
  have spelled : Walk.Spelled code (Walk.start code.layout) := .start _
  have walked := Walk.respell_run keeps (Walk.start code.layout) 0 spelled
  rw [Walk.respell_start] at walked
  exact congrArg Walk.toOutline (walked distinct)

end ScopedRename
