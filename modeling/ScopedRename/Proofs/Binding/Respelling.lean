import Mathlib.Data.Set.Function
import ScopedRename.Proofs.Binding.Replay
import ScopedRename.Proofs.Outline.Respelling

/-!
Binding the names of respelled code. A lookup compares names only for equality, so a respelling that keeps the names of
a file apart changes no level of any lookup: every use is looked up where it was and denotes what it denoted.
-/

namespace ScopedRename

def Reference.respell (spell : String → String) (reference : Reference) : Reference :=
  { reference with name := spell reference.name }

namespace Outline

variable (outline : Outline) (spell : String → String)

/-! ### What does not depend on names -/

theorem respell_scope? (scope : ScopeId) :
    (outline.respell spell).scope? scope = (outline.scope? scope).map (Scope.respell spell) :=
  Array.getElem?_map

theorem respell_declaration? (id : DeclarationId) :
    (outline.respell spell).declaration? id = (outline.declaration? id).map (Declaration.respell spell) :=
  Array.getElem?_map

@[simp]
theorem respell_declarationIds : (outline.respell spell).declarationIds = outline.declarationIds := by
  unfold declarationIds respell
  rw [Array.size_map]

theorem respell_declaration?_any (test : Declaration → Bool)
    (keeps : ∀ declaration, test (declaration.respell spell) = test declaration) (id : DeclarationId) :
    ((outline.respell spell).declaration? id).any test = (outline.declaration? id).any test := by
  rw [respell_declaration?, Option.any_map]
  simp only [keeps]

instance respell_ordered : (outline.respell spell).layout.Ordered := Layout.bare_ordered _

theorem respell_startOf_lt [outline.layout.Ordered] {earlier later : Nat} :
    (outline.respell spell).startOf earlier < (outline.respell spell).startOf later ↔
      outline.startOf earlier < outline.startOf later :=
  Layout.start_lt_start.trans Layout.start_lt_start.symm

/-- What is visible from a word is the same, wherever the word starts. -/
theorem respell_isVisible [outline.layout.Ordered] (id : DeclarationId) (position : Option Nat) :
    (outline.respell spell).isVisible id (position.map (outline.respell spell).startOf) =
      outline.isVisible id (position.map outline.startOf) := by
  cases position with
  | none => rfl
  | some position =>
      rw [Option.map_some, Option.map_some, isVisible_startOf, isVisible_startOf]
      exact outline.respell_declaration?_any spell
        (fun declaration => declaration.kind != .localVariable || declaration.position ≤ position) (fun _ => rfl) id

@[simp]
theorem respell_parent? : (outline.respell spell).parent? = outline.parent? := by
  funext scope
  unfold parent?
  rw [respell_scope?]
  cases outline.scope? scope with
  | none => rfl
  | some entry => rfl

@[simp]
theorem respell_ancestors : (outline.respell spell).ancestors = outline.ancestors :=
  ancestors_of_parent? (outline.respell_parent? spell)

@[simp]
theorem respell_isWithin : (outline.respell spell).isWithin = outline.isWithin := by
  funext scope outer
  unfold isWithin
  rw [respell_ancestors]

@[simp]
theorem respell_enclosingType? : (outline.respell spell).enclosingType? = outline.enclosingType? := by
  have kinds (outer : ScopeId) :
      ((outline.respell spell).scope? outer).any (·.kind == .type) = (outline.scope? outer).any (·.kind == .type) := by
    rw [respell_scope?]
    cases outline.scope? outer with
    | none => rfl
    | some entry => rfl
  funext scope
  unfold enclosingType?
  rw [respell_ancestors, funext kinds]

theorem respell_supertypesOf (scope : ScopeId) :
    (outline.respell spell).supertypesOf scope = (outline.supertypesOf scope).map spell := by
  unfold supertypesOf
  rw [respell_scope?]
  cases outline.scope? scope with
  | none => rfl
  | some entry => rfl

@[simp]
theorem respell_takes (count : Nat) : (outline.respell spell).takes count = outline.takes count := by
  funext id
  unfold takes
  rw [respell_declaration?]
  cases outline.declaration? id with
  | none => rfl
  | some declaration => rfl

@[simp]
theorem respell_choose : (outline.respell spell).choose = outline.choose := by
  funext candidates arguments
  cases arguments with
  | none => exact choose_none_eq _ outline candidates
  | some count =>
      rw [choose_some, choose_some, respell_takes, choose_none_eq _ outline candidates,
        choose_none_eq _ outline (candidates.filter _)]

variable {spell} in
theorem externalMember_respell {index : ProjectIndex}
    (answers : ∀ types name, index.member? (types.map spell) (spell name) = index.member? types name)
    (types : List String) (name : String) :
    externalMember index (types.map spell) (spell name) = externalMember index types name := by
  unfold externalMember
  rw [answers]

/-! ### What depends on names -/

/-- The respelling keeps apart the names among which are those the outline records; types may also be keywords, which
it leaves alone. -/
structure KeptApart (names : Set String) : Prop where
  keywords : KeepsTypeKeywords spell
  apart : Set.InjOn spell names
  declared : ∀ declaration ∈ outline.declarations, declaration.name ∈ names
  typed : ∀ declaration ∈ outline.declarations, ∀ type, declaration.declaredType = some type →
    isTypeKeyword type.base = true ∨ type.base ∈ names

theorem keptApart_id : outline.KeptApart id Set.univ where
  keywords := KeepsTypeKeywords.id
  apart := Set.injOn_id _
  declared _ _ := Set.mem_univ _
  typed _ _ _ _ := Or.inr (Set.mem_univ _)

namespace KeptApart

variable {outline spell} {names : Set String} (kept : outline.KeptApart spell names)

include kept

theorem name_iff {id : DeclarationId} {declaration : Declaration} (found : outline.declaration? id = some declaration)
    {name : String} (known : name ∈ names) : spell declaration.name = spell name ↔ declaration.name = name :=
  ⟨kept.apart (kept.declared declaration (Array.mem_of_getElem? found)) known, congrArg spell⟩

variable {name : String} (known : name ∈ names)

include known

theorem declaredIn [outline.Registered] (scope : ScopeId) (space : NameSpace) :
    (outline.respell spell).declaredIn scope (spell name) space = outline.declaredIn scope name space := by
  rw [declaredIn_eq, declaredIn_eq, respell_declarationIds]
  apply List.filter_congr
  intro id _
  rw [respell_declaration?]
  cases found : outline.declaration? id with
  | none => rfl
  | some declaration =>
      have same : (spell declaration.name == spell name) = (declaration.name == name) :=
        Bool.eq_iff_iff.mpr (by rw [beq_iff_eq, beq_iff_eq]; exact kept.name_iff found known)
      rw [Option.map_some, Option.any_some, Option.any_some, ← same]
      rfl

theorem lookup [outline.Registered] [outline.layout.Ordered] (scope : ScopeId) (space : NameSpace)
    (position : Option Nat) :
    (outline.respell spell).lookup scope (spell name) space (position.map (outline.respell spell).startOf) =
      outline.lookup scope name space (position.map outline.startOf) := by
  unfold Outline.lookup
  rw [respell_ancestors]
  simp only [kept.declaredIn known, respell_isVisible]

theorem lookup_startOf [outline.Registered] [outline.layout.Ordered] (scope : ScopeId) (space : NameSpace)
    (position : Nat) :
    (outline.respell spell).lookup scope (spell name) space (some ((outline.respell spell).startOf position)) =
      outline.lookup scope name space (some (outline.startOf position)) :=
  kept.lookup known scope space (some position)

theorem lookup_none [outline.Registered] [outline.layout.Ordered] (scope : ScopeId) (space : NameSpace) :
    (outline.respell spell).lookup scope (spell name) space none = outline.lookup scope name space none :=
  kept.lookup known scope space none

theorem members [outline.Registered] (type : ScopeId) (space : NameSpace) :
    (outline.respell spell).members type (spell name) space = outline.members type name space := by
  unfold Outline.members
  rw [kept.declaredIn known, kept.declaredIn known]

section External

variable {index : ProjectIndex}
  (answers : ∀ types name, index.member? (types.map spell) (spell name) = index.member? types name)

include answers

theorem bindBareName [outline.Registered] [outline.layout.Ordered] (scope : ScopeId) (usage : Usage) (position : Nat) :
    (outline.respell spell).bindBareName index scope (spell name) usage ((outline.respell spell).startOf position) =
      outline.bindBareName index scope name usage (outline.startOf position) := by
  have supertypes : (outline.respell spell).supertypesOf = fun scope => (outline.supertypesOf scope).map spell :=
    funext (outline.respell_supertypesOf spell)
  unfold Outline.bindBareName
  simp only [kept.lookup_startOf known, respell_choose, respell_ancestors, supertypes, ← List.map_flatMap,
    externalMember_respell answers]

theorem bindMember [outline.Registered] (receiver : Receiver) (usage : Usage) :
    (outline.respell spell).bindMember index (receiver.respell spell) (spell name) usage =
      outline.bindMember index receiver name usage := by
  have external := externalMember_respell answers
  cases receiver with
  | localType type =>
      dsimp only [Receiver.respell]
      rw [bindMember_localType, bindMember_localType, kept.members known, respell_choose, respell_supertypesOf, external]
  | named type => exact congrArg (Prod.mk Lookup.foreign) (external [type] name)
  | inherited types => exact congrArg (Prod.mk Lookup.foreign) (external types name)
  | unknown => rfl

end External

omit known

theorem receiverOfType [outline.Registered] [outline.layout.Ordered] {type : DeclaredType}
    (recorded : isTypeKeyword type.base = true ∨ type.base ∈ names)
    (scope : ScopeId) :
    (outline.respell spell).receiverOfType (type.respell spell) scope =
      (outline.receiverOfType type scope).respell spell := by
  unfold Outline.receiverOfType DeclaredType.respell
  dsimp only
  rw [kept.keywords.reflects]
  rcases recorded with keyword | known
  · rw [keyword, Bool.or_true, if_pos rfl, if_pos rfl]
    rfl
  · rw [kept.lookup_none known]
    split
    · rfl
    · split
      · rename_i only _
        rw [respell_declaration?]
        cases outline.declaration? only with
        | none => rfl
        | some declaration =>
            dsimp only [Option.map_some, Option.bind_some, Declaration.respell]
            cases declaration.body with
            | none => rfl
            | some body => rfl
      · rfl
      · rfl

private theorem receiverOfDeclared [outline.Registered] [outline.layout.Ordered] {id : DeclarationId}
    {declaration : Declaration}
    (found : outline.declaration? id = some declaration) :
    (declaration.respell spell).declaredType.elim .unknown
        ((outline.respell spell).receiverOfType · declaration.scope) =
      (declaration.declaredType.elim .unknown (outline.receiverOfType · declaration.scope)).respell spell := by
  unfold Declaration.respell
  dsimp only
  cases typed : declaration.declaredType with
  | none => rfl
  | some type =>
      exact kept.receiverOfType (kept.typed declaration (Array.mem_of_getElem? found) type typed) declaration.scope

theorem receiverOfName [outline.Registered] [outline.layout.Ordered] (id : DeclarationId) :
    (outline.respell spell).receiverOfName id = (outline.receiverOfName id).respell spell := by
  unfold Outline.receiverOfName
  rw [respell_declaration?]
  cases found : outline.declaration? id with
  | none => rfl
  | some declaration =>
      have value := kept.receiverOfDeclared found
      have kind : (declaration.respell spell).kind = declaration.kind := rfl
      have body : (declaration.respell spell).body = declaration.body := rfl
      have scope : (declaration.respell spell).scope = declaration.scope := rfl
      rw [Option.map_some]
      dsimp only
      rw [kind, body, scope]
      cases declaration.kind with
      | type =>
          dsimp only
          cases declaration.body with
          | none => rfl
          | some body => rfl
      | method => rfl
      | field => exact value
      | parameter => exact value
      | localVariable => exact value

theorem receiverOfCall [outline.Registered] [outline.layout.Ordered] (id : DeclarationId) :
    (outline.respell spell).receiverOfCall id = (outline.receiverOfCall id).respell spell := by
  unfold Outline.receiverOfCall
  rw [respell_declaration?]
  cases found : outline.declaration? id with
  | none => rfl
  | some declaration =>
      have value := kept.receiverOfDeclared found
      have kind : (declaration.respell spell).kind = declaration.kind := rfl
      have scope : (declaration.respell spell).scope = declaration.scope := rfl
      rw [Option.map_some]
      dsimp only
      rw [kind, scope]
      split
      · exact value
      · rfl

end KeptApart

end Outline

namespace Code

variable {code : Code} {outline : Outline} {spell : String → String} {names : Set String}

@[simp]
theorem respell_isReference :
    (code.respell spell).isReference (outline.respell spell) = code.isReference outline := by
  funext position
  unfold isReference
  rw [respell_isIdentifier, Outline.respell_declarationAt?]

@[simp]
theorem respell_usageAt : (code.respell spell).usageAt (outline.respell spell) = code.usageAt outline := by
  funext position
  unfold usageAt
  rw [Outline.respell_isPathWord, Outline.respell_isTypeWord, respell_followsPunctuation, respell_isPunctuation,
    respell_argumentCount]

@[simp]
theorem respell_isQualified : (code.respell spell).isQualified = code.isQualified := by
  funext position
  unfold isQualified
  rw [respell_followsPunctuation]

variable (kept : outline.KeptApart spell names)
  (spelled : ∀ position, code.isIdentifier position = true → code.text position ∈ names) {index : ProjectIndex}
  (answers : ∀ types name, index.member? (types.map spell) (spell name) = index.member? types name)

include kept spelled answers

private theorem respell_binding [outline.Registered] [outline.layout.Ordered] {position : Nat}
    (used : code.isReference outline position = true)
    (earlier : ∀ before, before < position →
      (code.respell spell).receiverAt (outline.respell spell) index before =
        (code.receiverAt outline index before).respell spell) :
    (code.respell spell).bindingAt (outline.respell spell) index position =
      code.bindingAt outline index position := by
  have identifier := (Bool.and_eq_true_iff.mp used).1
  have known := spelled position identifier
  conv_lhs => rw [bindingAt]
  conv_rhs => rw [bindingAt]
  rw [Outline.respell_isPathWord, respell_usageAt, respell_isQualified, Outline.respell_home,
    code.respell_text_of_isIdentifier spell identifier]
  split
  · rfl
  · dsimp only
    split
    · rw [earlier (position - 2) (by omega), kept.bindMember known answers]
    · rw [kept.bindBareName known answers]

omit spelled answers in
private theorem respell_sideBySide [outline.Registered] [outline.layout.Ordered] :
    SideBySide code (code.respell spell) outline (outline.respell spell) spell where
  keyword := code.respell_isKeyword spell
  punctuation := code.respell_isPunctuation spell
  partner := code.respell_partner? spell
  reference := respell_isReference
  type position := by rw [Outline.respell_home, Outline.respell_enclosingType?]
  supertypes := outline.respell_supertypesOf spell
  ofName := kept.receiverOfName
  ofCall := kept.receiverOfCall

/-- A use in respelled code is looked up where it was and denotes what it denoted. -/
theorem respell_bindingAt [outline.Registered] [outline.layout.Ordered] {position : Nat}
    (used : code.isReference outline position = true) :
    (code.respell spell).bindingAt (outline.respell spell) index position =
      code.bindingAt outline index position := by
  refine ((respell_sideBySide kept).run index index (fun found again => again = found) ?_ ?_
    position).1 used
  · rintro found again rfl
    rfl
  · intro word usedThere earlier
    exact respell_binding kept spelled answers usedThere earlier

/-- The uses of names in respelled code are the uses there were, each under its respelled name. -/
theorem respell_references [outline.Registered] [outline.layout.Ordered] :
    (code.respell spell).references (outline.respell spell) index =
      (code.references outline index).map (Reference.respell spell) := by
  have each : (code.respell spell).referenceAt? (outline.respell spell) index = fun position =>
      (code.referenceAt? outline index position).map (Reference.respell spell) := by
    funext position
    unfold referenceAt?
    rw [respell_isReference, respell_usageAt, Outline.respell_home]
    split
    · rename_i used
      have identifier := (Bool.and_eq_true_iff.mp used).1
      rw [respell_bindingAt kept spelled answers used, code.respell_text_of_isIdentifier spell identifier]
      rfl
    · rfl
  unfold references
  rw [respell_size, each, List.map_toArray, List.map_filterMap]

end Code

end ScopedRename
