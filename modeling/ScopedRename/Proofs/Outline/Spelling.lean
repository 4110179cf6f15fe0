import ScopedRename.Proofs.Outline.Change

/-!
Everything an outline records is spelled in the code. A declared name is the text of its word; the name of a type
scope, a declared type and a supertype are texts of words that name types, with two exceptions that the statements
name: the type in front of a declared name, and the type that an anonymous body creates.
-/

namespace ScopedRename

namespace Walk

variable {code : Code} {position limit : Nat} {walk after : Walk}

/-! ### What a change keeps -/

theorem Change.declarations_subset (change : Change code position limit walk after) :
    ∀ declaration ∈ walk.declarations, declaration ∈ after.declarations := by
  intro declaration member
  cases change with
  | assign => exact member
  | markTypes => exact member
  | markPath => exact member
  | declare => exact Array.mem_push_of_mem _ member
  | typeParameter => exact Array.mem_push_of_mem _ member
  | openScope => exact member
  | settle _ outline =>
      rw [show after.declarations = walk.declarations from congrArg Outline.declarations outline]
      exact member

/-- A word that names a type goes on naming one: a mark is only taken away from a word that declares a type. -/
theorem Change.namesType (change : Change code position limit walk after) {word : Nat}
    (names : walk.NamesType word) : after.NamesType word := by
  rcases names with marked | ⟨declaration, member, kind⟩
  · cases change with
    | assign => exact Or.inl marked
    | markTypes words => exact Or.inl ((walk.isTypeWord_markTypes code words word).mpr (Or.inl marked))
    | markPath => exact Or.inl marked
    | declare => exact Or.inl marked
    | typeParameter scope parameter =>
        by_cases same : parameter = word
        · exact Or.inr ⟨_, Array.mem_push_self, rfl, same⟩
        · refine Or.inl ?_
          rw [isTypeWord_unmarkType _ _ _ same]
          exact marked
    | openScope => exact Or.inl marked
    | settle _ outline =>
        refine Or.inl ?_
        rw [outline]
        exact marked
  · exact Or.inr ⟨declaration, change.declarations_subset declaration member, kind⟩

theorem Change.scopes_prefix (change : Change code position limit walk after) {scope : ScopeId} {entry : Scope}
    (found : walk.scope? scope = some entry) : after.scope? scope = some entry := by
  cases change with
  | assign => exact found
  | markTypes => exact found
  | markPath => exact found
  | declare => exact found
  | typeParameter => exact found
  | openScope =>
      obtain ⟨inside, here⟩ := Array.getElem?_eq_some_iff.mp found
      exact (Array.getElem?_push_lt inside).trans (congrArg some here)
  | settle _ outline =>
      rw [outline]
      exact found

theorem Changes.namesType (changes : Changes code position limit walk after) {word : Nat}
    (names : walk.NamesType word) : after.NamesType word := by
  induction changes with
  | refl => exact names
  | tail _ change ih => exact change.namesType ih

theorem TypeSpelling.change {base : String} (change : Change code position limit walk after)
    (spelling : TypeSpelling code walk.toOutline base) : TypeSpelling code after.toOutline base := by
  obtain ⟨word, spelled, names | keyword⟩ := spelling
  · exact ⟨word, spelled, Or.inl (change.namesType names)⟩
  · exact ⟨word, spelled, Or.inr keyword⟩

/-! ### Declared names -/

def Named (code : Code) (outline : Outline) : Prop :=
  ∀ declaration ∈ outline.declarations,
    code.isIdentifier declaration.position = true ∧ declaration.name = code.text declaration.position

theorem Change.named (change : Change code position limit walk after) (named : Named code walk.toOutline) :
    Named code after.toOutline := by
  have push {declaration : Declaration} (identifier : code.isIdentifier declaration.position = true)
      (spelled : declaration.name = code.text declaration.position) :
      ∀ other ∈ walk.declarations.push declaration,
        code.isIdentifier other.position = true ∧ other.name = code.text other.position := by
    intro other member
    rcases Array.mem_push.mp member with before | here
    · exact named other before
    · rw [here]
      exact ⟨identifier, spelled⟩
  cases change with
  | assign => exact named
  | markTypes => exact named
  | markPath => exact named
  | declare declaration identifier spelled => exact push identifier spelled
  | typeParameter scope parameter identifier => exact push identifier rfl
  | openScope => exact named
  | settle _ outline =>
      rw [outline]
      exact named

theorem Changes.named (changes : Changes code position limit walk after) (named : Named code walk.toOutline) :
    Named code after.toOutline := by
  induction changes with
  | refl => exact named
  | tail _ change ih => exact change.named ih

theorem ofCode_named (code : Code) : Named code (Outline.ofCode code) := by
  have stopped : ∃ _ : Nat, Named code (run code (Walk.start code.layout) 0).toOutline := by
    refine run_induction (fun _ walk => Named code walk.toOutline) ?_ _ _ ?_
    · intro walk position named changes
      exact changes.named named
    · intro declaration impossible
      exact absurd impossible (Array.not_mem_empty declaration)
  obtain ⟨_, named⟩ := stopped
  exact named

/-! ### Types and supertypes -/

/-- The texts a walk has recorded, with the words they were read from. A declared type is read off the type in front of
the name; where there is none, and for the names and supertypes of types, the text is that of a word that names a
type, but for anonymous types, which extend the type they create. -/
structure Spelled (code : Code) (walk : Walk) : Prop where
  typed : ∀ declaration ∈ walk.declarations, ∀ type, declaration.declaredType = some type →
    (∃ run, code.typeBefore? declaration.position = some run ∧
      type.base = code.text (run.simple.getD run.start)) ∨
    code.typeBefore? declaration.position = none ∧ TypeSpelling code walk.toOutline type.base
  named : ∀ scope ∈ walk.scopes, scope.kind = .type → ∀ text, scope.name = some text →
    ∃ declaration ∈ walk.declarations, declaration.kind = .type ∧ text = code.text declaration.position
  inherited : ∀ scope ∈ walk.scopes, ∀ base ∈ scope.supertypes,
    (∃ word, base = code.text word ∧ walk.NamesType word) ∨
      ∃ extent, scope.extent = some extent ∧ Creates code scope.kind scope.name extent.first base
  created : ∀ scope ∈ walk.scopes, ∀ extent, scope.extent = some extent → ∀ base,
    Creates code scope.kind scope.name extent.first base → scope.supertypes = [base]
  constants : ∀ frame ∈ walk.frames, frame.inConstants = true →
    ∃ entry, walk.scope? frame.scope = some entry ∧ entry.kind = .type
  progress : ∀ list type, walk.declarators = some list → list.declaredType = some type →
    TypeSpelling code walk.toOutline type.base

/-- The name of the enum whose constants are being read is spelled where the enum is declared. -/
theorem Spelled.constant_name (spelled : Spelled code walk) (inside : walk.frame.inConstants = true) {base : String}
    (named : walk.nameOfScope walk.frame.scope = some base) :
    ∃ word, base = code.text word ∧ walk.NamesType word := by
  have member : walk.frame ∈ walk.frames := by
    unfold frame at inside ⊢
    cases frames : walk.frames with
    | nil =>
        rw [frames] at inside
        cases inside
    | cons first outer => exact List.mem_cons_self
  obtain ⟨entry, found, kind⟩ := spelled.constants walk.frame member inside
  have entryName : entry.name = some base := by
    unfold nameOfScope at named
    rw [found] at named
    exact named
  obtain ⟨declaration, declared, isType, text⟩ :=
    spelled.named entry (Array.mem_of_getElem? found) kind base entryName
  exact ⟨declaration.position, text, Or.inr ⟨declaration, declared, isType, rfl⟩⟩

theorem Spelled.typeSource (spelled : Spelled code walk) {name : Nat} {base : String}
    (source : TypeSource code walk name base) :
    (∃ run, code.typeBefore? name = some run ∧ base = code.text (run.simple.getD run.start)) ∨
      code.typeBefore? name = none ∧ TypeSpelling code walk.toOutline base := by
  cases source with
  | written run before => exact Or.inl ⟨run, before, rfl⟩
  | constant _ bare inside named =>
      obtain ⟨word, text, names⟩ := spelled.constant_name inside named
      exact Or.inr ⟨bare, word, text, Or.inl names⟩
  | continued list type bare going declared => exact Or.inr ⟨bare, spelled.progress list type going declared⟩

/-- What a change that opens no scope leaves as it was. -/
private theorem Spelled.transfer (spelled : Spelled code walk) (change : Change code position limit walk after)
    (declarations : ∀ declaration ∈ after.declarations, declaration ∈ walk.declarations ∨
      ∀ type, declaration.declaredType = some type → TypeSource code walk declaration.position type.base)
    (scopes : after.scopes = walk.scopes)
    (frames : ∀ frame ∈ after.frames, ∃ former ∈ walk.frames,
      frame.scope = former.scope ∧ (frame.inConstants = true → former.inConstants = true))
    (progress : ∀ list type, after.declarators = some list → list.declaredType = some type →
      after.declarators = walk.declarators ∨ TypeSpelling code walk.toOutline type.base) :
    Spelled code after where
  typed declaration member type declared := by
    have source : (∃ run, code.typeBefore? declaration.position = some run ∧
        type.base = code.text (run.simple.getD run.start)) ∨
        code.typeBefore? declaration.position = none ∧ TypeSpelling code walk.toOutline type.base := by
      rcases declarations declaration member with before | recorded
      · exact spelled.typed declaration before type declared
      · exact spelled.typeSource (recorded type declared)
    rcases source with written | ⟨bare, spelling⟩
    · exact Or.inl written
    · exact Or.inr ⟨bare, spelling.change change⟩
  named scope member kind text name := by
    obtain ⟨declaration, declared, rest⟩ := spelled.named scope (scopes ▸ member) kind text name
    exact ⟨declaration, change.declarations_subset declaration declared, rest⟩
  inherited scope member base listed := by
    rcases spelled.inherited scope (scopes ▸ member) base listed with ⟨word, text, names⟩ | creates
    · exact Or.inl ⟨word, text, change.namesType names⟩
    · exact Or.inr creates
  created scope member := spelled.created scope (scopes ▸ member)
  constants frame member inside := by
    obtain ⟨former, formerMember, sameScope, wasInside⟩ := frames frame member
    obtain ⟨entry, found, kind⟩ := spelled.constants former formerMember (wasInside inside)
    exact ⟨entry, sameScope ▸ change.scopes_prefix found, kind⟩
  progress list type going declared := by
    rcases progress list type going declared with same | spelling
    · exact (spelled.progress list type (same ▸ going) declared).change change
    · exact spelling.change change

theorem Spelled.change (spelled : Spelled code walk) (change : Change code position limit walk after) :
    Spelled code after := by
  have sameFrames : ∀ frame ∈ walk.frames, ∃ former ∈ walk.frames,
      frame.scope = former.scope ∧ (frame.inConstants = true → former.inConstants = true) :=
    fun frame member => ⟨frame, member, rfl, id⟩
  have pushed {declaration : Declaration}
      (typed : ∀ type, declaration.declaredType = some type → TypeSource code walk declaration.position type.base) :
      ∀ other ∈ walk.declarations.push declaration, other ∈ walk.declarations ∨
        ∀ type, other.declaredType = some type → TypeSource code walk other.position type.base := by
    intro other member
    rcases Array.mem_push.mp member with before | here
    · exact Or.inl before
    · rw [here]
      exact Or.inr typed
  have kept := change
  cases change with
  | assign => exact spelled.transfer kept (fun _ => Or.inl) rfl sameFrames fun _ _ _ _ => Or.inl rfl
  | markTypes => exact spelled.transfer kept (fun _ => Or.inl) rfl sameFrames fun _ _ _ _ => Or.inl rfl
  | markPath => exact spelled.transfer kept (fun _ => Or.inl) rfl sameFrames fun _ _ _ _ => Or.inl rfl
  | declare declaration _ _ _ typed =>
      exact spelled.transfer kept (pushed typed) rfl sameFrames fun _ _ _ _ => Or.inl rfl
  | typeParameter scope parameter =>
      refine spelled.transfer kept (pushed ?_) rfl sameFrames fun _ _ _ _ => Or.inl rfl
      intro type impossible
      cases impossible
  | openScope kind name extent supertypes inConstants named constants inherits creates =>
      refine ⟨spelled.typed, ?_, ?_, ?_, ?_, spelled.progress⟩
      · intro scope member isType text scopeName
        rcases Array.mem_push.mp member with before | here
        · exact spelled.named scope before isType text scopeName
        · rw [here] at isType scopeName
          obtain ⟨declaration, declared, kind, spelledThere, _⟩ := named isType text scopeName
          exact ⟨declaration, declared, kind, spelledThere⟩
      · intro scope member base listed
        rcases Array.mem_push.mp member with before | here
        · exact spelled.inherited scope before base listed
        · rw [here] at listed ⊢
          cases inherits base listed with
          | typeWord word names => exact Or.inl ⟨word, rfl, names⟩
          | anonymous _ creates => exact Or.inr ⟨extent, rfl, creates⟩
          | constant _ inside constantName => exact Or.inl (spelled.constant_name inside constantName)
      · intro scope member opened same base created
        rcases Array.mem_push.mp member with before | here
        · exact spelled.created scope before opened same base created
        · rw [here] at same created ⊢
          cases same
          exact creates base created
      · intro frame member inside
        rcases List.mem_cons.mp member with here | outer
        · rw [here] at inside ⊢
          exact ⟨_, Array.getElem?_push_size, constants inside⟩
        · obtain ⟨entry, found, isType⟩ := spelled.constants frame outer inside
          exact ⟨entry, kept.scopes_prefix found, isType⟩
  | settle _ outline frames progress =>
      have declarations := congrArg Outline.declarations outline
      refine spelled.transfer kept ?_ (congrArg Outline.scopes outline) frames progress
      intro declaration member
      exact Or.inl (declarations ▸ member)

theorem Spelled.changes (spelled : Spelled code walk) (changes : Changes code position limit walk after) :
    Spelled code after := by
  induction changes with
  | refl => exact spelled
  | tail _ change ih => exact ih.change change

theorem Spelled.start (layout : Layout) : Spelled code (Walk.start layout) where
  typed declaration impossible := absurd impossible (Array.not_mem_empty declaration)
  named scope member kind := by
    rw [Array.mem_singleton.mp member] at kind
    cases kind
  inherited scope member base listed := by
    rw [Array.mem_singleton.mp member] at listed
    cases listed
  created scope member extent impossible := by
    rw [Array.mem_singleton.mp member] at impossible
    cases impossible
  constants frame impossible := by cases impossible
  progress list type impossible := by cases impossible

theorem run_spelled (code : Code) : Spelled code (run code (Walk.start code.layout) 0) := by
  have stopped : ∃ _ : Nat, Spelled code (run code (Walk.start code.layout) 0) := by
    refine run_induction (fun _ walk => Spelled code walk) ?_ _ _ (Spelled.start code.layout)
    intro walk position spelled changes
    exact spelled.changes changes
  obtain ⟨_, spelled⟩ := stopped
  exact spelled

end Walk

end ScopedRename
