import ScopedRename.Proofs.Binding.Replay
import ScopedRename.Proofs.Outline.Respelling

/-!
The outline of code in which some words, none of them naming a type, got a name that nothing had. It differs from the
outline before in the names of what those words declare, and in the types that were read off one of them although it
names no type: the type in front of a declared name, and the type that an anonymous body extends.
-/

namespace ScopedRename

def restore (newName oldName text : String) : String := if text = newName then oldName else text

theorem restore_of_ne {newName oldName text : String} (other : text ≠ newName) :
    restore newName oldName text = text := if_neg other

theorem restore_keepsTypeKeywords {newName oldName : String} (newFree : isTypeKeyword newName = false)
    (oldFree : isTypeKeyword oldName = false) : KeepsTypeKeywords (restore newName oldName) where
  fixes text keyword := by
    apply restore_of_ne
    rintro rfl
    rw [newFree] at keyword
    cases keyword
  reflects text := by
    unfold restore
    split
    · rename_i same
      rw [same, newFree, oldFree]
    · rfl

/-- The second code is the first with the words at the sites, none of which names a type, spelled with a name that
nothing had. -/
structure Code.Replaces (code rewritten : Code) (site : Nat → Prop) (oldName newName : String) : Prop where
  keeps : KeepsTypeKeywords (restore newName oldName)
  restored : rewritten.respell (restore newName oldName) = code.respell id
  identifiers : ∀ position, site position → code.isIdentifier position = true
  replaced : ∀ position, site position → rewritten.text position = newName
  kept : ∀ position, ¬ site position → rewritten.text position = code.text position
  fresh : ∀ position, code.text position ≠ newName
  untyped : ∀ position, site position → ¬ (Outline.ofCode code).NamesType position

/-- A type is read off the word: it is the type of a declaration, in front of its name, or the type that an anonymous
body extends. -/
def Outline.ReadsType (outline : Outline) (code : Code) (word : Nat) : Prop :=
  (∃ declaration ∈ outline.declarations, declaration.declaredType.isSome = true ∧
    (code.typeBefore? declaration.position).bind (·.simple) = some word) ∨
  ∃ scope ∈ outline.scopes, scope.kind = .type ∧ scope.name = none ∧
    (scope.extent.bind fun extent => code.createdName? extent.first) = some word

instance (outline : Outline) (code : Code) (word : Nat) : Decidable (outline.ReadsType code word) :=
  inferInstanceAs (Decidable ((∃ declaration ∈ outline.declarations, _) ∨ ∃ scope ∈ outline.scopes, _))

namespace Code.Replaces

variable {code rewritten : Code} {site : Nat → Prop} {oldName newName : String}
  (replaces : Replaces code rewritten site oldName newName)

include replaces

theorem text_eq_iff {position : Nat} : rewritten.text position = newName ↔ site position := by
  constructor
  · intro same
    by_contra unnamed
    rw [replaces.kept position unnamed] at same
    exact replaces.fresh position same
  · exact replaces.replaced position

theorem typeBefore? : rewritten.typeBefore? = code.typeBefore? :=
  Code.eq_of_respell Code.typeBefore? Code.respell_typeBefore? replaces.restored

theorem createdName? : rewritten.createdName? = code.createdName? :=
  Code.eq_of_respell Code.createdName? (fun _ _ => Code.respell_createdName?) replaces.restored

theorem isIdentifier : rewritten.isIdentifier = code.isIdentifier :=
  Code.eq_of_respell Code.isIdentifier Code.respell_isIdentifier replaces.restored

theorem ofCode : (Outline.ofCode rewritten).respell (restore newName oldName) = (Outline.ofCode code).respell id := by
  have image : Outline.ofCode (code.respell id) = (Outline.ofCode code).respell id :=
    Outline.respell_ofCode KeepsTypeKeywords.id fun _ _ _ _ same => same
  rw [← Outline.respell_ofCode replaces.keeps, replaces.restored, image]
  intro left right leftNames rightNames same
  rw [replaces.restored, image, Outline.respell_namesType] at leftNames rightNames
  have leftOther : ¬ site left := fun chosen => replaces.untyped left chosen leftNames
  have rightOther : ¬ site right := fun chosen => replaces.untyped right chosen rightNames
  rw [restore_of_ne (mt replaces.text_eq_iff.mp leftOther), restore_of_ne (mt replaces.text_eq_iff.mp rightOther)] at same
  exact same

theorem namesType {word : Nat} : (Outline.ofCode rewritten).NamesType word ↔ (Outline.ofCode code).NamesType word := by
  rw [← Outline.respell_namesType, replaces.ofCode, Outline.respell_namesType]

theorem declarations :
    (Outline.ofCode rewritten).declarations.map (Declaration.respell (restore newName oldName)) =
      (Outline.ofCode code).declarations :=
  (congrArg Outline.declarations replaces.ofCode).trans (map_declaration_respell_id _)

theorem scopes :
    (Outline.ofCode rewritten).scopes.map (Scope.respell (restore newName oldName)) = (Outline.ofCode code).scopes :=
  (congrArg Outline.scopes replaces.ofCode).trans (map_scope_respell_id _)

theorem ne_of_namesType {word : Nat} (names : (Outline.ofCode rewritten).NamesType word) :
    rewritten.text word ≠ newName := by
  intro same
  exact replaces.untyped word (replaces.text_eq_iff.mp same) (replaces.namesType.mp names)

theorem ne_of_spellsTypeKeyword {word : Nat} (keyword : rewritten.spellsTypeKeyword word = true) :
    rewritten.text word ≠ newName := by
  intro same
  have identifier := replaces.identifiers word (replaces.text_eq_iff.mp same)
  rw [← replaces.isIdentifier, rewritten.isIdentifier_of_spellsTypeKeyword keyword] at identifier
  cases identifier

theorem declaration_before {declaration : Declaration}
    (member : declaration ∈ (Outline.ofCode rewritten).declarations) :
    declaration.respell (restore newName oldName) ∈ (Outline.ofCode code).declarations := by
  rw [← replaces.declarations]
  exact Array.mem_map_of_mem member

section Unread

variable (unread : ∀ word, site word → ¬ (Outline.ofCode code).ReadsType code word)

include unread

theorem declaredType_ne {declaration : Declaration} (member : declaration ∈ (Outline.ofCode rewritten).declarations)
    {type : DeclaredType} (declared : declaration.declaredType = some type) : type.base ≠ newName := by
  rcases (Walk.run_spelled rewritten).typed declaration member type declared with ⟨run, before, base⟩ | ⟨_, spelling⟩
  · rw [base]
    obtain ⟨_, keyword⟩ := rewritten.typeBefore?_simple before
    cases simple : run.simple with
    | none => exact replaces.ne_of_spellsTypeKeyword (keyword simple)
    | some word =>
        intro same
        refine unread word (replaces.text_eq_iff.mp same) (Or.inl ⟨_, replaces.declaration_before member, ?_, ?_⟩)
        · simp [Declaration.respell, declared]
        · rw [← replaces.typeBefore?]
          exact Option.bind_eq_some_iff.mpr ⟨run, before, simple⟩
  · obtain ⟨word, text, names | keyword⟩ := spelling
    · rw [text]
      exact replaces.ne_of_namesType names
    · rw [text]
      exact replaces.ne_of_spellsTypeKeyword keyword

theorem supertype_ne {scope : Scope} (member : scope ∈ (Outline.ofCode rewritten).scopes) {base : String}
    (listed : base ∈ scope.supertypes) : base ≠ newName := by
  rcases (Walk.run_spelled rewritten).inherited scope member base listed with
    ⟨word, text, names⟩ | ⟨extent, covers, kind, name, created⟩
  · rw [text]
    exact replaces.ne_of_namesType names
  · rw [Code.anonymousSupertype?_eq] at created
    obtain ⟨word, found, text⟩ := Option.map_eq_some_iff.mp created
    intro same
    have before : scope.respell (restore newName oldName) ∈ (Outline.ofCode code).scopes := by
      rw [← replaces.scopes]
      exact Array.mem_map_of_mem member
    refine unread word (replaces.text_eq_iff.mp (text.trans same)) (Or.inr ⟨_, before, kind, ?_, ?_⟩)
    · simp [Scope.respell, name]
    · rw [← replaces.createdName?]
      exact Option.bind_eq_some_iff.mpr ⟨extent, covers, found⟩

theorem declaredType_restored {declaration : Declaration}
    (member : declaration ∈ (Outline.ofCode rewritten).declarations) :
    declaration.declaredType.map (DeclaredType.respell (restore newName oldName)) = declaration.declaredType := by
  cases declared : declaration.declaredType with
  | none => rfl
  | some type =>
      have other := replaces.declaredType_ne unread member declared
      rw [Option.map_some, DeclaredType.respell, restore_of_ne other]

theorem scopes_unnamed :
    (Outline.ofCode rewritten).scopes.map Scope.unnamed = (Outline.ofCode code).scopes.map Scope.unnamed := by
  rw [← replaces.scopes, Array.map_map]
  apply Array.map_congr_left
  intro scope member
  have supertypes : scope.supertypes.map (restore newName oldName) = scope.supertypes := by
    rw [List.map_congr_left fun base listed => restore_of_ne (replaces.supertype_ne unread member listed), List.map_id']
  simp only [Function.comp, Scope.unnamed, Scope.respell, supertypes]

/-- If no type is read off a site, the outline after is the outline before with the target renamed. -/
theorem renames [code.layout.Ordered] [rewritten.layout.Ordered] {target : DeclarationId} {renamed : Declaration}
    (found : (Outline.ofCode code).declaration? target = some renamed) (noType : renamed.kind ≠ .type)
    (sole : ∀ id declaration, (Outline.ofCode code).declaration? id = some declaration →
      (site declaration.position ↔ target = id)) :
    (Outline.ofCode code).Renames (Outline.ofCode rewritten) target renamed newName where
  scopes := replaces.scopes_unnamed unread
  homes position := by rw [← Outline.respell_homeAt?, replaces.ofCode, Outline.respell_homeAt?]
  typeWords position := by rw [← Outline.respell_isTypeWord, replaces.ofCode, Outline.respell_isTypeWord]
  pathWords position := by rw [← Outline.respell_isPathWord, replaces.ofCode, Outline.respell_isPathWord]
  found := found
  former := inferInstance
  registered := inferInstance
  formerOrdered := inferInstance
  ordered := inferInstance
  noType := noType
  fresh id declaration declared := by
    rw [(Walk.ofCode_named code declaration (Array.mem_of_getElem? declared)).2]
    exact replaces.fresh declaration.position
  declarations := by
    apply Array.ext_getElem?
    intro id
    change _ = ((Outline.ofCode code).withName target newName).declaration? id
    have before : (Outline.ofCode code).declaration? id =
        ((Outline.ofCode rewritten).declarations[id]?).map (Declaration.respell (restore newName oldName)) := by
      unfold Outline.declaration?
      rw [← replaces.declarations, Array.getElem?_map]
    rw [Outline.withName_declaration?]
    cases declared : (Outline.ofCode rewritten).declarations[id]? with
    | none =>
        rw [declared, Option.map_none] at before
        rw [before]
        split
        · rfl
        · rfl
    | some declaration =>
        rw [declared, Option.map_some] at before
        rw [before]
        have member := Array.mem_of_getElem? declared
        have named := (Walk.ofCode_named rewritten declaration member).2
        have typed := replaces.declaredType_restored unread member
        by_cases same : target = id
        · have chosen := (sole id _ before).mpr same
          have new : declaration.name = newName := named.trans (replaces.replaced _ chosen)
          rw [if_pos same, Option.map_some, Declaration.respell, typed, ← new]
        · have unchosen : ¬ site declaration.position := mt (sole id _ before).mp same
          have other : declaration.name ≠ newName := named ▸ mt replaces.text_eq_iff.mp unchosen
          rw [if_neg same, Declaration.respell, typed, restore_of_ne other]

end Unread

/-- The old name is read again where the new one was put. -/
theorem old_ne_new {word : Nat} (chosen : site word) : oldName ≠ newName := by
  have identifier := replaces.identifiers word chosen
  have same : (rewritten.respell (restore newName oldName)).text word = (code.respell id).text word := by
    rw [replaces.restored]
  rw [code.respell_text_of_isIdentifier _ identifier,
    rewritten.respell_text_of_isIdentifier _ (replaces.isIdentifier ▸ identifier), replaces.replaced word chosen, restore,
    if_pos rfl] at same
  exact same ▸ replaces.fresh word

theorem declaredType_new {declaration : Declaration} {word : Nat} (chosen : site word)
    (member : declaration ∈ (Outline.ofCode rewritten).declarations) {type : DeclaredType}
    (declared : declaration.declaredType = some type) {run : TypeRun}
    (before : code.typeBefore? declaration.position = some run) (simple : run.simple = some word) :
    type.base = newName := by
  rw [← replaces.typeBefore?] at before
  rcases (Walk.run_spelled rewritten).typed declaration member type declared with ⟨other, again, base⟩ | ⟨bare, _⟩
  · have same : other = run := Option.some.inj (again.symm.trans before)
    rw [base, same, simple]
    exact replaces.replaced word chosen
  · rw [bare] at before
    cases before

theorem supertypes_new {scope : Scope} {word : Nat} (chosen : site word)
    (member : scope ∈ (Outline.ofCode rewritten).scopes) (kind : scope.kind = .type) (name : scope.name = none)
    {extent : Extent} (covers : scope.extent = some extent) (created : code.createdName? extent.first = some word) :
    scope.supertypes = [newName] := by
  refine (Walk.run_spelled rewritten).created scope member extent covers newName ⟨kind, name, ?_⟩
  rw [Code.anonymousSupertype?_eq, replaces.createdName?, created, Option.map_some, replaces.replaced word chosen]

/-- A type that was read off a site is another one after the replacement. -/
theorem unread_of_same {target : DeclarationId}
    (scopes : (Outline.ofCode rewritten).scopes.map Scope.unnamed = (Outline.ofCode code).scopes.map Scope.unnamed)
    (declarations : (Outline.ofCode rewritten).declarations =
      ((Outline.ofCode code).withName target newName).declarations) (word : Nat) (chosen : site word) :
    ¬ (Outline.ofCode code).ReadsType code word := by
  have different := replaces.old_ne_new chosen
  have restored : restore newName oldName newName = oldName := if_pos rfl
  rintro (⟨declaration, member, typed, written⟩ | ⟨scope, member, kind, name, opened⟩)
  · obtain ⟨run, before, simple⟩ := Option.bind_eq_some_iff.mp written
    obtain ⟨id, found⟩ := Array.mem_iff_getElem?.mp member
    have again := found
    rw [← replaces.declarations, Array.getElem?_map] at again
    obtain ⟨after, foundAfter, same⟩ := Option.map_eq_some_iff.mp again
    have unchanged : after.declaredType = declaration.declaredType := by
      have renamed := Outline.withName_declaration? (Outline.ofCode code) target id newName
      unfold Outline.declaration? at renamed
      rw [← declarations, foundAfter, found] at renamed
      split at renamed
      · rw [Option.some.inj renamed]
      · rw [Option.some.inj renamed]
    obtain ⟨type, declared⟩ := Option.isSome_iff_exists.mp typed
    rw [← same] at before
    have base := replaces.declaredType_new chosen (Array.mem_of_getElem? foundAfter) (unchanged.trans declared) before
      simple
    have respelled : some type = some (type.respell (restore newName oldName)) := by
      rw [← declared, ← same]
      simp only [Declaration.respell, unchanged.trans declared, Option.map_some]
    have bases := congrArg DeclaredType.base (Option.some.inj respelled)
    rw [DeclaredType.respell, base, restored] at bases
    exact different bases.symm
  · obtain ⟨extent, covers, created⟩ := Option.bind_eq_some_iff.mp opened
    obtain ⟨id, found⟩ := Array.mem_iff_getElem?.mp member
    have again := found
    rw [← replaces.scopes, Array.getElem?_map] at again
    obtain ⟨after, foundAfter, same⟩ := Option.map_eq_some_iff.mp again
    have unchanged : after.supertypes = scope.supertypes := by
      have both := congrArg (·[id]?) scopes
      simp only [Array.getElem?_map, foundAfter, found, Option.map_some, Option.some.injEq] at both
      have supertypes := congrArg Scope.supertypes both
      exact supertypes
    have unnamed : after.name = none := by
      rw [← same] at name
      exact Option.map_eq_none_iff.mp name
    rw [← same] at kind covers
    have supertypes := replaces.supertypes_new chosen (Array.mem_of_getElem? foundAfter) kind unnamed covers created
    rw [← same, Scope.respell, supertypes, List.map_singleton, restored] at unchanged
    exact different (List.singleton_inj.mp unchanged).symm

end Code.Replaces

end ScopedRename
