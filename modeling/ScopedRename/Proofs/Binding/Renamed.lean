import ScopedRename.Proofs.Binding.Candidates

/-!
An outline with one declaration renamed: what its levels show, and when a lookup finds there what it found before.
-/

namespace ScopedRename.Outline

def withName (outline : Outline) (target : DeclarationId) (name : String) : Outline :=
  let declarations := outline.declarations.modify target fun declaration => { declaration with name }
  { outline with declarations, symbols := .ofEntries (declarations.toList.map Declaration.entry) }

variable {outline : Outline} {target : DeclarationId} {newName : String}

theorem withName_declaration? (outline : Outline) (target id : DeclarationId) (newName : String) :
    (outline.withName target newName).declaration? id =
      if target = id then (outline.declaration? id).map fun declaration => { declaration with name := newName }
      else outline.declaration? id := by
  unfold declaration? withName
  exact Array.getElem?_modify

instance withName_registered [registered : outline.Registered] : (outline.withName target newName).Registered where
  scopeId := registered.scopeId
  declarationId id declaration found := by
    rw [withName_declaration?] at found
    split at found
    · obtain ⟨former, declared, rfl⟩ := Option.map_eq_some_iff.mp found
      exact registered.declarationId id former declared
    · exact registered.declarationId id declaration found
  children := registered.children
  symbols := rfl
  named := by
    unfold withName
    rw [registered.named]
    refine congrArg List.reverse (List.ext_getElem? fun place => ?_)
    rw [List.getElem?_map, List.getElem?_map, Array.getElem?_toList, Array.getElem?_toList, Array.getElem?_modify]
    split
    · rw [Option.map_map]
      rfl
    · rfl
  homes := registered.homes

theorem withName_isVisible (outline : Outline) (target id : DeclarationId) (newName : String)
    (offset : Option Nat) :
    (outline.withName target newName).isVisible id offset = outline.isVisible id offset := by
  unfold isVisible
  cases offset with
  | none => rfl
  | some offset =>
      have starts : (outline.withName target newName).startOf = outline.startOf := rfl
      simp only [starts]
      rw [withName_declaration?]
      by_cases same : target = id
      · rw [if_pos same, Option.any_map]
      · rw [if_neg same]

theorem withName_ancestors (outline : Outline) (target : DeclarationId) (newName : String) (scope : ScopeId) :
    (outline.withName target newName).ancestors scope = outline.ancestors scope := by
  have parents : (outline.withName target newName).parent? = outline.parent? := rfl
  rw [ancestors_of_parent? parents]

theorem mem_visibleIn [outline.Registered] {scope : ScopeId} {name : String} {space : NameSpace} {offset : Option Nat}
    {id : DeclarationId} :
    id ∈ outline.visibleIn scope name space offset ↔
      (∃ declaration, outline.declaration? id = some declaration ∧ declaration.scope = scope ∧
        declaration.name = name ∧ declaration.kind.space = space) ∧ outline.isVisible id offset = true := by
  unfold visibleIn
  rw [List.mem_filter, mem_declaredIn]

theorem mem_visibleIn_withName_of_ne [outline.Registered] {scope : ScopeId} {name : String} {space : NameSpace}
    {offset : Option Nat}
    {id : DeclarationId} (other : target ≠ id) :
    id ∈ (outline.withName target newName).visibleIn scope name space offset ↔
      id ∈ outline.visibleIn scope name space offset := by
  rw [mem_visibleIn, mem_visibleIn, withName_declaration?, if_neg other, withName_isVisible]

theorem target_mem_visibleIn_withName [outline.Registered] {renamed : Declaration}
    (found : outline.declaration? target = some renamed)
    {scope : ScopeId} {name : String} {space : NameSpace} {offset : Option Nat} :
    target ∈ (outline.withName target newName).visibleIn scope name space offset ↔
      (renamed.scope = scope ∧ newName = name ∧ renamed.kind.space = space) ∧
        outline.isVisible target offset = true := by
  rw [mem_visibleIn, withName_declaration?, if_pos rfl, withName_isVisible, found]
  simp

/-- The declarations a level shows are listed by number, so they are determined by which they are. -/
theorem visibleIn_eq_of_mem {left right : Outline} [left.Registered] [right.Registered]
    (size : left.declarations.size = right.declarations.size)
    {scope : ScopeId} {name : String} {space : NameSpace} {offset : Option Nat}
    (same : ∀ id, id ∈ left.visibleIn scope name space offset ↔ id ∈ right.visibleIn scope name space offset) :
    left.visibleIn scope name space offset = right.visibleIn scope name space offset := by
  simp only [visibleIn, declaredIn_eq, declarationIds, size, List.filter_filter, List.mem_filter] at same ⊢
  apply List.filter_congr
  intro id member
  apply Bool.eq_iff_iff.mpr
  constructor
  · intro shown
    exact ((same id).mp ⟨member, shown⟩).2
  · intro shown
    exact ((same id).mpr ⟨member, shown⟩).2

theorem withName_visibleIn [outline.Registered] {scope : ScopeId} {name : String} {space : NameSpace}
    {offset : Option Nat}
    (lost : target ∉ outline.visibleIn scope name space offset)
    (gained : target ∉ (outline.withName target newName).visibleIn scope name space offset) :
    (outline.withName target newName).visibleIn scope name space offset =
      outline.visibleIn scope name space offset := by
  apply visibleIn_eq_of_mem
  · exact Array.size_modify
  · intro id
    by_cases same : target = id
    · rw [← same]
      exact iff_of_false gained lost
    · exact mem_visibleIn_withName_of_ne same

/-- A level that shows nothing under the new name shows the target there once it is renamed. -/
theorem withName_visibleIn_target [outline.Registered] {renamed : Declaration}
    (found : outline.declaration? target = some renamed)
    {offset : Option Nat} (empty : outline.visibleIn renamed.scope newName renamed.kind.space offset = [])
    (visible : outline.isVisible target offset = true) :
    (outline.withName target newName).visibleIn renamed.scope newName renamed.kind.space offset = [target] := by
  have members : ∀ id,
      id ∈ (outline.withName target newName).visibleIn renamed.scope newName renamed.kind.space offset ↔
      id = target := by
    intro id
    by_cases same : target = id
    · rw [← same, target_mem_visibleIn_withName found]
      exact iff_of_true ⟨⟨rfl, rfl, rfl⟩, visible⟩ rfl
    · rw [mem_visibleIn_withName_of_ne same, empty]
      exact iff_of_false List.not_mem_nil (Ne.symm same)
  have distinct :
      ((outline.withName target newName).visibleIn renamed.scope newName renamed.kind.space offset).Nodup := by
    exact (declaredIn_nodup _ _ _ _).filter _
  exact List.perm_singleton.mp ((List.perm_ext_iff_of_nodup distinct (List.pairwise_singleton _ target)).mpr
    fun id => (members id).trans List.mem_singleton.symm)

/-- A lookup depends only on what the levels up to its hit show. -/
theorem lookup_withName_eq {scope : ScopeId} {name : String} {space : NameSpace} {offset : Option Nat}
    (same : ∀ outer ∈ outline.ancestors scope,
      (outline.withName target newName).visibleIn outer name space offset = outline.visibleIn outer name space offset ∨
      ∃ hit found, outline.lookup scope name space offset = some (hit, found) ∧ outer < hit) :
    (outline.withName target newName).lookup scope name space offset = outline.lookup scope name space offset := by
  cases looked : outline.lookup scope name space offset with
  | none =>
      rw [lookup_eq_none_iff, withName_ancestors]
      intro outer member
      rcases same outer member with equal | ⟨hit, found, impossible, _⟩
      · rw [equal]
        exact outline.lookup_eq_none_iff.mp looked outer member
      · rw [looked] at impossible
        cases impossible
  | some hit =>
      obtain ⟨stop, found⟩ := hit
      obtain ⟨inner, further, split, missed, shown, nonempty⟩ := outline.lookup_eq_some_iff.mp looked
      have ordered := outline.ancestors_pairwise scope
      rw [split] at ordered
      -- no level up to the hit lies outside it
      have upTo : ∀ outer ∈ inner ++ [stop],
          (outline.withName target newName).visibleIn outer name space offset =
            outline.visibleIn outer name space offset := by
        intro outer member
        have listed : outer ∈ outline.ancestors scope := by
          rw [split]
          rcases List.mem_append.mp member with before | here
          · exact List.mem_append_left _ before
          · rw [List.mem_singleton.mp here]
            exact List.mem_append_right _ List.mem_cons_self
        rcases same outer listed with equal | ⟨otherStop, otherFound, sameHit, outside⟩
        · exact equal
        · rw [looked] at sameHit
          cases sameHit
          rcases List.mem_append.mp member with before | here
          · have after := (List.pairwise_append.mp ordered).2.2 outer before stop List.mem_cons_self
            exact absurd outside (Nat.not_lt.mpr (Nat.le_of_lt after))
          · rw [List.mem_singleton.mp here] at outside
            exact absurd outside (Nat.lt_irrefl _)
      rw [lookup_eq_some_iff, withName_ancestors]
      refine ⟨inner, further, split, ?_, ?_, nonempty⟩
      · intro between member
        rw [upTo between (List.mem_append_left _ member)]
        exact missed between member
      · rw [upTo stop (List.mem_append_right _ List.mem_cons_self)]
        exact shown

/-- Where no scope up to the target's shows anything under the new name, that name leads to the renamed target. -/
theorem lookup_withName_of_empty [outline.Registered] {renamed : Declaration}
    (found : outline.declaration? target = some renamed)
    {scope : ScopeId} {offset : Option Nat} (around : renamed.scope ∈ outline.ancestors scope)
    (empty : ∀ between ∈ outline.ancestors scope, renamed.scope ≤ between →
      outline.visibleIn between newName renamed.kind.space offset = [])
    (seen : outline.isVisible target offset = true) :
    (outline.withName target newName).lookup scope newName renamed.kind.space offset =
      some (renamed.scope, [target]) := by
  obtain ⟨inner, further, split⟩ := List.append_of_mem around
  have ordered := outline.ancestors_pairwise scope
  rw [split] at ordered
  rw [lookup_eq_some_iff, withName_ancestors]
  refine ⟨inner, further, split, ?_, ?_, List.cons_ne_nil _ _⟩
  · intro between member
    have inside : renamed.scope < between :=
      (List.pairwise_append.mp ordered).2.2 between member _ List.mem_cons_self
    have before := empty between (split ▸ List.mem_append_left _ member) (Nat.le_of_lt inside)
    rw [withName_visibleIn, before]
    · rw [before]
      exact List.not_mem_nil
    · rw [target_mem_visibleIn_withName found]
      rintro ⟨⟨same, _⟩, _⟩
      exact Nat.ne_of_lt inside same
  · exact withName_visibleIn_target found (empty _ around (Nat.le_refl _)) seen

end ScopedRename.Outline
