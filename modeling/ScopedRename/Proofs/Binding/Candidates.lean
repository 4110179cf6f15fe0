import Mathlib.Data.List.Basic
import ScopedRename.Proofs.Outline.Registers
import ScopedRename.Reference.Binding

/-!
What a lookup finds: declarations of the name that was asked for, in the innermost scope that shows one. Whatever a
use may denote in this file is therefore spelled like the use, whichever way it was found.
-/

namespace ScopedRename

theorem Resolution.candidates_of_not_isBound {resolution : Resolution} (free : resolution.isBound = false) :
    resolution.candidates = [] := by
  cases resolution with
  | resolved declaration => cases free
  | ambiguous candidates => cases free
  | external declaration => rfl
  | unresolved => rfl

theorem Resolution.mem_candidates {resolution : Resolution} {id : DeclarationId}
    (member : id ∈ resolution.candidates) :
    resolution = .resolved id ∨ ∃ candidates, resolution = .ambiguous candidates ∧ id ∈ candidates := by
  cases resolution with
  | resolved declaration => exact Or.inl (by rw [List.mem_singleton.mp member])
  | ambiguous candidates => exact Or.inr ⟨candidates, rfl, member⟩
  | external declaration => cases member
  | unresolved => cases member

namespace DeclarationKind

theorem space_eq_type {kind : DeclarationKind} : kind.space = .type ↔ kind = .type := by
  cases kind <;> simp [space]

theorem space_eq_method {kind : DeclarationKind} : kind.space = .method ↔ kind = .method := by
  cases kind <;> simp [space]

end DeclarationKind

namespace Outline

variable (outline : Outline)

theorem mem_declarationIds {id : DeclarationId} : id ∈ outline.declarationIds ↔ (outline.declaration? id).isSome := by
  unfold declarationIds declaration?
  rw [List.mem_range, Option.isSome_iff_ne_none, ne_eq, Array.getElem?_eq_none_iff, Nat.not_le]

theorem declarationAt?_ne_none [outline.Registered] {id : DeclarationId} {declaration : Declaration} {position : Nat}
    (found : outline.declaration? id = some declaration) (here : declaration.position = position) :
    outline.declarationAt? position ≠ none := by
  intro undeclared
  rw [declarationAt?_eq, List.find?_eq_none] at undeclared
  have listed : id ∈ outline.declarationIds := outline.mem_declarationIds.mpr (found ▸ rfl)
  have nothing := undeclared id (List.mem_reverse.mpr listed)
  rw [found, Option.any_some, here] at nothing
  exact nothing (beq_self_eq_true _)

theorem mem_declaredIn [outline.Registered] {scope : ScopeId} {name : String} {space : NameSpace} {id : DeclarationId} :
    id ∈ outline.declaredIn scope name space ↔
      ∃ declaration, outline.declaration? id = some declaration ∧ declaration.scope = scope ∧
        declaration.name = name ∧ declaration.kind.space = space := by
  rw [declaredIn_eq, List.mem_filter, mem_declarationIds]
  cases outline.declaration? id with
  | none => simp
  | some declaration => simp [and_assoc]

/-- A word shows the declarations that are visible from where it starts. -/
theorem isVisible_startOf [outline.layout.Ordered] (id : DeclarationId) (position : Nat) :
    outline.isVisible id (some (outline.startOf position)) =
      (outline.declaration? id).any fun declaration =>
        declaration.kind != .localVariable || declaration.position ≤ position := by
  unfold isVisible startOf
  simp only [Layout.start_le_start]

/-! ### Scopes around a scope -/

/-- The scopes around a scope are read off the parents alone. -/
theorem ancestors_of_parent? {left right : Outline} (parents : left.parent? = right.parent?) :
    left.ancestors = right.ancestors := by
  funext scope
  induction scope using Nat.strongRecOn with
  | ind scope smaller =>
      rw [ancestors, ancestors, parents]
      cases right.parent? scope with
      | none => rfl
      | some parent =>
          dsimp only
          split
          · rename_i before
            rw [smaller parent before]
          · rfl

theorem self_mem_ancestors (scope : ScopeId) : scope ∈ outline.ancestors scope := by
  fun_cases outline.ancestors scope with
  | case1 => exact List.mem_cons_self
  | case2 => exact List.mem_cons_self
  | case3 => exact List.mem_cons_self

theorem le_of_mem_ancestors {scope outer : ScopeId} (member : outer ∈ outline.ancestors scope) : outer ≤ scope := by
  fun_induction outline.ancestors scope with
  | case1 scope parent _ before ih =>
      rcases List.mem_cons.mp member with here | further
      · exact Nat.le_of_eq here
      · exact Nat.le_trans (ih further) (Nat.le_of_lt before)
  | case2 scope parent _ _ => exact Nat.le_of_eq (List.mem_singleton.mp member)
  | case3 scope _ => exact Nat.le_of_eq (List.mem_singleton.mp member)

theorem ancestors_pairwise (scope : ScopeId) : (outline.ancestors scope).Pairwise (· > ·) := by
  fun_induction outline.ancestors scope with
  | case1 scope parent _ before ih =>
      refine List.pairwise_cons.mpr ⟨?_, ih⟩
      intro outer member
      exact Nat.lt_of_le_of_lt (outline.le_of_mem_ancestors member) before
  | case2 => exact List.pairwise_singleton _ _
  | case3 => exact List.pairwise_singleton _ _

/-- The scopes around one of the scopes around a scope come last among these. -/
theorem ancestors_eq_append {scope outer : ScopeId} (member : outer ∈ outline.ancestors scope) :
    ∃ inner, outline.ancestors scope = inner ++ outline.ancestors outer ∧ ∀ between ∈ inner, outer < between := by
  induction scope using Nat.strongRecOn with
  | ind scope smaller =>
      by_cases same : outer = scope
      · rw [same]
        exact ⟨[], rfl, fun between impossible => absurd impossible List.not_mem_nil⟩
      · rw [ancestors] at member ⊢
        split at member
        · rename_i parent _
          split at member
          · rename_i before
            rcases List.mem_cons.mp member with here | further
            · exact absurd here same
            · obtain ⟨inner, split, inside⟩ := smaller parent before further
              refine ⟨scope :: inner, ?_, ?_⟩
              · rw [if_pos before, split, List.cons_append]
              · intro between listed
                rcases List.mem_cons.mp listed with first | rest
                · rw [first]
                  exact Nat.lt_of_le_of_lt (outline.le_of_mem_ancestors further) before
                · exact inside between rest
          · exact absurd (List.mem_singleton.mp member) same
        · exact absurd (List.mem_singleton.mp member) same

theorem mem_ancestors_of_le {scope inner outer : ScopeId} (innerMember : inner ∈ outline.ancestors scope)
    (outerMember : outer ∈ outline.ancestors scope) (ordered : outer ≤ inner) : outer ∈ outline.ancestors inner := by
  obtain ⟨before, split, inside⟩ := outline.ancestors_eq_append innerMember
  rw [split] at outerMember
  rcases List.mem_append.mp outerMember with earlier | here
  · exact absurd (inside outer earlier) (Nat.not_lt.mpr ordered)
  · exact here

/-! ### Lookups -/

def visibleIn (scope : ScopeId) (name : String) (space : NameSpace) (offset : Option Nat) : List DeclarationId :=
  (outline.declaredIn scope name space).filter (outline.isVisible · offset)

theorem visibleIn_none (scope : ScopeId) (name : String) (space : NameSpace) :
    outline.visibleIn scope name space none = outline.declaredIn scope name space :=
  List.filter_eq_self.mpr fun _ _ => rfl

private def level (name : String) (space : NameSpace) (offset : Option Nat) (outer : ScopeId) :
    Option (ScopeId × List DeclarationId) :=
  match outline.visibleIn outer name space offset with
  | [] => none
  | found => some (outer, found)

private theorem level_eq_none {name : String} {space : NameSpace} {offset : Option Nat} {outer : ScopeId} :
    outline.level name space offset outer = none ↔ outline.visibleIn outer name space offset = [] := by
  unfold level
  cases outline.visibleIn outer name space offset with
  | nil => simp
  | cons first rest => simp

private theorem level_eq_some {name : String} {space : NameSpace} {offset : Option Nat} {outer scope : ScopeId}
    {found : List DeclarationId} :
    outline.level name space offset outer = some (scope, found) ↔
      outer = scope ∧ outline.visibleIn outer name space offset = found ∧ found ≠ [] := by
  unfold level
  cases outline.visibleIn outer name space offset with
  | nil => simp
  | cons first rest =>
      simp only [Option.some.injEq, Prod.mk.injEq]
      constructor
      · rintro ⟨sameScope, same⟩
        exact ⟨sameScope, same, same ▸ List.cons_ne_nil first rest⟩
      · rintro ⟨sameScope, same, _⟩
        exact ⟨sameScope, same⟩

theorem lookup_eq_none_iff {scope : ScopeId} {name : String} {space : NameSpace} {offset : Option Nat} :
    outline.lookup scope name space offset = none ↔
      ∀ outer ∈ outline.ancestors scope, outline.visibleIn outer name space offset = [] := by
  have levels : outline.lookup scope name space offset =
      (outline.ancestors scope).findSome? (outline.level name space offset) := rfl
  rw [levels, List.findSome?_eq_none_iff]
  exact forall₂_congr fun _ _ => outline.level_eq_none

/-- A lookup stops at the first scope that shows the name. -/
theorem lookup_eq_some_iff {scope outer : ScopeId} {name : String} {space : NameSpace} {offset : Option Nat}
    {found : List DeclarationId} :
    outline.lookup scope name space offset = some (outer, found) ↔
      ∃ inner further, outline.ancestors scope = inner ++ outer :: further ∧
        (∀ between ∈ inner, outline.visibleIn between name space offset = []) ∧
        outline.visibleIn outer name space offset = found ∧ found ≠ [] := by
  have levels : outline.lookup scope name space offset =
      (outline.ancestors scope).findSome? (outline.level name space offset) := rfl
  rw [levels, List.findSome?_eq_some_iff]
  constructor
  · rintro ⟨inner, shown, further, split, hit, missed⟩
    obtain ⟨same, visible, nonempty⟩ := outline.level_eq_some.mp hit
    rw [same] at split visible
    exact ⟨inner, further, split, fun between member => outline.level_eq_none.mp (missed between member), visible,
      nonempty⟩
  · rintro ⟨inner, further, split, missed, visible, nonempty⟩
    exact ⟨inner, outer, further, split, outline.level_eq_some.mpr ⟨rfl, visible, nonempty⟩,
      fun between member => outline.level_eq_none.mpr (missed between member)⟩

theorem mem_ancestors_of_lookup {scope hit : ScopeId} {name : String} {space : NameSpace} {offset : Option Nat}
    {found : List DeclarationId} (looked : outline.lookup scope name space offset = some (hit, found)) :
    hit ∈ outline.ancestors scope := by
  obtain ⟨inner, further, split, _⟩ := outline.lookup_eq_some_iff.mp looked
  rw [split]
  exact List.mem_append_right _ List.mem_cons_self

/-- No scope further in than the hit of a lookup shows the name. -/
theorem le_of_lookup {scope hit outer : ScopeId} {name : String} {space : NameSpace} {offset : Option Nat}
    {found : List DeclarationId} (looked : outline.lookup scope name space offset = some (hit, found))
    (member : outer ∈ outline.ancestors scope) (shown : outline.visibleIn outer name space offset ≠ []) :
    outer ≤ hit := by
  obtain ⟨inner, further, split, missed, _, _⟩ := outline.lookup_eq_some_iff.mp looked
  have ordered := outline.ancestors_pairwise scope
  rw [split] at member ordered
  rcases List.mem_append.mp member with before | after
  · exact absurd (missed outer before) shown
  · rcases List.mem_cons.mp after with here | outside
    · exact Nat.le_of_eq here
    · have rest := (List.pairwise_append.mp ordered).2.1
      exact Nat.le_of_lt ((List.pairwise_cons.mp rest).1 outer outside)

/-- A lookup may start at any scope around its own that comes before the first one to show the name. -/
theorem lookup_eq_of_mem_ancestors {scope outer : ScopeId} {name : String} {space : NameSpace} {offset : Option Nat}
    (member : outer ∈ outline.ancestors scope)
    (missed : ∀ between ∈ outline.ancestors scope, outer < between → outline.visibleIn between name space offset = []) :
    outline.lookup scope name space offset = outline.lookup outer name space offset := by
  obtain ⟨inner, split, inside⟩ := outline.ancestors_eq_append member
  have levels (start : ScopeId) : outline.lookup start name space offset =
      (outline.ancestors start).findSome? (outline.level name space offset) := rfl
  have nothing : inner.findSome? (outline.level name space offset) = none := by
    rw [List.findSome?_eq_none_iff]
    intro between listed
    exact outline.level_eq_none.mpr (missed between (split ▸ List.mem_append_left _ listed) (inside between listed))
  rw [levels, levels, split, List.findSome?_append, nothing, Option.none_or]

/-- A lookup that does not find a declaration shown by an enclosing scope stopped further in. -/
theorem lookup_inside_of_visible {scope outer : ScopeId} {name : String} {space : NameSpace} {offset : Option Nat}
    {id : DeclarationId} (member : outer ∈ outline.ancestors scope)
    (shown : id ∈ outline.visibleIn outer name space offset)
    (missed : ∀ hit found, outline.lookup scope name space offset = some (hit, found) → id ∉ found) :
    ∃ hit found, outline.lookup scope name space offset = some (hit, found) ∧ outer < hit := by
  have nonempty := List.ne_nil_of_mem shown
  cases looked : outline.lookup scope name space offset with
  | none => exact absurd (outline.lookup_eq_none_iff.mp looked outer member) nonempty
  | some result =>
      obtain ⟨hit, found⟩ := result
      refine ⟨hit, found, rfl, Nat.lt_of_le_of_ne (outline.le_of_lookup looked member nonempty) ?_⟩
      intro same
      obtain ⟨_, _, _, _, visible, _⟩ := outline.lookup_eq_some_iff.mp looked
      rw [same, visible] at shown
      exact missed hit found looked shown

theorem mem_of_lookup {scope outer : ScopeId} {name : String} {space : NameSpace} {offset : Option Nat}
    {found : List DeclarationId} (looked : outline.lookup scope name space offset = some (outer, found))
    {id : DeclarationId} (member : id ∈ found) : id ∈ outline.declaredIn outer name space := by
  obtain ⟨_, _, _, _, visible, _⟩ := outline.lookup_eq_some_iff.mp looked
  rw [← visible] at member
  exact List.mem_of_mem_filter member

theorem choose_none_candidates (candidates : List DeclarationId) :
    (outline.choose candidates none).candidates = candidates := by
  unfold choose
  split
  · rfl
  · rfl
  · contradiction

theorem mem_of_mem_choose {candidates : List DeclarationId} {arguments : Option Nat} {id : DeclarationId}
    (member : id ∈ (outline.choose candidates arguments).candidates) : id ∈ candidates := by
  unfold choose at member
  split at member
  · exact member
  · exact member
  · split at member
    · rename_i only narrowed
      have here : id ∈ [only] := member
      rw [← narrowed] at here
      exact List.mem_of_mem_filter here
    · exact member
    · exact List.mem_of_mem_filter member

theorem mem_of_mem_members {type : ScopeId} {name : String} {space : NameSpace} {id : DeclarationId}
    (member : id ∈ outline.members type name space) :
    id ∈ outline.declaredIn type name space ∨ id ∈ outline.declaredIn type name .type := by
  unfold members at member
  split at member
  · split at member
    · exact Or.inr member
    · cases member
  · exact Or.inl member

variable (index : ProjectIndex)

theorem externalMember_isBound (types : List String) (name : String) :
    (externalMember index types name).isBound = false := by
  unfold externalMember
  cases index.member? types name with
  | none => rfl
  | some declaration => rfl

theorem externalMember_candidates (types : List String) (name : String) :
    (externalMember index types name).candidates = [] :=
  Resolution.candidates_of_not_isBound (externalMember_isBound index types name)

/-- What a bare name may denote was found by a lookup from its scope, in its name space or that of types. -/
theorem lookup_of_mem_bindBareName {scope : ScopeId} {name : String} {usage : Usage} {offset : Nat}
    {id : DeclarationId} (member : id ∈ (outline.bindBareName index scope name usage offset).candidates) :
    ∃ space outer found, outline.lookup scope name space (some offset) = some (outer, found) ∧ id ∈ found ∧
      (space = usage.space ∨ space = .type) := by
  unfold bindBareName at member
  split at member
  · rename_i outer found looked
    exact ⟨usage.space, outer, found, looked, outline.mem_of_mem_choose member, Or.inl rfl⟩
  · split at member
    · rename_i outer found looked
      split at looked
      · exact ⟨.type, outer, found, looked, outline.mem_of_mem_choose member, Or.inr rfl⟩
      · cases looked
    · split at member
      · cases member
      · rw [externalMember_candidates] at member
        cases member

theorem declared_of_mem_bindBareName [outline.Registered] {scope : ScopeId} {name : String} {usage : Usage}
    {offset : Nat}
    {id : DeclarationId} (member : id ∈ (outline.bindBareName index scope name usage offset).candidates) :
    ∃ declaration, outline.declaration? id = some declaration ∧ declaration.name = name ∧
      (declaration.kind.space = usage.space ∨ declaration.kind = .type) := by
  obtain ⟨space, outer, found, looked, candidate, asked⟩ := outline.lookup_of_mem_bindBareName index member
  obtain ⟨declaration, declared, _, spelled, kind⟩ :=
    outline.mem_declaredIn.mp (outline.mem_of_lookup looked candidate)
  refine ⟨declaration, declared, spelled, ?_⟩
  rcases asked with own | type
  · exact Or.inl (kind.trans own)
  · exact Or.inr (DeclarationKind.space_eq_type.mp (kind.trans type))

theorem declared_of_mem_bindMember [outline.Registered] {receiver : Receiver} {name : String} {usage : Usage}
    {id : DeclarationId}
    (member : id ∈ (outline.bindMember index receiver name usage).2.candidates) :
    ∃ declaration, outline.declaration? id = some declaration ∧ declaration.name = name ∧
      (declaration.kind.space = usage.space ∨ declaration.kind = .type) := by
  cases receiver with
  | localType type =>
      simp only [bindMember] at member
      split at member
      · rw [externalMember_candidates] at member
        cases member
      · have found := outline.mem_of_mem_members (outline.mem_of_mem_choose member)
        rcases found with here | here
        · obtain ⟨declaration, declared, _, spelled, space⟩ := outline.mem_declaredIn.mp here
          exact ⟨declaration, declared, spelled, Or.inl space⟩
        · obtain ⟨declaration, declared, _, spelled, space⟩ := outline.mem_declaredIn.mp here
          exact ⟨declaration, declared, spelled, Or.inr (DeclarationKind.space_eq_type.mp space)⟩
  | named type =>
      simp only [bindMember, externalMember_candidates] at member
      cases member
  | inherited types =>
      simp only [bindMember, externalMember_candidates] at member
      cases member
  | unknown => cases member

/-- A member is not looked up outward. -/
theorem bindMember_ne_lexical {receiver : Receiver} {name : String} {usage : Usage} {scope : ScopeId} :
    (outline.bindMember index receiver name usage).1 ≠ .lexical scope := by
  cases receiver with
  | localType type =>
      simp only [bindMember]
      split
      · simp
      · simp
  | named type => simp [bindMember]
  | inherited types => simp [bindMember]
  | unknown => simp [bindMember]

end Outline

namespace Code

variable (code : Code) (outline : Outline) (index : ProjectIndex)

theorem declared_of_mem_bindingAt [outline.Registered] {position : Nat} {id : DeclarationId}
    (member : id ∈ (code.bindingAt outline index position).2.candidates) :
    outline.isPathWord position = false ∧
      ∃ declaration, outline.declaration? id = some declaration ∧ declaration.name = code.text position ∧
        (declaration.kind.space = (code.usageAt outline position).space ∨ declaration.kind = .type) := by
  rw [bindingAt] at member
  split at member
  · cases member
  · rename_i noPath
    refine ⟨Bool.not_eq_true _ ▸ noPath, ?_⟩
    dsimp only at member
    split at member
    · exact outline.declared_of_mem_bindMember index member
    · exact outline.declared_of_mem_bindBareName index member

/-- What a name looked up outward from a scope may denote is declared by a scope around it. -/
theorem scope_mem_ancestors_of_mem_bindingAt [outline.Registered] {position : Nat} {id : DeclarationId}
    {declaration : Declaration}
    {scope : ScopeId} (member : id ∈ (code.bindingAt outline index position).2.candidates)
    (site : (code.bindingAt outline index position).1 = .lexical scope)
    (declared : outline.declaration? id = some declaration) : declaration.scope ∈ outline.ancestors scope := by
  rw [bindingAt] at member site
  split at member
  · cases member
  · rename_i noPath
    rw [if_neg noPath] at site
    dsimp only at member site
    split at member
    · rename_i qualified
      rw [dif_pos qualified] at site
      exact absurd site (outline.bindMember_ne_lexical index)
    · rename_i bare
      rw [dif_neg bare] at site
      cases site
      obtain ⟨space, outer, found, looked, candidate, _⟩ := outline.lookup_of_mem_bindBareName index member
      obtain ⟨again, declaredAgain, placed, _⟩ := outline.mem_declaredIn.mp (outline.mem_of_lookup looked candidate)
      rw [declared] at declaredAgain
      cases declaredAgain
      rw [placed]
      exact outline.mem_ancestors_of_lookup looked

/-- A word marked as a type denotes types only. -/
theorem kind_of_isTypeWord [outline.Registered] {position : Nat} {id : DeclarationId}
    (member : id ∈ (code.bindingAt outline index position).2.candidates) (marked : outline.isTypeWord position = true) :
    ∃ declaration, outline.declaration? id = some declaration ∧ declaration.kind = .type := by
  obtain ⟨noPath, declaration, found, _, space | kind⟩ := code.declared_of_mem_bindingAt outline index member
  · unfold usageAt at space
    rw [noPath, marked] at space
    exact ⟨declaration, found, DeclarationKind.space_eq_type.mp space⟩
  · exact ⟨declaration, found, kind⟩

/-! ### References -/

theorem referenceAt?_eq_some {position : Nat} {reference : Reference} :
    code.referenceAt? outline index position = some reference ↔
      code.isReference outline position = true ∧
        reference =
          { position, name := code.text position, scope := outline.home position
            space := (code.usageAt outline position).space
            lookup := (code.bindingAt outline index position).1
            resolution := (code.bindingAt outline index position).2 } := by
  unfold referenceAt?
  split
  · rename_i used
    simp only [used, true_and, Option.some.injEq]
    exact eq_comm
  · rename_i unused
    simp [unused]

theorem mem_references {reference : Reference} :
    reference ∈ (code.references outline index).toList ↔
      code.referenceAt? outline index reference.position = some reference := by
  unfold references
  rw [List.mem_filterMap]
  constructor
  · rintro ⟨position, _, used⟩
    have here := ((code.referenceAt?_eq_some outline index).mp used).2
    have position : reference.position = position := congrArg Reference.position here
    rw [position]
    exact used
  · intro used
    refine ⟨reference.position, ?_, used⟩
    have identifier := (Bool.and_eq_true_iff.mp ((code.referenceAt?_eq_some outline index).mp used).1).1
    exact List.mem_range.mpr (code.isIdentifier_lt_size identifier)

/-- The uses of names stand in order, at most one at a position. -/
theorem references_pairwise :
    (code.references outline index).toList.Pairwise fun left right => left.position < right.position := by
  unfold references
  rw [List.pairwise_filterMap]
  refine List.pairwise_lt_range.imp ?_
  intro before after ordered left leftUsed right rightUsed
  have leftAt := ((code.referenceAt?_eq_some outline index).mp leftUsed).2
  have rightAt := ((code.referenceAt?_eq_some outline index).mp rightUsed).2
  rw [leftAt, rightAt]
  exact ordered

/-- A use that may denote a declaration is spelled like it. -/
theorem name_of_mem_candidates [outline.Registered] {reference : Reference}
    (used : reference ∈ (code.references outline index).toList) {id : DeclarationId}
    (member : id ∈ reference.resolution.candidates) :
    ∃ declaration, outline.declaration? id = some declaration ∧ declaration.name = reference.name := by
  have found := (code.mem_references outline index).mp used
  obtain ⟨_, same⟩ := (code.referenceAt?_eq_some outline index).mp found
  rw [same] at member ⊢
  obtain ⟨_, declaration, found, named, _⟩ := code.declared_of_mem_bindingAt outline index member
  exact ⟨declaration, found, named⟩

end Code

end ScopedRename
