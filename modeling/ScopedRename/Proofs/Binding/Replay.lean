import Mathlib.Data.List.Nodup
import ScopedRename.Proofs.Binding.Renamed
import ScopedRename.Proofs.Binding.SideBySide
import ScopedRename.Proofs.Code.Respelling

/-!
Binding again after a declaration got a name that nothing had. Every level of a lookup then shows what it showed
before, less the target under the old name, and the target alone under the new one. A use that denoted the target finds
it, any other finds what it found: where the target was among the overloads, it was not the one that was chosen.
-/

namespace ScopedRename

def Scope.unnamed (scope : Scope) : Scope := { scope with name := none }

namespace Outline

def takes (outline : Outline) (count : Nat) (id : DeclarationId) : Bool :=
  ((outline.declaration? id).bind (·.arity)).any (·.accepts count)

/-- The choice is made among the candidates that take the arguments, if there are any. -/
theorem choose_some (outline : Outline) (candidates : List DeclarationId) (count : Nat) :
    outline.choose candidates (some count) =
      if candidates.filter (outline.takes count) = [] then outline.choose candidates none
      else outline.choose (candidates.filter (outline.takes count)) none := by
  cases candidates with
  | nil => rfl
  | cons first rest =>
      cases rest with
      | nil =>
          cases taken : outline.takes count first with
          | true => simp [choose, taken]
          | false => simp [choose, taken]
      | cons second rest =>
          have test : (fun id => ((outline.declaration? id).bind (·.arity)).any (·.accepts count)) =
              outline.takes count := rfl
          unfold choose
          dsimp only
          rw [test]
          cases (first :: second :: rest).filter (outline.takes count) with
          | nil => rfl
          | cons only others =>
              cases others with
              | nil => rfl
              | cons other others => rfl

theorem choose_none_eq (left right : Outline) (candidates : List DeclarationId) :
    left.choose candidates none = right.choose candidates none := by
  cases candidates with
  | nil => rfl
  | cons first rest =>
      cases rest with
      | nil => rfl
      | cons second rest => rfl

theorem bindMember_localType (outline : Outline) (index : ProjectIndex) (type : ScopeId) (name : String)
    (usage : Usage) :
    outline.bindMember index (.localType type) name usage =
      (.member type,
        if outline.members type name usage.space = [] then externalMember index (outline.supertypesOf type) name
        else outline.choose (outline.members type name usage.space) usage.arguments) := by
  simp only [bindMember]
  split
  · rename_i none
    rw [if_pos none]
  · rename_i some
    rw [if_neg some]

/-- The second outline is the first with the target renamed to a name that nothing had; the names of scopes may
differ. -/
structure Renames (outline after : Outline) (target : DeclarationId) (renamed : Declaration) (newName : String) :
    Prop where
  scopes : after.scopes.map Scope.unnamed = outline.scopes.map Scope.unnamed
  homes : ∀ position, after.homeAt? position = outline.homeAt? position
  typeWords : ∀ position, after.isTypeWord position = outline.isTypeWord position
  pathWords : ∀ position, after.isPathWord position = outline.isPathWord position
  declarations : after.declarations = (outline.withName target newName).declarations
  found : outline.declaration? target = some renamed
  noType : renamed.kind ≠ .type
  fresh : ∀ id declaration, outline.declaration? id = some declaration → declaration.name ≠ newName
  former : outline.Registered
  registered : after.Registered
  formerOrdered : outline.layout.Ordered
  ordered : after.layout.Ordered

namespace Renames

variable {outline after : Outline} {target : DeclarationId} {renamed : Declaration} {newName : String}
  (renames : Renames outline after target renamed newName)

include renames

theorem scope?_unnamed (scope : ScopeId) :
    (after.scope? scope).map Scope.unnamed = (outline.scope? scope).map Scope.unnamed := by
  unfold scope?
  rw [← Array.getElem?_map, ← Array.getElem?_map, renames.scopes]

theorem scope?_map {value : Type} (field : Scope → value) (keeps : ∀ scope, field scope.unnamed = field scope)
    (scope : ScopeId) : (after.scope? scope).map field = (outline.scope? scope).map field := by
  have ignores : field ∘ Scope.unnamed = field := funext keeps
  have same := congrArg (Option.map field) (renames.scope?_unnamed scope)
  rw [Option.map_map, Option.map_map, ignores] at same
  exact same

theorem parent? (scope : ScopeId) : after.parent? scope = outline.parent? scope := by
  have same := congrArg (Option.bind · fun parent => parent) (renames.scope?_map (·.parent) (fun _ => rfl) scope)
  rw [Option.bind_map, Option.bind_map] at same
  exact same

theorem childrenOf (scope : ScopeId) : after.childrenOf scope = outline.childrenOf scope := by
  have := renames.former
  have := renames.registered
  have size := congrArg Array.size renames.scopes
  rw [Array.size_map, Array.size_map] at size
  rw [childrenOf_eq, childrenOf_eq]
  unfold scopeIds
  rw [size, funext renames.parent?]

theorem supertypesOf : after.supertypesOf = outline.supertypesOf := by
  funext scope
  unfold Outline.supertypesOf
  rw [renames.scope?_map (·.supertypes) (fun _ => rfl) scope]

theorem ancestors (scope : ScopeId) : after.ancestors scope = outline.ancestors scope :=
  congrFun (ancestors_of_parent? (funext renames.parent?)) scope

theorem enclosingType? (scope : ScopeId) : after.enclosingType? scope = outline.enclosingType? scope := by
  have kinds (outer : ScopeId) :
      (after.scope? outer).any (·.kind == .type) = (outline.scope? outer).any (·.kind == .type) := by
    have same := congrArg (Option.any id) (renames.scope?_map (·.kind == .type) (fun _ => rfl) outer)
    rw [Option.any_map, Option.any_map] at same
    exact same
  unfold Outline.enclosingType?
  rw [renames.ancestors, funext kinds]

theorem home (position : Nat) : after.home position = outline.home position := by
  unfold Outline.home
  rw [renames.homes]

theorem declaration? (id : DeclarationId) :
    after.declaration? id =
      if target = id then (outline.declaration? id).map fun declaration => { declaration with name := newName }
      else outline.declaration? id := by
  rw [← withName_declaration?]
  unfold Outline.declaration?
  rw [renames.declarations]

theorem declaration?_map {value : Type} (field : Declaration → value)
    (keeps : ∀ declaration name, field { declaration with name } = field declaration) (id : DeclarationId) :
    (after.declaration? id).map field = (outline.declaration? id).map field := by
  have ignores : (field ∘ fun declaration : Declaration => { declaration with name := newName }) = field :=
    funext fun declaration => keeps declaration newName
  rw [renames.declaration?]
  split
  · rw [Option.map_map, ignores]
  · rfl

theorem declaration?_any (test : Declaration → Bool)
    (keeps : ∀ declaration name, test { declaration with name } = test declaration) (id : DeclarationId) :
    (after.declaration? id).any test = (outline.declaration? id).any test := by
  have same := congrArg (Option.any fun passes => passes) (renames.declaration?_map test keeps id)
  rw [Option.any_map, Option.any_map] at same
  exact same

theorem declarationIds : after.declarationIds = outline.declarationIds := by
  unfold Outline.declarationIds
  rw [renames.declarations]
  unfold withName
  rw [Array.size_modify]

theorem declarationAt? (position : Nat) : after.declarationAt? position = outline.declarationAt? position := by
  have := renames.former
  have := renames.registered
  rw [declarationAt?_eq, declarationAt?_eq, renames.declarationIds,
    funext fun id => renames.declaration?_any (·.position == position) (fun _ _ => rfl) id]

/-- What is visible from a word is the same in both texts, wherever the word starts. -/
theorem isVisible (id : DeclarationId) (position : Option Nat) :
    after.isVisible id (position.map after.startOf) = outline.isVisible id (position.map outline.startOf) := by
  have := renames.formerOrdered
  have := renames.ordered
  cases position with
  | none => rfl
  | some position =>
      rw [Option.map_some, Option.map_some, isVisible_startOf, isVisible_startOf]
      exact renames.declaration?_any
        (fun declaration => declaration.kind != .localVariable || declaration.position ≤ position)
        (fun _ _ => rfl) id

/-! ### What levels show -/

variable (position : Option Nat) {outer : ScopeId} {name : String} {space : NameSpace}

/-- Under any other name a level shows what it showed, less the target. -/
theorem visibleIn_of_ne (other : name ≠ newName) :
    after.visibleIn outer name space (position.map after.startOf) =
      (outline.visibleIn outer name space (position.map outline.startOf)).filter (· != target) := by
  have := renames.former
  have := renames.registered
  unfold visibleIn
  rw [declaredIn_eq, declaredIn_eq, renames.declarationIds, List.filter_filter, List.filter_filter, List.filter_filter]
  apply List.filter_congr
  intro id _
  rw [renames.isVisible, renames.declaration?]
  by_cases same : target = id
  · subst same
    rw [if_pos rfl, renames.found]
    simp [Ne.symm other]
  · have differs : (id != target) = true := bne_iff_ne.mpr (Ne.symm same)
    rw [if_neg same, differs, Bool.true_and]

/-- Under the new name a level shows the target alone, where it showed it before. -/
theorem visibleIn_new :
    after.visibleIn outer newName space (position.map after.startOf) =
      (outline.visibleIn outer renamed.name space (position.map outline.startOf)).filter (· == target) := by
  have := renames.former
  have := renames.registered
  unfold visibleIn
  rw [declaredIn_eq, declaredIn_eq, renames.declarationIds, List.filter_filter, List.filter_filter, List.filter_filter]
  apply List.filter_congr
  intro id _
  rw [renames.isVisible, renames.declaration?]
  by_cases same : target = id
  · subst same
    rw [if_pos rfl, renames.found]
    simp
  · have differs : (id == target) = false := beq_eq_false_iff_ne.mpr (Ne.symm same)
    rw [if_neg same, differs, Bool.false_and, Bool.false_and]
    cases declared : outline.declaration? id with
    | none => rw [Option.any_none, Bool.and_false]
    | some declaration =>
        have unlike : (declaration.name == newName) = false :=
          beq_eq_false_iff_ne.mpr (renames.fresh id declaration declared)
        rw [Option.any_some, unlike, Bool.and_false, Bool.false_and, Bool.and_false]

theorem not_mem_types : target ∉ outline.declaredIn outer name .type := by
  have := renames.former
  intro member
  obtain ⟨declaration, found, _, _, space⟩ := outline.mem_declaredIn.mp member
  have same : declaration = renamed := Option.some.inj (found.symm.trans renames.found)
  exact renames.noType (same ▸ DeclarationKind.space_eq_type.mp space)

/-- Nothing is different among types. -/
theorem visibleIn_type :
    after.visibleIn outer name .type (position.map after.startOf) =
      outline.visibleIn outer name .type (position.map outline.startOf) := by
  have absent (asked : String) : target ∉ outline.visibleIn outer asked .type (position.map outline.startOf) :=
    fun member => renames.not_mem_types (List.mem_of_mem_filter member)
  by_cases new : name = newName
  · subst new
    have nothing : outline.visibleIn outer name .type (position.map outline.startOf) = [] := by
      apply List.eq_nil_iff_forall_not_mem.mpr
      have := renames.former
      intro id member
      obtain ⟨declaration, found, _, named, _⟩ := outline.mem_declaredIn.mp (List.mem_of_mem_filter member)
      exact renames.fresh id declaration found named
    rw [renames.visibleIn_new position, nothing, List.filter_eq_nil_iff]
    intro id member same
    exact absent renamed.name (beq_iff_eq.mp same ▸ member)
  · rw [renames.visibleIn_of_ne position new, List.filter_eq_self]
    intro id member
    apply bne_iff_ne.mpr
    rintro rfl
    exact absent name member

/-! ### What lookups find -/

variable {scope : ScopeId} {asked : String} {keep : DeclarationId → Bool} {offset other : Option Nat}

theorem lookup_of_none
    (levels : ∀ outer, after.visibleIn outer asked space other =
      (outline.visibleIn outer name space offset).filter keep)
    (looked : outline.lookup scope name space offset = none) : after.lookup scope asked space other = none := by
  rw [lookup_eq_none_iff, renames.ancestors]
  intro outer member
  rw [levels, outline.lookup_eq_none_iff.mp looked outer member]
  rfl

theorem lookup_of_some {hit : ScopeId} {candidates : List DeclarationId}
    (levels : ∀ outer, after.visibleIn outer asked space other =
      (outline.visibleIn outer name space offset).filter keep)
    (looked : outline.lookup scope name space offset = some (hit, candidates))
    (left : candidates.filter keep ≠ []) :
    after.lookup scope asked space other = some (hit, candidates.filter keep) := by
  obtain ⟨inner, further, split, missed, shown, _⟩ := outline.lookup_eq_some_iff.mp looked
  rw [lookup_eq_some_iff, renames.ancestors]
  refine ⟨inner, further, split, ?_, ?_, left⟩
  · intro between member
    rw [levels, missed between member]
    rfl
  · rw [levels, shown]

theorem lookup_type :
    after.lookup scope name .type (position.map after.startOf) =
      outline.lookup scope name .type (position.map outline.startOf) := by
  have levels (outer : ScopeId) : after.visibleIn outer name .type (position.map after.startOf) =
      (outline.visibleIn outer name .type (position.map outline.startOf)).filter fun _ => true := by
    rw [renames.visibleIn_type, List.filter_true]
  cases looked : outline.lookup scope name .type (position.map outline.startOf) with
  | none => exact renames.lookup_of_none levels looked
  | some hit =>
      obtain ⟨stop, candidates⟩ := hit
      obtain ⟨_, _, _, _, _, nonempty⟩ := outline.lookup_eq_some_iff.mp looked
      have stays := renames.lookup_of_some levels looked (by rw [List.filter_true]; exact nonempty)
      rw [List.filter_true] at stays
      exact stays

theorem takes (count : Nat) : after.takes count = outline.takes count := by
  funext id
  have same := congrArg (Option.bind · fun arity => arity) (renames.declaration?_map (·.arity) (fun _ _ => rfl) id)
  rw [Option.bind_map, Option.bind_map] at same
  exact congrArg (Option.any (·.accepts count)) same

theorem choose (candidates : List DeclarationId) (arguments : Option Nat) :
    after.choose candidates arguments = outline.choose candidates arguments := by
  cases arguments with
  | none => exact choose_none_eq after outline candidates
  | some count =>
      rw [choose_some, choose_some, renames.takes, choose_none_eq after outline, choose_none_eq after outline]

/-- Where the target was among the candidates and another was chosen, the choice stands without it. -/
theorem choose_of_not_mem {candidates : List DeclarationId} {arguments : Option Nat} (nonempty : candidates ≠ [])
    (unchosen : target ∉ (outline.choose candidates arguments).candidates) :
    candidates.filter (· != target) ≠ [] ∧
      after.choose (candidates.filter (· != target)) arguments = outline.choose candidates arguments := by
  rw [renames.choose]
  by_cases present : target ∈ candidates
  · cases arguments with
    | none =>
        rw [choose_none_candidates] at unchosen
        exact absurd present unchosen
    | some count =>
        have accepting : ¬ candidates.filter (outline.takes count) = [] := by
          intro none
          rw [choose_some, if_pos none, choose_none_candidates] at unchosen
          exact unchosen present
        rw [choose_some, if_neg accepting, choose_none_candidates] at unchosen
        have same : (candidates.filter (· != target)).filter (outline.takes count) =
            candidates.filter (outline.takes count) := by
          rw [List.filter_filter]
          apply List.filter_congr
          intro id member
          cases taken : outline.takes count id with
          | false => rfl
          | true =>
              rw [Bool.true_and, bne_iff_ne]
              rintro rfl
              exact unchosen (List.mem_filter.mpr ⟨member, taken⟩)
        refine ⟨?_, ?_⟩
        · intro none
          rw [none] at same
          exact accepting same.symm
        · rw [choose_some, choose_some, same]
          simp only [if_neg accepting]
  · have unfiltered : candidates.filter (· != target) = candidates := by
      rw [List.filter_eq_self]
      intro id member
      apply bne_iff_ne.mpr
      rintro rfl
      exact present member
    rw [unfiltered]
    exact ⟨nonempty, rfl⟩

omit renames in
private theorem filter_target {candidates : List DeclarationId} (distinct : candidates.Nodup)
    (member : target ∈ candidates) : candidates.filter (· == target) = [target] := by
  rw [List.filter_beq, List.count_eq_one_of_mem distinct member]
  rfl

variable (index : ProjectIndex) {usage : Usage} {word : Nat}

/-- A bare name that denoted the target denotes it under the new name. -/
theorem bindBareName_new
    (denotes : outline.bindBareName index scope renamed.name usage (outline.startOf word) = .resolved target) :
    after.bindBareName index scope newName usage (after.startOf word) = .resolved target := by
  unfold bindBareName at denotes
  split at denotes
  · rename_i hit candidates looked
    obtain ⟨_, _, _, _, shown, _⟩ := outline.lookup_eq_some_iff.mp looked
    have member : target ∈ candidates := by
      apply outline.mem_of_mem_choose
      rw [denotes]
      exact List.mem_singleton.mpr rfl
    have distinct : candidates.Nodup := by
      have := renames.former
      rw [← shown]
      exact (outline.declaredIn_nodup _ _ _).filter _
    have alone := filter_target distinct member
    have looks : after.lookup scope newName usage.space (some (after.startOf word)) = some (hit, [target]) := by
      rw [← alone]
      exact renames.lookup_of_some (fun _ => renames.visibleIn_new (some word)) looked
        (by rw [alone]; exact List.cons_ne_nil target [])
    unfold bindBareName
    rw [looks]
    rfl
  · exfalso
    split at denotes
    · rename_i candidates looked
      split at looked
      · have member : target ∈ candidates := by
          apply outline.mem_of_mem_choose
          rw [denotes]
          exact List.mem_singleton.mpr rfl
        exact renames.not_mem_types (outline.mem_of_lookup looked member)
      · cases looked
    · split at denotes
      · cases denotes
      · have free := externalMember_isBound index ((outline.ancestors scope).flatMap outline.supertypesOf) renamed.name
        rw [denotes] at free
        cases free

/-- A bare name that did not denote the target denotes what it did. -/
theorem bindBareName_other (other : name ≠ newName)
    (free : target ∉ (outline.bindBareName index scope name usage (outline.startOf word)).candidates) :
    after.bindBareName index scope name usage (after.startOf word) =
      outline.bindBareName index scope name usage (outline.startOf word) := by
  have levels (outer : ScopeId) : after.visibleIn outer name usage.space (some (after.startOf word)) =
      (outline.visibleIn outer name usage.space (some (outline.startOf word))).filter (· != target) :=
    renames.visibleIn_of_ne (some word) other
  have types : after.lookup scope name .type (some (after.startOf word)) =
      outline.lookup scope name .type (some (outline.startOf word)) := renames.lookup_type (some word)
  unfold bindBareName at free ⊢
  cases looked : outline.lookup scope name usage.space (some (outline.startOf word)) with
  | some hit =>
      obtain ⟨stop, candidates⟩ := hit
      rw [looked] at free
      dsimp only at free ⊢
      obtain ⟨_, _, _, _, _, nonempty⟩ := outline.lookup_eq_some_iff.mp looked
      obtain ⟨left, chosen⟩ := renames.choose_of_not_mem nonempty free
      rw [renames.lookup_of_some levels looked left]
      exact chosen
  | none =>
      rw [renames.lookup_of_none levels looked, types, renames.supertypesOf, renames.ancestors]
      dsimp only
      split
      · exact renames.choose _ _
      · rfl

theorem declaredIn_of_ne {type : ScopeId} (other : name ≠ newName) :
    after.declaredIn type name space = (outline.declaredIn type name space).filter (· != target) := by
  rw [← visibleIn_none, ← visibleIn_none]
  exact renames.visibleIn_of_ne none other

theorem declaredIn_new {type : ScopeId} (member : target ∈ outline.declaredIn type renamed.name space) :
    after.declaredIn type newName space = [target] := by
  have := renames.former
  have distinct := outline.declaredIn_nodup type renamed.name space
  rw [← visibleIn_none]
  refine (renames.visibleIn_new none).trans ?_
  rw [Option.map_none, visibleIn_none]
  exact filter_target distinct member

/-- A member that denoted the target denotes it under the new name. -/
theorem bindMember_new {receiver : Receiver}
    (denotes : (outline.bindMember index receiver renamed.name usage).2 = .resolved target) :
    after.bindMember index receiver newName usage = outline.bindMember index receiver renamed.name usage := by
  have unbound (types : List String) : externalMember index types renamed.name ≠ .resolved target := by
    intro resolved
    have free := externalMember_isBound index types renamed.name
    rw [resolved] at free
    cases free
  cases receiver with
  | localType type =>
      rw [bindMember_localType] at denotes ⊢
      rw [bindMember_localType]
      dsimp only at denotes
      split at denotes
      · exact absurd denotes (unbound _)
      · rename_i nonempty
        have member : target ∈ outline.members type renamed.name usage.space := by
          have chosen : target ∈ (Resolution.resolved target).candidates := List.mem_singleton.mpr rfl
          rw [← denotes] at chosen
          exact outline.mem_of_mem_choose chosen
        rcases outline.mem_of_mem_members member with declared | isType
        · have members : after.members type newName usage.space = [target] := by
            unfold Outline.members
            rw [renames.declaredIn_new declared]
          rw [if_neg nonempty, denotes, members]
          rfl
        · exact absurd isType renames.not_mem_types
  | named type => exact absurd denotes (unbound [type])
  | inherited types => exact absurd denotes (unbound types)
  | unknown => cases denotes

/-- A member that did not denote the target denotes what it did. -/
theorem bindMember_other {receiver : Receiver} (other : name ≠ newName)
    (free : target ∉ (outline.bindMember index receiver name usage).2.candidates) :
    after.bindMember index receiver name usage = outline.bindMember index receiver name usage := by
  cases receiver with
  | localType type =>
      rw [bindMember_localType] at free ⊢
      rw [bindMember_localType, renames.supertypesOf]
      cases declared : outline.declaredIn type name usage.space with
      | nil =>
          have members : after.members type name usage.space = outline.members type name usage.space := by
            have types : after.declaredIn type name .type = outline.declaredIn type name .type := by
              rw [← visibleIn_none, ← visibleIn_none]
              exact renames.visibleIn_type none
            unfold Outline.members
            rw [renames.declaredIn_of_ne other, declared, types]
            rfl
          rw [members, renames.choose]
      | cons first rest =>
          have members : outline.members type name usage.space = first :: rest := by
            unfold Outline.members
            rw [declared]
          rw [members, if_neg (List.cons_ne_nil first rest)] at free ⊢
          obtain ⟨left, chosen⟩ := renames.choose_of_not_mem (List.cons_ne_nil first rest) free
          have after_ : after.members type name usage.space = (first :: rest).filter (· != target) := by
            unfold Outline.members
            rw [renames.declaredIn_of_ne other, declared]
            split
            · rename_i nothing
              exact absurd nothing left
            · rfl
          rw [after_, if_neg left, chosen]
  | named type => rfl
  | inherited types => rfl
  | unknown => rfl

theorem receiverOfType (type : DeclaredType) (scope : ScopeId) :
    after.receiverOfType type scope = outline.receiverOfType type scope := by
  have bodies (id : DeclarationId) : (after.declaration? id).bind (·.body) = (outline.declaration? id).bind (·.body) := by
    have same := congrArg (Option.bind · fun body => body) (renames.declaration?_map (·.body) (fun _ _ => rfl) id)
    rw [Option.bind_map, Option.bind_map] at same
    exact same
  have looked : after.lookup scope type.base .type none = outline.lookup scope type.base .type none :=
    renames.lookup_type none
  unfold Outline.receiverOfType
  rw [looked]
  simp only [bodies]

theorem receiverOfName (id : DeclarationId) : after.receiverOfName id = outline.receiverOfName id := by
  have typed : after.receiverOfType = outline.receiverOfType :=
    funext fun type => funext fun scope => renames.receiverOfType type scope
  unfold Outline.receiverOfName
  rw [typed, renames.declaration?]
  by_cases same : target = id
  · rw [if_pos same]
    cases outline.declaration? id with
    | none => rfl
    | some declaration => rfl
  · rw [if_neg same]

theorem receiverOfCall (id : DeclarationId) : after.receiverOfCall id = outline.receiverOfCall id := by
  have typed : after.receiverOfType = outline.receiverOfType :=
    funext fun type => funext fun scope => renames.receiverOfType type scope
  unfold Outline.receiverOfCall
  rw [typed, renames.declaration?]
  by_cases same : target = id
  · rw [if_pos same]
    cases outline.declaration? id with
    | none => rfl
    | some declaration => rfl
  · rw [if_neg same]

end Renames

end Outline

def Reference.follow (reference : Reference) (target : DeclarationId) (newName : String) : Reference :=
  if reference.resolution = .resolved target then { reference with name := newName } else reference

theorem Reference.map_resolution_follow (references : Array Reference) (target : DeclarationId) (newName : String) :
    (references.map (·.follow target newName)).toList.map (·.resolution) = references.toList.map (·.resolution) := by
  rw [Array.toList_map, List.map_map]
  apply List.map_congr_left
  intro reference _
  unfold follow
  dsimp only [Function.comp]
  split
  · rfl
  · rfl

namespace Code

structure Rewrites (code rewritten : Code) (outline : Outline) (index : ProjectIndex) (target : DeclarationId)
    (newName : String) : Prop where
  respelled : ∃ spell, rewritten.respell spell = code.respell id
  fresh : ∀ position, code.isIdentifier position = true → code.text position ≠ newName
  unambiguous : ∀ position, code.isReference outline position = true →
    target ∈ (code.bindingAt outline index position).2.candidates →
    (code.bindingAt outline index position).2 = .resolved target
  planned : ∀ position, code.isReference outline position = true →
    (code.bindingAt outline index position).2 = .resolved target → rewritten.text position = newName
  other : ∀ position, code.isReference outline position = true →
    (code.bindingAt outline index position).2 ≠ .resolved target → rewritten.text position = code.text position

variable {code rewritten : Code} {outline after : Outline} {index : ProjectIndex} {target : DeclarationId}
  {renamed : Declaration} {newName : String} (rewrites : Rewrites code rewritten outline index target newName)
  (renames : outline.Renames after target renamed newName)

include rewrites renames

theorem Rewrites.isReference (position : Nat) :
    rewritten.isReference after position = code.isReference outline position := by
  obtain ⟨spell, respelled⟩ := rewrites.respelled
  unfold Code.isReference
  rw [renames.declarationAt?, Code.eq_of_respell isIdentifier respell_isIdentifier respelled]

theorem Rewrites.usageAt (position : Nat) : rewritten.usageAt after position = code.usageAt outline position := by
  obtain ⟨spell, respelled⟩ := rewrites.respelled
  unfold Code.usageAt
  rw [renames.pathWords, renames.typeWords, Code.eq_of_respell followsPunctuation respell_followsPunctuation respelled,
    Code.eq_of_respell isPunctuation respell_isPunctuation respelled,
    Code.eq_of_respell argumentCount respell_argumentCount respelled]

private theorem replay_binding {position : Nat} (used : code.isReference outline position = true)
    (earlier : ∀ before, before < position →
      rewritten.receiverAt after index before = code.receiverAt outline index before) :
    rewritten.bindingAt after index position = code.bindingAt outline index position := by
  have identifier := (Bool.and_eq_true_iff.mp used).1
  have planned := rewrites.planned position used
  have other := rewrites.other position used
  have unambiguous := rewrites.unambiguous position used
  have spelled (denotes : (code.bindingAt outline index position).2 = .resolved target) :
      code.text position = renamed.name := by
    have member : target ∈ (code.bindingAt outline index position).2.candidates := by
      rw [denotes]
      exact List.mem_singleton.mpr rfl
    have := renames.former
    obtain ⟨_, declaration, found, named, _⟩ := code.declared_of_mem_bindingAt outline index member
    have same : declaration = renamed := Option.some.inj (found.symm.trans renames.found)
    rw [← named, same]
  have qualified : rewritten.isQualified position = code.isQualified position := by
    obtain ⟨spell, respelled⟩ := rewrites.respelled
    unfold isQualified
    rw [Code.eq_of_respell followsPunctuation respell_followsPunctuation respelled]
  rw [bindingAt, rewrites.usageAt renames, qualified, renames.pathWords, renames.home]
  rw [bindingAt] at planned other unambiguous spelled ⊢
  by_cases path : outline.isPathWord position = true
  · rw [if_pos path, if_pos path]
  · rw [if_neg path] at planned other unambiguous spelled ⊢
    rw [if_neg path]
    dsimp only at planned other unambiguous spelled ⊢
    by_cases member : 2 ≤ position ∧ code.isQualified position
    · rw [dif_pos member] at planned other unambiguous spelled ⊢
      rw [dif_pos member, earlier (position - 2) (by omega)]
      by_cases denotes : (outline.bindMember index (code.receiverAt outline index (position - 2)) (code.text position)
          (code.usageAt outline position)).2 = .resolved target
      · have old := spelled denotes
        rw [planned denotes]
        rw [old] at denotes ⊢
        exact renames.bindMember_new index denotes
      · rw [other denotes]
        refine renames.bindMember_other index (rewrites.fresh position identifier) ?_
        intro candidate
        exact denotes (unambiguous candidate)
    · rw [dif_neg member] at planned other unambiguous spelled ⊢
      rw [dif_neg member]
      refine congrArg (Prod.mk _) ?_
      by_cases denotes : outline.bindBareName index (outline.home position) (code.text position)
          (code.usageAt outline position) (outline.startOf position) = .resolved target
      · have old := spelled denotes
        rw [planned denotes]
        rw [old] at denotes ⊢
        rw [denotes]
        exact renames.bindBareName_new index denotes
      · rw [other denotes]
        refine renames.bindBareName_other index (rewrites.fresh position identifier) ?_
        intro candidate
        exact denotes (unambiguous candidate)

private theorem Rewrites.sideBySide : SideBySide code rewritten outline after id where
  keyword := by
    obtain ⟨spell, respelled⟩ := rewrites.respelled
    exact Code.eq_of_respell isKeyword respell_isKeyword respelled
  punctuation := by
    obtain ⟨spell, respelled⟩ := rewrites.respelled
    exact Code.eq_of_respell isPunctuation respell_isPunctuation respelled
  partner := by
    obtain ⟨spell, respelled⟩ := rewrites.respelled
    exact Code.eq_of_respell partner? respell_partner? respelled
  reference := funext (rewrites.isReference renames)
  type position := by rw [renames.home, renames.enclosingType?]
  supertypes scope := by rw [renames.supertypesOf, List.map_id]
  ofName id := by rw [renames.receiverOfName, Receiver.respell_id]
  ofCall id := by rw [renames.receiverOfCall, Receiver.respell_id]

/-- A use that is bound again is looked up where it was and denotes what it denoted. -/
theorem Rewrites.replay {position : Nat} (used : code.isReference outline position = true) :
    rewritten.bindingAt after index position = code.bindingAt outline index position := by
  refine ((rewrites.sideBySide renames).run index index (fun found again => again = found) ?_ ?_ position).1 used
  · rintro found again rfl
    rfl
  · intro word usedThere earlier
    apply replay_binding rewrites renames usedThere
    intro before ordered
    rw [earlier before ordered, Receiver.respell_id]

theorem Rewrites.referenceAt? (position : Nat) :
    rewritten.referenceAt? after index position =
      (code.referenceAt? outline index position).map (·.follow target newName) := by
  unfold Code.referenceAt?
  rw [rewrites.isReference renames, rewrites.usageAt renames, renames.home]
  split
  · rename_i used
    rw [rewrites.replay renames used, Option.map_some]
    dsimp only [Reference.follow]
    by_cases denotes : (code.bindingAt outline index position).2 = .resolved target
    · rw [if_pos denotes, rewrites.planned position used denotes]
    · rw [if_neg denotes, rewrites.other position used denotes]
  · rfl

/-- Every use denotes what it denoted and is looked up where it was; the uses of the target have its new name. -/
theorem Rewrites.references :
    rewritten.references after index = (code.references outline index).map (·.follow target newName) := by
  have size : rewritten.size = code.size := by
    obtain ⟨spell, respelled⟩ := rewrites.respelled
    exact Code.eq_of_respell Code.size respell_size respelled
  have each : rewritten.referenceAt? after index = fun position =>
      (code.referenceAt? outline index position).map (·.follow target newName) :=
    funext (rewrites.referenceAt? renames)
  unfold Code.references
  rw [size, each, List.map_toArray, List.map_filterMap]

end Code

end ScopedRename
