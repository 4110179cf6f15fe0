import ScopedRename.Proofs.Binding.Renamed
import ScopedRename.Proofs.Fallible
import ScopedRename.Proofs.Plan.Exact

/-!
Hygiene of accepted plans. With the target renamed in the outline, every use of its name space finds what it should
where it was looked up: a planned use finds the target under the new name, any other use what it found before.
-/

namespace ScopedRename

def Lookup.isLocal : Lookup → Bool
  | .lexical _ | .member _ => true
  | .foreign | .path => false

namespace Outline

/-- What looking a name up again at a recorded place finds, at a byte offset. -/
def found (outline : Outline) (site : Lookup) (name : String) (space : NameSpace) (offset : Nat) :
    List DeclarationId :=
  match site with
  | .lexical scope => (outline.lookup scope name space (some offset)).elim [] (·.2)
  | .member type => outline.declaredIn type name space
  | .foreign | .path => []

def DenotesType (outline : Outline) (resolution : Resolution) : Prop :=
  resolution.candidates ≠ [] ∧
    ∀ id ∈ resolution.candidates, ∃ declaration, outline.declaration? id = some declaration ∧ declaration.kind = .type

theorem DenotesType.of_types {outline : Outline} [outline.Registered] {candidates : List DeclarationId}
    (scope : ScopeId)
    (name : String) (nonempty : candidates ≠ []) (types : ∀ id ∈ candidates, id ∈ outline.declaredIn scope name .type) :
    outline.DenotesType (outline.choose candidates none) := by
  unfold DenotesType
  rw [choose_none_candidates]
  refine ⟨nonempty, ?_⟩
  intro id member
  obtain ⟨declaration, found, _, _, space⟩ := outline.mem_declaredIn.mp (types id member)
  exact ⟨declaration, found, DeclarationKind.space_eq_type.mp space⟩

/-- The resolution of a type or value follows from what its lookup found: it denotes that, or nothing was found and the
name is unbound or, a value, names a type. -/
def Explains (outline : Outline) (space : NameSpace) (found : List DeclarationId) (resolution : Resolution) : Prop :=
  found ≠ [] ∧ resolution.candidates = found ∨
    found = [] ∧ (resolution.isBound = false ∨ space = .value ∧ outline.DenotesType resolution)

section Explained

variable {outline : Outline} {space : NameSpace} {found : List DeclarationId} {resolution : Resolution}
  (explained : outline.Explains space found resolution)

include explained

theorem Explains.candidates_eq (nonempty : found ≠ []) : resolution.candidates = found := by
  rcases explained with ⟨_, candidates⟩ | ⟨nothing, _⟩
  · exact candidates
  · exact absurd nothing nonempty

theorem Explains.unbound (nothing : found = []) (noType : ¬(space = .value ∧ outline.DenotesType resolution)) :
    resolution.isBound = false := by
  rcases explained with ⟨something, _⟩ | ⟨_, free | type⟩
  · exact absurd nothing something
  · exact free
  · exact absurd type noType

end Explained

variable (outline : Outline) (index : ProjectIndex)

theorem bindBareName_explains [outline.Registered] (scope : ScopeId) (name : String) (space : NameSpace)
    (offset : Nat) :
    outline.Explains space (outline.found (.lexical scope) name space offset)
      (outline.bindBareName index scope name ⟨space, none⟩ offset) := by
  simp only [bindBareName, found]
  cases looked : outline.lookup scope name space (some offset) with
  | some hit =>
      obtain ⟨outer, candidates⟩ := hit
      obtain ⟨_, _, _, _, _, nonempty⟩ := outline.lookup_eq_some_iff.mp looked
      exact Or.inl ⟨nonempty, outline.choose_none_candidates candidates⟩
  | none =>
      refine Or.inr ⟨rfl, ?_⟩
      dsimp only
      by_cases value : space = .value
      · rw [if_pos value]
        cases fallback : outline.lookup scope name .type (some offset) with
        | some hit =>
            obtain ⟨outer, candidates⟩ := hit
            obtain ⟨_, _, _, _, _, nonempty⟩ := outline.lookup_eq_some_iff.mp fallback
            exact Or.inr ⟨value, DenotesType.of_types outer name nonempty fun id => outline.mem_of_lookup fallback⟩
        | none =>
            dsimp only
            rw [if_neg (by rw [value]; decide)]
            exact Or.inl (externalMember_isBound index _ name)
      · rw [if_neg value]
        dsimp only
        split
        · exact Or.inl rfl
        · exact Or.inl (externalMember_isBound index _ name)

theorem bindMember_explains [outline.Registered] (type : ScopeId) (name : String) (space : NameSpace) (offset : Nat) :
    outline.Explains space (outline.found (.member type) name space offset)
      (outline.bindMember index (.localType type) name ⟨space, none⟩).2 := by
  simp only [bindMember, members, found]
  cases declared : outline.declaredIn type name space with
  | cons first rest => exact Or.inl ⟨List.cons_ne_nil first rest, outline.choose_none_candidates (first :: rest)⟩
  | nil =>
      refine Or.inr ⟨rfl, ?_⟩
      dsimp only
      by_cases value : space = .value
      · rw [if_pos value]
        cases types : outline.declaredIn type name .type with
        | cons first rest =>
            refine Or.inr ⟨value, DenotesType.of_types type name (List.cons_ne_nil first rest) ?_⟩
            intro id member
            rw [types]
            exact member
        | nil => exact Or.inl (externalMember_isBound index _ name)
      · rw [if_neg value]
        exact Or.inl (externalMember_isBound index _ name)

/-- A receiver that is no type of this file leaves the name to other files. -/
theorem bindMember_isLocal {receiver : Receiver} {name : String} {usage : Usage}
    (site : (outline.bindMember index receiver name usage).1.isLocal = true) :
    ∃ type, receiver = .localType type ∧ (outline.bindMember index receiver name usage).1 = .member type := by
  cases receiver with
  | localType type =>
      refine ⟨type, rfl, ?_⟩
      simp only [bindMember]
      split
      · rfl
      · rfl
  | named type => cases site
  | inherited types => cases site
  | unknown => cases site

end Outline

namespace Code

variable (code : Code) (outline : Outline) (index : ProjectIndex)

/-- Only a method is used with arguments. -/
theorem usageAt_eq (position : Nat) (space : (code.usageAt outline position).space ≠ .method) :
    code.usageAt outline position = ⟨(code.usageAt outline position).space, none⟩ := by
  unfold usageAt at space ⊢
  split
  · rfl
  · split
    · rfl
    · split
      · rfl
      · split
        · simp_all
        · rfl

/-- What a use of a type or value denotes follows from what its recorded lookup finds. -/
theorem reference_explained [outline.Registered] {reference : Reference}
    (used : reference ∈ (code.references outline index).toList)
    (site : reference.lookup.isLocal = true) (space : reference.space ≠ .method) :
    outline.Explains reference.space
      (outline.found reference.lookup reference.name reference.space (outline.startOf reference.position))
      reference.resolution := by
  obtain ⟨_, same⟩ := (code.referenceAt?_eq_some outline index).mp ((code.mem_references outline index).mp used)
  generalize reference.position = position at same
  subst same
  dsimp only at site space ⊢
  have usage := code.usageAt_eq outline position space
  generalize (code.usageAt outline position).space = asked at usage ⊢
  rw [bindingAt] at site ⊢
  split at site
  · cases site
  · rename_i noPath
    rw [if_neg noPath]
    dsimp only at site ⊢
    rw [usage] at site ⊢
    split at site
    · rename_i qualified
      rw [dif_pos qualified]
      obtain ⟨type, receiver, place⟩ := outline.bindMember_isLocal index site
      rw [place, receiver]
      exact outline.bindMember_explains index type _ asked _
    · rename_i bare
      rw [dif_neg bare]
      exact outline.bindBareName_explains index _ _ asked _

end Code

namespace BoundOutline

variable {bound : BoundOutline} {strict : Bool} {target : DeclarationId} {renamed : Declaration} {newName : String}
  {verdict : Verdict}

/-- What a verdict has passed: no place where the target is looked up has a declaration in the way, and no use is
captured. -/
theorem verdict_eq_ok (judged : bound.verdict strict target renamed newName = .ok verdict) :
    (∀ site ∈ bound.sites target renamed, ∃ hidden, bound.meetsAt target renamed newName site = .ok hidden) ∧
      ∀ reference ∈ bound.references.toList, bound.captured? renamed newName reference = none := by
  unfold BoundOutline.verdict at judged
  cases met : (bound.sites target renamed).mapM (bound.meetsAt target renamed newName) with
  | error position =>
      rw [met] at judged
      cases judged
  | ok hidden =>
      constructor
      · intro site checked
        obtain ⟨part, _, here⟩ := answer_of_mapM_eq_ok met site checked
        exact ⟨part, here⟩
      · rw [met] at judged
        dsimp only [bind, Except.bind] at judged
        split at judged
        · cases judged
        · rename_i nowhere
          exact List.findSome?_eq_none_iff.mp nowhere

theorem own_site (target : DeclarationId) (renamed : Declaration) :
    Lookup.lexical renamed.scope ∈ bound.sites target renamed :=
  List.mem_eraseDups.mpr List.mem_cons_self

theorem use_site {reference : Reference} (uses : reference ∈ bound.referencesTo target) (renamed : Declaration) :
    reference.lookup ∈ bound.sites target renamed :=
  List.mem_eraseDups.mpr (List.mem_cons_of_mem _ (List.mem_map_of_mem uses))

/-- From a place where the target is looked up, a scope inside the target's cannot have the new name. -/
theorem hit_of_meetsAt {scope hit : ScopeId} {hidden candidates : List DeclarationId}
    (met : bound.meetsAt target renamed newName (.lexical scope) = .ok hidden)
    (looked : bound.outline.lookup scope newName renamed.kind.space none = some (hit, candidates))
    (inside : renamed.scope ∈ bound.outline.ancestors hit) : hit = renamed.scope ∧ hidden = [] := by
  have within : bound.outline.isWithin hit renamed.scope = true := List.contains_iff_mem.mpr inside
  obtain ⟨_, _, _, _, _, nonempty⟩ := bound.outline.lookup_eq_some_iff.mp looked
  obtain ⟨first, candidate⟩ := List.exists_mem_of_ne_nil _ nonempty
  simp only [meetsAt, looked, within, if_true] at met
  split at met
  · cases met
  · rename_i nothing
    cases met
    have passed := List.find?_eq_none.mp nothing first candidate
    rw [Bool.not_eq_true, Bool.or_eq_false_iff] at passed
    exact ⟨bne_eq_false_iff_eq.mp passed.1, rfl⟩

/-- From a place where the target is looked up, no scope further in than the target's has the new name. -/
theorem declaredIn_inside_of_meetsAt {scope between : ScopeId} {hidden : List DeclarationId}
    (met : bound.meetsAt target renamed newName (.lexical scope) = .ok hidden)
    (around : renamed.scope ∈ bound.outline.ancestors scope) (member : between ∈ bound.outline.ancestors scope)
    (inside : renamed.scope < between) : bound.outline.declaredIn between newName renamed.kind.space = [] := by
  by_contra nonempty
  rw [← Outline.visibleIn_none] at nonempty
  cases looked : bound.outline.lookup scope newName renamed.kind.space none with
  | none => exact nonempty (bound.outline.lookup_eq_none_iff.mp looked between member)
  | some result =>
      obtain ⟨hit, candidates⟩ := result
      have further := Nat.lt_of_lt_of_le inside (bound.outline.le_of_lookup looked member nonempty)
      have listed := bound.outline.mem_ancestors_of_lookup looked
      have enclosed := bound.outline.mem_ancestors_of_le listed around (Nat.le_of_lt further)
      exact absurd (hit_of_meetsAt met looked enclosed).1 (Nat.ne_of_gt further)

/-- No variable or type can share a name and a name space with another one of its scope. -/
theorem clashes_of_ne (noMethod : renamed.kind ≠ .method) {other : DeclarationId} (different : other ≠ target)
    (declared : (bound.outline.declaration? other).isSome = true) : bound.clashes target renamed other = true := by
  obtain ⟨declaration, found⟩ := Option.isSome_iff_exists.mp declared
  unfold clashes
  rw [found]
  simp [different, noMethod]

variable (found : bound.outline.declaration? target = some renamed) (noMethod : renamed.kind ≠ .method)
  (different : renamed.name ≠ newName)

include found noMethod different

theorem clashes_of_declaredIn [bound.outline.Registered] {scope : ScopeId} {space : NameSpace} {other : DeclarationId}
    (member : other ∈ bound.outline.declaredIn scope newName space) : bound.clashes target renamed other = true := by
  obtain ⟨declaration, declared, _, named, _⟩ := bound.outline.mem_declaredIn.mp member
  apply clashes_of_ne noMethod
  · intro same
    rw [same, found] at declared
    cases declared
    exact different named
  · rw [declared]
    rfl

/-- From a place where the target is looked up, the nearest scope with the new name lies outside the target's. -/
theorem outside_of_meetsAt [bound.outline.Registered] {scope hit : ScopeId} {hidden candidates : List DeclarationId}
    (met : bound.meetsAt target renamed newName (.lexical scope) = .ok hidden)
    (looked : bound.outline.lookup scope newName renamed.kind.space none = some (hit, candidates)) :
    renamed.scope ∉ bound.outline.ancestors hit := by
  intro inside
  obtain ⟨_, _, _, _, shown, nonempty⟩ := bound.outline.lookup_eq_some_iff.mp looked
  have within : bound.outline.isWithin hit renamed.scope = true := List.contains_iff_mem.mpr inside
  simp only [meetsAt, looked, within, if_true] at met
  split at met
  · cases met
  · rename_i nothing
    obtain ⟨first, rest, shape⟩ := List.exists_cons_of_ne_nil nonempty
    have member : first ∈ candidates := shape ▸ List.mem_cons_self
    have clash := clashes_of_declaredIn found noMethod different (bound.outline.mem_of_lookup looked member)
    have refuted := List.find?_eq_none.mp nothing first member
    rw [clash] at refuted
    simp at refuted

/-- From a place where the target is looked up, no scope up to the target's has anything under the new name. -/
theorem declaredIn_eq_nil_of_meetsAt [bound.outline.Registered] {scope between : ScopeId} {hidden : List DeclarationId}
    (met : bound.meetsAt target renamed newName (.lexical scope) = .ok hidden)
    (around : renamed.scope ∈ bound.outline.ancestors scope) (member : between ∈ bound.outline.ancestors scope)
    (upTo : renamed.scope ≤ between) : bound.outline.declaredIn between newName renamed.kind.space = [] := by
  by_contra nonempty
  rw [← Outline.visibleIn_none] at nonempty
  cases looked : bound.outline.lookup scope newName renamed.kind.space none with
  | none => exact nonempty (bound.outline.lookup_eq_none_iff.mp looked between member)
  | some found =>
      obtain ⟨hit, candidates⟩ := found
      have listed := bound.outline.mem_ancestors_of_lookup looked
      have reached := bound.outline.le_of_lookup looked member nonempty
      have inside := bound.outline.mem_ancestors_of_le listed around (Nat.le_trans upTo reached)
      exact outside_of_meetsAt found noMethod different met looked inside

theorem declaredIn_eq_nil [bound.outline.Registered]
    (judged : bound.verdict strict target renamed newName = .ok verdict) :
    bound.outline.declaredIn renamed.scope newName renamed.kind.space = [] := by
  obtain ⟨hidden, met⟩ := (verdict_eq_ok judged).1 _ (own_site target renamed)
  have own := bound.outline.self_mem_ancestors renamed.scope
  exact declaredIn_eq_nil_of_meetsAt found noMethod different met own own (Nat.le_refl _)

/-- From a place where the target is looked up, the new name leads to the renamed target once that is visible. -/
theorem lookup_withName_target [bound.outline.Registered] {scope : ScopeId} {hidden : List DeclarationId}
    {offset : Option Nat}
    (met : bound.meetsAt target renamed newName (.lexical scope) = .ok hidden)
    (around : renamed.scope ∈ bound.outline.ancestors scope)
    (seen : bound.outline.isVisible target offset = true) :
    (bound.outline.withName target newName).lookup scope newName renamed.kind.space offset =
      some (renamed.scope, [target]) := by
  refine Outline.lookup_withName_of_empty found around ?_ seen
  intro between member upTo
  unfold Outline.visibleIn
  rw [declaredIn_eq_nil_of_meetsAt found noMethod different met around member upTo]
  rfl

/-- Where the target is looked up and found, the new name leads to the renamed target alone. -/
theorem found_withName_target [bound.outline.Registered]
    (judged : bound.verdict strict target renamed newName = .ok verdict) {site : Lookup}
    (checked : site ∈ bound.sites target renamed) {name : String} {offset : Nat}
    (hit : target ∈ bound.outline.found site name renamed.kind.space offset) :
    (bound.outline.withName target newName).found site newName renamed.kind.space offset = [target] := by
  have empty := declaredIn_eq_nil found noMethod different judged
  obtain ⟨hidden, met⟩ := (verdict_eq_ok judged).1 site checked
  cases site with
  | foreign => cases hit
  | path => cases hit
  | member type =>
      obtain ⟨declaration, declared, scope, _⟩ := bound.outline.mem_declaredIn.mp hit
      rw [found] at declared
      cases declared
      rw [← Outline.visibleIn_none] at empty
      simp only [Outline.found]
      rw [← scope, ← Outline.visibleIn_none]
      exact Outline.withName_visibleIn_target found empty rfl
  | lexical scope =>
      simp only [Outline.found] at hit ⊢
      cases looked : bound.outline.lookup scope name renamed.kind.space (some offset) with
      | none =>
          rw [looked] at hit
          cases hit
      | some result =>
          obtain ⟨stop, candidates⟩ := result
          rw [looked] at hit
          obtain ⟨_, _, _, _, shown, _⟩ := bound.outline.lookup_eq_some_iff.mp looked
          have visible : target ∈ bound.outline.visibleIn stop name renamed.kind.space (some offset) := by
            rw [shown]
            exact hit
          obtain ⟨⟨declaration, declared, sameScope, _⟩, seen⟩ := Outline.mem_visibleIn.mp visible
          rw [found] at declared
          cases declared
          subst sameScope
          rw [lookup_withName_target found noMethod different met (bound.outline.mem_ancestors_of_lookup looked) seen]
          rfl

/-- A planned use finds exactly the target under the new name, where it was looked up. -/
theorem found_of_planned [bound.outline.Registered] (judged : bound.verdict strict target renamed newName = .ok verdict)
    {reference : Reference} (used : reference ∈ bound.references.toList)
    (resolved : reference.resolution = .resolved target) (space : reference.space = renamed.kind.space)
    {offset : Nat}
    (explained : bound.outline.Explains reference.space
      (bound.outline.found reference.lookup reference.name reference.space offset) reference.resolution) :
    (bound.outline.withName target newName).found reference.lookup newName reference.space offset = [target] := by
  have hit : bound.outline.found reference.lookup reference.name reference.space offset = [target] := by
    rw [resolved] at explained
    rcases explained with ⟨_, candidates⟩ | ⟨_, unbound | ⟨value, _, types⟩⟩
    · exact candidates.symm
    · cases unbound
    · obtain ⟨declaration, declared, kind⟩ := types target List.mem_cons_self
      rw [found] at declared
      cases declared
      rw [space, kind] at value
      cases value
  rw [space] at hit ⊢
  have checked := use_site (mem_referencesTo.mpr ⟨used, resolved⟩) renamed
  exact found_withName_target found noMethod different judged checked (hit ▸ List.mem_cons_self)

omit different noMethod in
/-- A use of the new name that would see the renamed target is captured if it is unbound or denotes only declarations
outside the target's scope. -/
theorem captured_of_outside {reference : Reference} {scope : ScopeId} (named : reference.name = newName)
    (space : reference.space = renamed.kind.space) (site : reference.lookup = .lexical scope)
    (around : renamed.scope ∈ bound.outline.ancestors scope)
    (visible : bound.outline.isVisible target (some (bound.outline.startOf reference.position)) = true)
    (outside : reference.resolution.isBound = false ∨
      reference.resolution.candidates ≠ [] ∧
        ∀ id ∈ reference.resolution.candidates, bound.isOutside renamed id = true) :
    bound.captured? renamed newName reference ≠ none := by
  have compatible : isCompatible renamed.kind.space reference = true := by
    unfold isCompatible
    rw [space, beq_self_eq_true]
    rfl
  have within : bound.outline.isWithin scope renamed.scope = true := List.contains_iff_mem.mpr around
  have declaredBefore : (renamed.kind == .localVariable && decide
      (bound.outline.startOf reference.position < bound.outline.startOf renamed.position)) = false := by
    unfold Outline.isVisible at visible
    rw [found] at visible
    simp only [Option.any_some, Bool.or_eq_true, bne_iff_ne, decide_eq_true_eq] at visible
    rcases visible with otherKind | before
    · rw [beq_eq_false_iff_ne.mpr otherKind]
      rfl
    · rw [decide_eq_false (by omega), Bool.and_false]
  unfold captured?
  rw [named, bne_self_eq_false, compatible, site]
  simp only [Bool.not_true, Bool.or_self, Bool.false_eq_true, if_false, within, declaredBefore]
  rcases outside with unbound | ⟨nonempty, all⟩
  · cases resolution : reference.resolution with
    | resolved id => rw [resolution] at unbound; cases unbound
    | ambiguous candidates => rw [resolution] at unbound; cases unbound
    | external declaration => simp
    | unresolved => simp
  · cases resolution : reference.resolution with
    | resolved id =>
        rw [resolution] at all
        simp [all id List.mem_cons_self]
    | ambiguous candidates =>
        rw [resolution] at all nonempty
        obtain ⟨first, rest, shape⟩ := List.exists_cons_of_ne_nil nonempty
        have member : first ∈ candidates := by
          rw [show candidates = first :: rest from shape]
          exact List.mem_cons_self
        intro nothing
        have none := List.find?_eq_none.mp (Option.map_eq_none_iff.mp nothing) first member
        exact none (all first member)
    | external declaration => rw [resolution] at nonempty; exact absurd rfl nonempty
    | unresolved => rw [resolution] at nonempty; exact absurd rfl nonempty

omit different noMethod in
/-- A use that is not captured was looked up no further out than any scope that shows the renamed target. -/
theorem lookup_inside_of_free [bound.outline.Registered] {reference : Reference} {scope outer : ScopeId}
    (free : bound.captured? renamed newName reference = none)
    (empty : bound.outline.declaredIn renamed.scope newName renamed.kind.space = [])
    (space : reference.space = renamed.kind.space) (site : reference.lookup = .lexical scope)
    (explained : bound.outline.Explains reference.space
      (bound.outline.found (.lexical scope) reference.name reference.space (bound.outline.startOf reference.position))
      reference.resolution)
    (noType : ¬(reference.space = .value ∧ bound.outline.DenotesType reference.resolution))
    (member : outer ∈ bound.outline.ancestors scope)
    (gained : target ∈ (bound.outline.withName target newName).visibleIn outer reference.name reference.space
      (some (bound.outline.startOf reference.position))) :
    ∃ hit candidates, bound.outline.lookup scope reference.name reference.space
        (some (bound.outline.startOf reference.position)) =
      some (hit, candidates) ∧ outer < hit := by
  obtain ⟨⟨sameScope, sameName, _⟩, visible⟩ := (Outline.target_mem_visibleIn_withName found).mp gained
  have captured := captured_of_outside found sameName.symm space site (sameScope ▸ member) visible
  simp only [Outline.found] at explained
  cases looked : bound.outline.lookup scope reference.name reference.space
      (some (bound.outline.startOf reference.position)) with
  | none =>
      rw [looked] at explained
      exact absurd free (captured (Or.inl (explained.unbound rfl noType)))
  | some result =>
      obtain ⟨hit, candidates⟩ := result
      refine ⟨hit, candidates, rfl, ?_⟩
      obtain ⟨_, _, _, _, shown, nonempty⟩ := bound.outline.lookup_eq_some_iff.mp looked
      by_contra notInside
      have listed := bound.outline.mem_ancestors_of_lookup looked
      have around := bound.outline.mem_ancestors_of_le member listed (Nat.not_lt.mp notInside)
      have apart : hit ≠ renamed.scope := by
        intro same
        apply nonempty
        rw [← shown, same, ← sameName, space]
        unfold Outline.visibleIn
        rw [empty]
        rfl
      have sameCandidates : reference.resolution.candidates = candidates := by
        rw [looked] at explained
        exact explained.candidates_eq nonempty
      refine captured (Or.inr ⟨sameCandidates ▸ nonempty, ?_⟩) free
      intro id candidate
      rw [sameCandidates] at candidate
      obtain ⟨declaration, declared, inHit, _⟩ :=
        bound.outline.mem_declaredIn.mp (bound.outline.mem_of_lookup looked candidate)
      unfold isOutside
      rw [declared, Option.any_some, inHit, Bool.and_eq_true, bne_iff_ne]
      refine ⟨apart, List.contains_iff_mem.mpr ?_⟩
      rw [sameScope]
      exact around

/-- A use that is not planned finds what it found before, where it was looked up. -/
theorem found_of_not_planned [bound.outline.Registered]
    (judged : bound.verdict strict target renamed newName = .ok verdict)
    {reference : Reference} (used : reference ∈ bound.references.toList)
    (other : target ∉ reference.resolution.candidates) (space : reference.space = renamed.kind.space)
    (explained : bound.outline.Explains reference.space
      (bound.outline.found reference.lookup reference.name reference.space (bound.outline.startOf reference.position))
      reference.resolution)
    (noType : ¬(reference.space = .value ∧ bound.outline.DenotesType reference.resolution)) :
    (bound.outline.withName target newName).found reference.lookup reference.name reference.space
        (bound.outline.startOf reference.position) =
      bound.outline.found reference.lookup reference.name reference.space (bound.outline.startOf reference.position) := by
  have free := (verdict_eq_ok judged).2 reference used
  have empty := declaredIn_eq_nil found noMethod different judged
  have missed : target ∉ bound.outline.found reference.lookup reference.name reference.space
      (bound.outline.startOf reference.position) := by
    intro member
    rw [← explained.candidates_eq (List.ne_nil_of_mem member)] at member
    exact other member
  cases site : reference.lookup with
  | foreign => rfl
  | path => rfl
  | member type =>
      rw [site] at missed explained
      simp only [Outline.found] at missed explained ⊢
      rw [← Outline.visibleIn_none, ← Outline.visibleIn_none]
      rw [← Outline.visibleIn_none] at missed explained
      apply Outline.withName_visibleIn missed
      · intro member
        obtain ⟨⟨sameScope, sameName, sameSpace⟩, _⟩ := (Outline.target_mem_visibleIn_withName found).mp member
        -- the use finds no member of the type yet, so the new name would capture it, which the verdict excludes
        have nothing : bound.outline.visibleIn type reference.name reference.space none = [] := by
          rw [Outline.visibleIn_none, ← sameScope, ← sameName, ← sameSpace]
          exact empty
        have unresolved := explained.unbound nothing noType
        unfold captured? isCompatible at free
        simp [site, sameName, sameScope, space, unresolved] at free
  | lexical scope =>
      rw [site] at missed explained
      simp only [Outline.found] at missed ⊢
      suffices same : (bound.outline.withName target newName).lookup scope reference.name reference.space
          (some (bound.outline.startOf reference.position)) =
          bound.outline.lookup scope reference.name reference.space (some (bound.outline.startOf reference.position)) by
            rw [same]
      apply Outline.lookup_withName_eq
      intro outer member
      by_cases lost : target ∈ bound.outline.visibleIn outer reference.name reference.space
          (some (bound.outline.startOf reference.position))
      · -- the level shows the target, so the lookup stopped further in
        right
        apply bound.outline.lookup_inside_of_visible member lost
        intro hit candidates looked candidate
        rw [looked] at missed
        exact missed candidate
      · by_cases gained : target ∈ (bound.outline.withName target newName).visibleIn outer reference.name
            reference.space (some (bound.outline.startOf reference.position))
        · -- the level would now show the target, so again the lookup stopped further in
          right
          exact lookup_inside_of_free found free empty space site explained noType member gained
        · exact Or.inl (Outline.withName_visibleIn lost gained)

end BoundOutline

/-- An accepted plan that changes the name of a type or variable is hygienic. Take a use of the target's name space
that is looked up in this file and is not a value denoting a type. With the target renamed in the outline and the
lookup redone in its recorded place, where the use starts, a planned use finds exactly the target under the new name,
and any other use finds what it found before. -/
theorem accepted_plan_hygienic {source newName : String} {index : ProjectIndex} {analysis : Analysis}
    {options : RenameOptions} {target : DeclarationId} {plan : RenamePlan} {renamed : Declaration}
    (analysed : Analysis.ofText source index = .ok analysis)
    (planned : analysis.planFor options target newName = .ok plan)
    (found : analysis.bound.outline.declaration? target = some renamed) (noMethod : renamed.kind ≠ .method)
    (changes : plan.isIdentity = false) {reference : Reference}
    (used : reference ∈ analysis.bound.references.toList) (site : reference.lookup.isLocal = true)
    (space : reference.space = renamed.kind.space)
    (noType : ¬(reference.space = .value ∧ analysis.bound.outline.DenotesType reference.resolution)) :
    (analysis.layout.span reference.position ∈ plan.spans →
      (analysis.bound.outline.withName target newName).found reference.lookup newName renamed.kind.space
          (analysis.layout.span reference.position).start =
        [target]) ∧
    (analysis.layout.span reference.position ∉ plan.spans →
      (analysis.bound.outline.withName target newName).found reference.lookup reference.name renamed.kind.space
          (analysis.layout.span reference.position).start =
        analysis.bound.outline.found reference.lookup reference.name renamed.kind.space
          (analysis.layout.span reference.position).start) := by
  obtain ⟨_, _, _, _, bound, _⟩ := Analysis.ofText_eq_ok analysed
  obtain ⟨accepted, plannedWords, placed⟩ := Analysis.planFor_eq_ok planned
  obtain ⟨_, unambiguous, declaration, declared, shape, verdict⟩ := BoundOutline.planFor_eq_ok plannedWords
  rw [found] at declared
  cases declared
  have different : renamed.name ≠ newName := by
    rw [placed, shape] at changes
    exact beq_eq_false_iff_ne.mp changes
  have judged : analysis.bound.verdict options.strictShadowing target renamed newName = .ok accepted.verdict := by
    rcases verdict with ⟨same, _⟩ | ⟨_, judged⟩
    · exact absurd same different
    · exact judged
  have explained : analysis.bound.outline.Explains reference.space
      (analysis.bound.outline.found reference.lookup reference.name reference.space
        (analysis.bound.outline.startOf reference.position))
      reference.resolution := by
    rw [bound] at used ⊢
    refine analysis.code.reference_explained _ index used site ?_
    rw [space]
    exact fun method => noMethod (DeclarationKind.space_eq_method.mp method)
  have := Analysis.registered analysed
  rw [← Analysis.startOf_eq analysed, ← space]
  constructor
  · intro chosen
    have resolved : reference.resolution = .resolved target := by
      by_contra other
      exact Analysis.other_use_not_planned analysed planned used other chosen
    exact BoundOutline.found_of_planned found noMethod different judged used resolved space explained
  · intro unplanned
    refine BoundOutline.found_of_not_planned found noMethod different judged used ?_ space explained noType
    intro candidate
    rcases Resolution.mem_candidates candidate with resolved | ⟨candidates, several, member⟩
    · exact unplanned ((Analysis.mem_spans planned _).mpr (Or.inr ⟨reference, used, resolved, rfl⟩))
    · exact BoundOutline.not_mem_of_ambiguousWith unambiguous used several member

/-- A field and its use, with a parameter used beside it. -/
theorem accepted_plan_hygienic_field :
    ∃ analysis plan renamed use other,
      Analysis.ofText "class A { int x; int f(int y) { return x + y; } }" ProjectIndex.empty = .ok analysis ∧
      analysis.planFor {} 1 "size" = .ok plan ∧
      analysis.bound.outline.declaration? 1 = some renamed ∧ renamed.kind = .field ∧
      use ∈ analysis.bound.references.toList ∧ analysis.layout.span use.position ∈ plan.spans ∧
      (analysis.bound.outline.withName 1 "size").found use.lookup "size" renamed.kind.space
          (analysis.layout.span use.position).start = [1] ∧
      other ∈ analysis.bound.references.toList ∧ other.name = "y" ∧
      (analysis.bound.outline.withName 1 "size").found other.lookup other.name renamed.kind.space
          (analysis.layout.span other.position).start =
        analysis.bound.outline.found other.lookup other.name renamed.kind.space
          (analysis.layout.span other.position).start := by
  have computed :
      ((Analysis.ofText "class A { int x; int f(int y) { return x + y; } }" ProjectIndex.empty).toOption.any
        fun analysis => (analysis.planFor {} 1 "size").toOption.any fun plan =>
          (analysis.bound.outline.declaration? 1).any fun renamed =>
            (renamed.kind == .field && !plan.isIdentity)
              && (analysis.bound.references.toList.any (fun use =>
                use.lookup.isLocal && use.space == .value && use.resolution == .resolved 1))
              && analysis.bound.references.toList.any (fun other =>
                other.lookup.isLocal && other.space == .value && other.resolution == .resolved 3
                  && other.name == "y"
                  && (analysis.bound.outline.declaration? 3).any (·.kind != .type))) = true := by
    decide +kernel
  obtain ⟨analysis, analysed, further⟩ := exists_ok_of_any computed
  obtain ⟨plan, planned, facts⟩ := exists_ok_of_any further
  obtain ⟨renamed, found, facts⟩ := (Option.any_eq_true _ _).mp facts
  simp only [Bool.and_eq_true, beq_iff_eq, Bool.not_eq_true', List.any_eq_true] at facts
  obtain ⟨⟨⟨field, changes⟩, use, used, ⟨useSite, useSpace⟩, resolved⟩,
    other, otherUsed, ⟨⟨⟨otherSite, otherSpace⟩, otherResolved⟩, named⟩, otherKind⟩ := facts
  have value : renamed.kind.space = .value := by rw [field]; rfl
  have noMethod : renamed.kind ≠ .method := by rw [field]; decide
  have chosen : analysis.layout.span use.position ∈ plan.spans :=
    (Analysis.mem_spans planned _).mpr (Or.inr ⟨use, used, resolved, rfl⟩)
  have unplanned : analysis.layout.span other.position ∉ plan.spans :=
    Analysis.other_use_not_planned analysed planned otherUsed (by rw [otherResolved]; decide)
  have useNoType : ¬(use.space = .value ∧ analysis.bound.outline.DenotesType use.resolution) := by
    rintro ⟨_, _, types⟩
    obtain ⟨declaration, declared, kind⟩ := types 1 (by rw [resolved]; exact List.mem_cons_self)
    rw [found] at declared
    cases declared
    rw [field] at kind
    cases kind
  have otherNoType : ¬(other.space = .value ∧ analysis.bound.outline.DenotesType other.resolution) := by
    rintro ⟨_, _, types⟩
    obtain ⟨declaration, declared, kind⟩ := types 3 (by rw [otherResolved]; exact List.mem_cons_self)
    rw [declared, Option.any_some, kind] at otherKind
    cases otherKind
  exact ⟨analysis, plan, renamed, use, other, analysed, planned, found, field, used, chosen,
    (accepted_plan_hygienic analysed planned found noMethod changes used useSite (useSpace.trans value.symm)
      useNoType).1 chosen,
    otherUsed, named,
    (accepted_plan_hygienic analysed planned found noMethod changes otherUsed otherSite
      (otherSpace.trans value.symm) otherNoType).2 unplanned⟩

end ScopedRename
