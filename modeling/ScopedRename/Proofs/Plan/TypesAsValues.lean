import ScopedRename.Proofs.Binding.Replay
import ScopedRename.Proofs.Plan.Hygiene

/-!
Types used as values, as in `Shape.count`. Such a use belongs to two name spaces: it is searched for among values, and
among types only if no value is found. A plan is checked in the name space of its target alone. Main statement: with the
target renamed, a type used as a value is found again exactly if neither name space brings up something else first.
-/

namespace ScopedRename

namespace Outline

variable (outline : Outline) (index : ProjectIndex)

/-- What a name used as a value can mean where it is looked up: values, or types if there are none. -/
def searched (site : Lookup) (name : String) (offset : Nat) : List DeclarationId :=
  match outline.found site name .value offset with
  | [] => outline.found site name .type offset
  | values => values

theorem searched_eq_of_nil {site : Lookup} {name : String} {offset : Nat}
    (none : outline.found site name .value offset = []) :
    outline.searched site name offset = outline.found site name .type offset := by
  unfold searched
  rw [none]

theorem searched_eq_of_ne_nil {site : Lookup} {name : String} {offset : Nat}
    (some : outline.found site name .value offset ≠ []) :
    outline.searched site name offset = outline.found site name .value offset := by
  unfold searched
  split
  · contradiction
  · rfl

theorem declared_of_mem_found [outline.Registered] {site : Lookup} {name : String} {space : NameSpace} {offset : Nat}
    {id : DeclarationId}
    (member : id ∈ outline.found site name space offset) :
    ∃ declaration, outline.declaration? id = some declaration ∧ declaration.name = name ∧
      declaration.kind.space = space := by
  cases site with
  | lexical scope =>
      simp only [found] at member
      cases looked : outline.lookup scope name space (some offset) with
      | none =>
          rw [looked] at member
          cases member
      | some hit =>
          rw [looked] at member
          obtain ⟨declaration, declared, _, facts⟩ := outline.mem_declaredIn.mp (outline.mem_of_lookup looked member)
          exact ⟨declaration, declared, facts⟩
  | member type =>
      obtain ⟨declaration, declared, _, facts⟩ := outline.mem_declaredIn.mp member
      exact ⟨declaration, declared, facts⟩
  | foreign => cases member
  | path => cases member

/-- The search ends at a type if it meets no value and that is the one type it meets. -/
theorem searched_eq_type_iff [outline.Registered] {site : Lookup} {name : String} {offset : Nat}
    {denoted : DeclarationId}
    {declaration : Declaration} (declared : outline.declaration? denoted = some declaration)
    (type : declaration.kind = .type) :
    outline.searched site name offset = [denoted] ↔
      outline.found site name .value offset = [] ∧ outline.found site name .type offset = [denoted] := by
  constructor
  · intro searched
    by_cases none : outline.found site name .value offset = []
    · exact ⟨none, outline.searched_eq_of_nil none ▸ searched⟩
    · rw [outline.searched_eq_of_ne_nil none] at searched
      have member : denoted ∈ outline.found site name .value offset := searched ▸ List.mem_cons_self
      obtain ⟨other, declaredOther, _, space⟩ := outline.declared_of_mem_found member
      rw [declared] at declaredOther
      cases declaredOther
      rw [type] at space
      cases space
  · rintro ⟨none, types⟩
    rw [outline.searched_eq_of_nil none, types]

theorem bindBareName_searched (scope : ScopeId) (name : String) (offset : Nat) :
    (outline.bindBareName index scope name ⟨.value, none⟩ offset).candidates =
      outline.searched (.lexical scope) name offset := by
  simp only [bindBareName, searched, found]
  cases looked : outline.lookup scope name .value (some offset) with
  | some hit =>
      obtain ⟨outer, candidates⟩ := hit
      obtain ⟨_, _, _, _, _, nonempty⟩ := outline.lookup_eq_some_iff.mp looked
      obtain ⟨first, rest, shape⟩ := List.exists_cons_of_ne_nil nonempty
      rw [shape]
      exact outline.choose_none_candidates (first :: rest)
  | none =>
      dsimp only [Option.elim]
      rw [if_pos trivial]
      cases outline.lookup scope name .type (some offset) with
      | some hit => exact outline.choose_none_candidates hit.2
      | none => exact externalMember_candidates index _ name

theorem bindMember_searched (type : ScopeId) (name : String) (offset : Nat) :
    (outline.bindMember index (.localType type) name ⟨.value, none⟩).2.candidates =
      outline.searched (.member type) name offset := by
  have same : outline.members type name .value = outline.searched (.member type) name offset := by
    unfold members searched
    rw [if_pos rfl]
    rfl
  simp only [bindMember]
  rw [← same]
  cases outline.members type name .value with
  | nil => exact externalMember_candidates index _ name
  | cons first rest => exact outline.choose_none_candidates (first :: rest)

end Outline

/-- What a use as a value may denote is what the search for it finds, where it was looked up. -/
theorem Code.reference_searched (code : Code) (outline : Outline) (index : ProjectIndex) {reference : Reference}
    (used : reference ∈ (code.references outline index).toList) (value : reference.space = .value) :
    reference.resolution.candidates =
      outline.searched reference.lookup reference.name (outline.startOf reference.position) := by
  obtain ⟨_, same⟩ := (code.referenceAt?_eq_some outline index).mp ((code.mem_references outline index).mp used)
  generalize reference.position = position at same
  subst same
  dsimp only at value ⊢
  have usage := code.usageAt_eq outline position (by rw [value]; decide)
  rw [value] at usage
  rw [bindingAt]
  split
  · rfl
  · dsimp only
    rw [usage]
    split
    · cases code.receiverAt outline index (position - 2) with
      | localType type =>
          rw [show (outline.bindMember index (.localType type) (code.text position) ⟨.value, none⟩).1 = .member type by
            rw [Outline.bindMember_localType]]
          exact outline.bindMember_searched index type _ _
      | named type => exact Outline.externalMember_candidates index _ _
      | inherited types => exact Outline.externalMember_candidates index _ _
      | unknown => rfl
    · exact outline.bindBareName_searched index _ _ _

/-! ### Searching with the target renamed -/

namespace Outline

variable {outline : Outline} {target : DeclarationId} {renamed : Declaration} {newName : String}

def Reaches (outline : Outline) (site : Lookup) (target : DeclarationId) (renamed : Declaration) (offset : Nat) :
    Prop :=
  match site with
  | .lexical scope => renamed.scope ∈ outline.ancestors scope ∧ outline.isVisible target (some offset) = true
  | .member type => type = renamed.scope
  | .foreign | .path => False

/-- A search that missed the target before and cannot see it under the new name finds what it found. -/
theorem found_withName_eq [outline.Registered] (found : outline.declaration? target = some renamed) {site : Lookup}
    {name : String}
    {space : NameSpace} {offset : Nat} (missed : target ∉ outline.found site name space offset)
    (unseen : ¬ (newName = name ∧ renamed.kind.space = space ∧ outline.Reaches site target renamed offset)) :
    (outline.withName target newName).found site name space offset = outline.found site name space offset := by
  cases site with
  | foreign => rfl
  | path => rfl
  | member type =>
      simp only [Outline.found] at missed ⊢
      rw [← visibleIn_none] at missed
      rw [← visibleIn_none, ← visibleIn_none]
      apply withName_visibleIn missed
      intro gained
      obtain ⟨⟨sameScope, sameName, sameSpace⟩, _⟩ := (target_mem_visibleIn_withName found).mp gained
      exact unseen ⟨sameName, sameSpace, sameScope.symm⟩
  | lexical scope =>
      simp only [Outline.found] at missed ⊢
      suffices same : (outline.withName target newName).lookup scope name space (some offset) =
          outline.lookup scope name space (some offset) by rw [same]
      apply lookup_withName_eq
      intro outer member
      by_cases lost : target ∈ outline.visibleIn outer name space (some offset)
      · -- the level shows the target, so the lookup stopped further in
        right
        apply outline.lookup_inside_of_visible member lost
        intro hit candidates looked candidate
        rw [looked] at missed
        exact missed candidate
      · left
        apply withName_visibleIn lost
        intro gained
        obtain ⟨⟨sameScope, sameName, sameSpace⟩, visible⟩ := (target_mem_visibleIn_withName found).mp gained
        exact unseen ⟨sameName, sameSpace, sameScope ▸ member, visible⟩

/-- A search from where the renamed target can be seen finds something under the new name. -/
theorem found_withName_ne_nil [outline.Registered] (found : outline.declaration? target = some renamed) {site : Lookup}
    {offset : Nat}
    (reaches : outline.Reaches site target renamed offset) :
    (outline.withName target newName).found site newName renamed.kind.space offset ≠ [] := by
  have shown {seen : Option Nat} (visible : outline.isVisible target seen = true) :
      target ∈ (outline.withName target newName).visibleIn renamed.scope newName renamed.kind.space seen :=
    (target_mem_visibleIn_withName found).mpr ⟨⟨rfl, rfl, rfl⟩, visible⟩
  cases site with
  | foreign => cases reaches
  | path => cases reaches
  | member type =>
      have same : type = renamed.scope := reaches
      simp only [Outline.found]
      rw [same, ← visibleIn_none]
      exact List.ne_nil_of_mem (shown rfl)
  | lexical scope =>
      obtain ⟨around, visible⟩ := reaches
      simp only [Outline.found]
      cases looked : (outline.withName target newName).lookup scope newName renamed.kind.space (some offset) with
      | none =>
          rw [lookup_eq_none_iff, withName_ancestors] at looked
          exact absurd (looked renamed.scope around) (List.ne_nil_of_mem (shown visible))
      | some hit =>
          obtain ⟨stop, candidates⟩ := hit
          obtain ⟨_, _, _, _, _, nonempty⟩ := (lookup_eq_some_iff _).mp looked
          exact nonempty

end Outline

namespace BoundOutline

/-- With the target renamed, the search for a type used as a value meets something else before the type it denotes. -/
inductive Overtakes (bound : BoundOutline) (target : DeclarationId) (renamed : Declaration) (newName : String)
    (reference : Reference) (denoted : DeclarationId) : Prop where
  /-- The use is renamed with the target, and a value has the new name. -/
  | respelled (planned : denoted = target)
      (value : bound.outline.found reference.lookup newName .value (bound.outline.startOf reference.position) ≠ [])
  /-- The use has the new name, and the target is a value that can be seen from it. -/
  | byValue (other : denoted ≠ target) (spelled : reference.name = newName) (value : renamed.kind.space = .value)
      (seen : bound.outline.Reaches reference.lookup target renamed (bound.outline.startOf reference.position))
  /-- The use has the new name, and the target is a type nearer to it than the one it denotes. -/
  | byType (other : denoted ≠ target) (spelled : reference.name = newName) (type : renamed.kind = .type)
      (seen : bound.outline.Reaches reference.lookup target renamed (bound.outline.startOf reference.position))
      (nearer : bound.isOutside renamed denoted = true)

variable {bound : BoundOutline} {strict : Bool} {target denoted : DeclarationId} {renamed declaration : Declaration}
  {newName : String} {verdict : Verdict} (found : bound.outline.declaration? target = some renamed)

omit found in
/-- A use that is not renamed is overtaken only where it sees the target under its own name. -/
theorem overtakes_iff_of_ne (other : denoted ≠ target) {reference : Reference} :
    bound.Overtakes target renamed newName reference denoted ↔
      (reference.name = newName ∧
          bound.outline.Reaches reference.lookup target renamed (bound.outline.startOf reference.position)) ∧
        (renamed.kind.space = .value ∨ renamed.kind = .type ∧ bound.isOutside renamed denoted = true) := by
  constructor
  · intro overtaken
    cases overtaken with
    | respelled planned value => exact absurd planned other
    | byValue _ spelled value seen => exact ⟨⟨spelled, seen⟩, Or.inl value⟩
    | byType _ spelled type seen nearer => exact ⟨⟨spelled, seen⟩, Or.inr ⟨type, nearer⟩⟩
  · rintro ⟨⟨spelled, seen⟩, value | ⟨type, nearer⟩⟩
    · exact .byValue other spelled value seen
    · exact .byType other spelled type seen nearer

include found

/-- A renamed type is found under its new name where it was used as a value, unless a value has that name. -/
theorem searched_of_planned [bound.outline.Registered] (different : renamed.name ≠ newName)
    (type : renamed.kind = .type)
    (judged : bound.verdict strict target renamed newName = .ok verdict) {reference : Reference}
    (used : reference ∈ bound.references.toList) (resolved : reference.resolution = .resolved target) {offset : Nat}
    (hit : target ∈ bound.outline.found reference.lookup reference.name .type offset) :
    (bound.outline.withName target newName).searched reference.lookup newName offset = [target] ↔
      bound.outline.found reference.lookup newName .value offset = [] := by
  have noMethod : renamed.kind ≠ .method := by
    rw [type]
    decide
  have space : renamed.kind.space = .type := by
    rw [type]
    rfl
  have declaredAgain : (bound.outline.withName target newName).declaration? target =
      some { renamed with name := newName } := by
    rw [Outline.withName_declaration?, if_pos rfl, found]
    rfl
  have values : (bound.outline.withName target newName).found reference.lookup newName .value offset =
      bound.outline.found reference.lookup newName .value offset := by
    apply Outline.found_withName_eq found
    · intro member
      obtain ⟨other, declaredOther, named, _⟩ := bound.outline.declared_of_mem_found member
      rw [found] at declaredOther
      cases declaredOther
      exact different named
    · rintro ⟨_, value, _⟩
      rw [space] at value
      cases value
  have checked := use_site (mem_referencesTo.mpr ⟨used, resolved⟩) renamed
  have types := found_withName_target found noMethod different judged checked (space ▸ hit)
  rw [space] at types
  rw [Outline.searched_eq_type_iff _ declaredAgain type, values]
  exact and_iff_left types

section OwnName

variable (declared : bound.outline.declaration? denoted = some declaration) (type : declaration.kind = .type)
  (other : denoted ≠ target) {site : Lookup} {offset : Nat}

include declared other

omit other found in
/-- On the way out from a use, one of two declarations is nearer if its scope has the larger number. -/
private theorem isOutside_iff_lt {scope stop : ScopeId} (placed : declaration.scope = stop)
    (around : renamed.scope ∈ bound.outline.ancestors scope) (listed : stop ∈ bound.outline.ancestors scope)
    (apart : stop ≠ renamed.scope) : bound.isOutside renamed denoted = true ↔ stop < renamed.scope := by
  unfold isOutside
  rw [declared, Option.any_some, placed, Bool.and_eq_true, bne_iff_ne]
  constructor
  · rintro ⟨_, within⟩
    exact Nat.lt_of_le_of_ne (bound.outline.le_of_mem_ancestors (List.contains_iff_mem.mp within)) apart
  · intro before
    refine ⟨apart, List.contains_iff_mem.mpr ?_⟩
    exact bound.outline.mem_ancestors_of_le around listed (Nat.le_of_lt before)

omit declared other in
/-- A renamed type that is nearer than what a search found is found in its place. -/
private theorem lookup_of_nearer [bound.outline.Registered] {scope stop : ScopeId} {candidates : List DeclarationId}
    (kind : renamed.kind = .type)
    (around : renamed.scope ∈ bound.outline.ancestors scope)
    (visible : bound.outline.isVisible target (some offset) = true)
    (looked : bound.outline.lookup scope newName .type (some offset) = some (stop, candidates))
    (before : stop < renamed.scope) :
    (bound.outline.withName target newName).lookup scope newName .type (some offset) =
      some (renamed.scope, [target]) := by
  have space : renamed.kind.space = .type := by
    rw [kind]
    rfl
  rw [← space]
  refine Outline.lookup_withName_of_empty found around ?_ visible
  intro between member upTo
  by_contra shown
  rw [space] at shown
  have reached := bound.outline.le_of_lookup looked member shown
  exact Nat.lt_irrefl _ (Nat.lt_of_lt_of_le before (Nat.le_trans upTo reached))

omit declared other in
/-- A renamed declaration further out than what a search found does not change the search. -/
private theorem lookup_of_further [bound.outline.Registered] {scope stop : ScopeId} {candidates : List DeclarationId}
    {space : NameSpace}
    (different : renamed.name ≠ newName)
    (looked : bound.outline.lookup scope newName space (some offset) = some (stop, candidates))
    (further : renamed.scope < stop) :
    (bound.outline.withName target newName).lookup scope newName space (some offset) = some (stop, candidates) := by
  rw [← looked]
  apply Outline.lookup_withName_eq
  intro outer member
  by_cases own : outer = renamed.scope
  · exact Or.inr ⟨stop, candidates, looked, own ▸ further⟩
  · left
    apply Outline.withName_visibleIn
    · intro lost
      obtain ⟨⟨former, foundFormer, _, sameName, _⟩, _⟩ := Outline.mem_visibleIn.mp lost
      rw [found] at foundFormer
      cases foundFormer
      exact different sameName
    · intro gained
      obtain ⟨⟨sameScope, _⟩, _⟩ := (Outline.target_mem_visibleIn_withName found).mp gained
      exact own sameScope.symm

/-- Which of two types a search finds under the new name, if both can be seen: the renamed one if it is nearer. -/
theorem found_type_of_reached [bound.outline.Registered] (different : renamed.name ≠ newName)
    (kind : renamed.kind = .type)
    (empty : bound.outline.declaredIn renamed.scope newName .type = [])
    (seen : bound.outline.Reaches site target renamed offset)
    (hit : bound.outline.found site newName .type offset = [denoted]) :
    (bound.outline.withName target newName).found site newName .type offset = [denoted] ↔
      bound.isOutside renamed denoted = false := by
  cases site with
  | foreign => cases seen
  | path => cases seen
  | member scope =>
      have same : scope = renamed.scope := seen
      simp only [Outline.found] at hit
      rw [same, empty] at hit
      cases hit
  | lexical scope =>
      obtain ⟨around, visible⟩ := seen
      simp only [Outline.found] at hit ⊢
      cases looked : bound.outline.lookup scope newName .type (some offset) with
      | none =>
          rw [looked] at hit
          cases hit
      | some result =>
          obtain ⟨stop, candidates⟩ := result
          rw [looked] at hit
          have single : candidates = [denoted] := hit
          subst single
          have inside := bound.outline.mem_of_lookup looked List.mem_cons_self
          obtain ⟨declaredAgain, foundAgain, placed, named, _⟩ := bound.outline.mem_declaredIn.mp inside
          rw [declared] at foundAgain
          cases foundAgain
          -- the two types cannot share a scope, so one of them is nearer
          have apart : stop ≠ renamed.scope := by
            intro same
            rw [same, empty] at inside
            cases inside
          have outside := isOutside_iff_lt declared placed around (bound.outline.mem_ancestors_of_lookup looked) apart
          rcases Nat.lt_or_gt_of_ne apart with before | further
          · rw [lookup_of_nearer found kind around visible looked before, outside.mpr before]
            refine iff_of_false ?_ (fun impossible => by cases impossible)
            intro same
            exact other (List.cons.inj same).1.symm
          · rw [lookup_of_further found different looked further]
            refine iff_of_true rfl (Bool.eq_false_iff.mpr ?_)
            intro nearer
            exact Nat.lt_asymm further (outside.mp nearer)

include type

/-- A type used as a value under its own name is found again, unless the renamed target gets in the way. -/
theorem searched_of_not_planned [bound.outline.Registered] (different : renamed.name ≠ newName)
    (judged : bound.verdict strict target renamed newName = .ok verdict) {reference : Reference}
    (values : bound.outline.found reference.lookup reference.name .value (bound.outline.startOf reference.position) = [])
    (types :
      bound.outline.found reference.lookup reference.name .type (bound.outline.startOf reference.position) = [denoted]) :
    (bound.outline.withName target newName).searched reference.lookup reference.name
    (bound.outline.startOf reference.position) =
        [denoted] ↔
      ¬ bound.Overtakes target renamed newName reference denoted := by
  have declaredAgain : (bound.outline.withName target newName).declaration? denoted = some declaration := by
    rw [Outline.withName_declaration?, if_neg (Ne.symm other)]
    exact declared
  -- a name space in which the target does not appear under the new name is searched as before
  have noValue (unseen : ¬ (newName = reference.name ∧ renamed.kind.space = .value ∧
      bound.outline.Reaches reference.lookup target renamed (bound.outline.startOf reference.position))) :
      (bound.outline.withName target newName).found reference.lookup reference.name .value
          (bound.outline.startOf reference.position) =
        [] := by
    rw [Outline.found_withName_eq found (by rw [values]; exact List.not_mem_nil) unseen, values]
  have sameType (unseen : ¬ (newName = reference.name ∧ renamed.kind.space = .type ∧
      bound.outline.Reaches reference.lookup target renamed (bound.outline.startOf reference.position))) :
      (bound.outline.withName target newName).found reference.lookup reference.name .type
          (bound.outline.startOf reference.position) =
        [denoted] := by
    refine (Outline.found_withName_eq found ?_ unseen).trans types
    rw [types, List.mem_singleton]
    exact Ne.symm other
  rw [Outline.searched_eq_type_iff _ declaredAgain type, overtakes_iff_of_ne other]
  by_cases reached : reference.name = newName ∧
      bound.outline.Reaches reference.lookup target renamed (bound.outline.startOf reference.position)
  · rw [and_iff_right reached]
    obtain ⟨rfl, seen⟩ := reached
    cases space : renamed.kind.space with
    | value =>
        refine iff_of_false ?_ (fun free => free (Or.inl rfl))
        rintro ⟨nothing, _⟩
        rw [← space] at nothing
        exact Outline.found_withName_ne_nil found seen nothing
    | type =>
        have kind := DeclarationKind.space_eq_type.mp space
        have noMethod : renamed.kind ≠ .method := by
          rw [kind]
          decide
        have empty := declaredIn_eq_nil found noMethod different judged
        rw [space] at empty
        have nothing := noValue fun impossible => by rw [space] at impossible; cases impossible.2.1
        rw [and_iff_right nothing, found_type_of_reached found declared other different kind empty seen types,
          ← Bool.not_eq_true, not_iff_not]
        constructor
        · intro nearer
          exact Or.inr ⟨kind, nearer⟩
        · rintro (impossible | ⟨_, nearer⟩)
          · cases impossible
          · exact nearer
    | method =>
        refine iff_of_true ⟨noValue ?_, sameType ?_⟩ ?_
        · rintro ⟨_, impossible, _⟩
          rw [space] at impossible
          cases impossible
        · rintro ⟨_, impossible, _⟩
          rw [space] at impossible
          cases impossible
        · rintro (impossible | ⟨impossible, _⟩)
          · cases impossible
          · rw [impossible] at space
            cases space
  · refine iff_of_true ⟨noValue ?_, sameType ?_⟩ fun overtaken => reached overtaken.1
    · rintro ⟨spelled, _, seen⟩
      exact reached ⟨spelled.symm, seen⟩
    · rintro ⟨spelled, _, seen⟩
      exact reached ⟨spelled.symm, seen⟩

end OwnName

end BoundOutline

/-- Take an accepted plan that changes a name, and a use as a value that denotes a type. With the target renamed in the
outline and the search redone in the recorded place, values first and then types, under the new name for a planned use
and its own name for any other, the use finds that type again exactly if nothing overtakes it: no value has the new name
of a planned use, and the target is not put between another use and the type it denotes. -/
theorem type_use_kept_iff {source newName : String} {index : ProjectIndex} {analysis : Analysis}
    {options : RenameOptions} {target denoted : DeclarationId} {plan : RenamePlan} {renamed declaration : Declaration}
    (analysed : Analysis.ofText source index = .ok analysis)
    (planned : analysis.planFor options target newName = .ok plan)
    (found : analysis.bound.outline.declaration? target = some renamed) (changes : plan.isIdentity = false)
    {reference : Reference} (used : reference ∈ analysis.bound.references.toList) (value : reference.space = .value)
    (resolved : reference.resolution = .resolved denoted)
    (declared : analysis.bound.outline.declaration? denoted = some declaration) (type : declaration.kind = .type) :
    (analysis.bound.outline.withName target newName).searched reference.lookup
        (if analysis.layout.span reference.position ∈ plan.spans then newName else reference.name)
        (analysis.layout.span reference.position).start = [denoted] ↔
      ¬ analysis.bound.Overtakes target renamed newName reference denoted := by
  obtain ⟨_, _, _, _, bound, _⟩ := Analysis.ofText_eq_ok analysed
  obtain ⟨different, verdict, judged⟩ := Analysis.judged planned found changes
  have searched : analysis.bound.outline.searched reference.lookup reference.name
      (analysis.bound.outline.startOf reference.position) =
      [denoted] := by
    have candidates : reference.resolution.candidates =
        analysis.bound.outline.searched reference.lookup reference.name
          (analysis.bound.outline.startOf reference.position) := by
      rw [bound] at used ⊢
      exact analysis.code.reference_searched _ index used value
    rw [← candidates, resolved]
    rfl
  have := Analysis.registered analysed
  obtain ⟨values, types⟩ := (analysis.bound.outline.searched_eq_type_iff declared type).mp searched
  rw [← Analysis.startOf_eq analysed]
  by_cases same : denoted = target
  · subst same
    rw [found] at declared
    cases declared
    have chosen : analysis.layout.span reference.position ∈ plan.spans :=
      (Analysis.mem_spans planned _).mpr (Or.inr ⟨reference, used, resolved, rfl⟩)
    rw [if_pos chosen, BoundOutline.searched_of_planned found different type judged used resolved
      (types ▸ List.mem_cons_self)]
    constructor
    · intro free overtaken
      cases overtaken with
      | respelled _ taken => exact taken free
      | byValue other => exact other rfl
      | byType other => exact other rfl
    · intro free
      by_contra taken
      exact free (.respelled rfl taken)
  · have unplanned : analysis.layout.span reference.position ∉ plan.spans := by
      apply Analysis.other_use_not_planned analysed planned used
      rw [resolved]
      intro impossible
      exact same (Resolution.resolved.inj impossible)
    rw [if_neg unplanned]
    exact BoundOutline.searched_of_not_planned found declared type same different judged values types

/-- A type used as a value, and a field renamed beside it. -/
theorem type_use_kept_iff_field :
    ∃ analysis plan use,
      Analysis.ofText "class Foo { static int x; } class K { int a; int f() { return Foo.x + a; } }"
        ProjectIndex.empty = .ok analysis ∧
      analysis.planFor {} 3 "b" = .ok plan ∧ use ∈ analysis.bound.references.toList ∧ use.name = "Foo" ∧
      use.space = .value ∧ use.resolution = .resolved 0 ∧
      (analysis.bound.outline.withName 3 "b").searched use.lookup
        (if analysis.layout.span use.position ∈ plan.spans then "b" else use.name)
        (analysis.layout.span use.position).start = [0] := by
  have computed :
      ((Analysis.ofText "class Foo { static int x; } class K { int a; int f() { return Foo.x + a; } }"
          ProjectIndex.empty).toOption.any fun analysis =>
        (analysis.planFor {} 3 "b").toOption.any fun plan =>
          (!plan.isIdentity && (analysis.bound.outline.declaration? 3).isSome
              && (analysis.bound.outline.declaration? 0).any (·.kind == .type))
            && analysis.bound.references.toList.any fun use =>
              use.name == "Foo" && use.space == .value && use.resolution == .resolved 0) = true := by
    decide +kernel
  obtain ⟨analysis, analysed, further⟩ := exists_ok_of_any computed
  obtain ⟨plan, planned, facts⟩ := exists_ok_of_any further
  simp only [Bool.and_eq_true, beq_iff_eq, Bool.not_eq_true', List.any_eq_true] at facts
  obtain ⟨⟨⟨changes, field⟩, typed⟩, use, used, ⟨named, value⟩, resolved⟩ := facts
  obtain ⟨renamed, found⟩ := Option.isSome_iff_exists.mp field
  obtain ⟨declaration, declared, type⟩ := (Option.any_eq_true _ _).mp typed
  refine ⟨analysis, plan, use, analysed, planned, used, named, value, resolved, ?_⟩
  rw [type_use_kept_iff analysed planned found changes used value resolved declared (beq_iff_eq.mp type)]
  intro overtaken
  cases overtaken with
  | respelled planned taken => exact absurd planned (by decide)
  | byValue other spelled =>
      rw [named] at spelled
      exact absurd spelled (by decide)
  | byType other spelled =>
      rw [named] at spelled
      exact absurd spelled (by decide)

/-- A member class may take the name of an outer class although a method uses the outer one as a value: the use is then
found at the member class, and the static field behind it is lost. -/
theorem type_use_overtaken :
    ∃ analysis plan use after,
      Analysis.ofText "class Foo { static int x; } class K { class T { } int f() { return Foo.x; } }"
        ProjectIndex.empty = .ok analysis ∧
      analysis.planFor {} 3 "Foo" = .ok plan ∧ plan.isIdentity = false ∧ plan.verdict = .shadowsOuter [0] ∧
      use ∈ analysis.bound.references.toList ∧ use.space = .value ∧ use.resolution = .resolved 0 ∧
      (analysis.bound.outline.declaration? 0).map (·.kind) = some .type ∧
      (analysis.bound.outline.withName 3 "Foo").searched use.lookup
        (if analysis.layout.span use.position ∈ plan.spans then "Foo" else use.name)
        (analysis.layout.span use.position).start = [3] ∧
      analysis.apply plan =
        .ok "class Foo { static int x; } class K { class Foo { } int f() { return Foo.x; } }" ∧
      Analysis.ofText "class Foo { static int x; } class K { class Foo { } int f() { return Foo.x; } }"
        ProjectIndex.empty = .ok after ∧
      analysis.bound.references.toList.map (·.resolution) = [.resolved 0, .resolved 1] ∧
      after.bound.references.toList.map (·.resolution) = [.resolved 3, .unresolved] := by
  have before :
      ((Analysis.ofText "class Foo { static int x; } class K { class T { } int f() { return Foo.x; } }"
          ProjectIndex.empty).toOption.any fun analysis =>
        (analysis.bound.references.toList.map (·.resolution) == [.resolved 0, .resolved 1]
            && (analysis.bound.outline.declaration? 0).map (·.kind) == some .type)
          && (analysis.planFor {} 3 "Foo").toOption.any fun plan =>
            (!plan.isIdentity && plan.verdict == .shadowsOuter [0]
                && analysis.carriedOut plan ==
                  "class Foo { static int x; } class K { class Foo { } int f() { return Foo.x; } }")
              && analysis.bound.references.toList.any fun use =>
                use.space == .value && use.resolution == .resolved 0
                  && (analysis.bound.outline.withName 3 "Foo").searched use.lookup
                    (if analysis.layout.span use.position ∈ plan.spans then "Foo" else use.name)
                    (analysis.layout.span use.position).start == [3]) = true := by
    decide +kernel
  have afterwards :
      ((Analysis.ofText "class Foo { static int x; } class K { class Foo { } int f() { return Foo.x; } }"
          ProjectIndex.empty).toOption.any fun after =>
        after.bound.references.toList.map (·.resolution) == [.resolved 3, .unresolved]) = true := by
    decide +kernel
  obtain ⟨analysis, analysed, checked⟩ := exists_ok_of_any before
  obtain ⟨after, reanalysed, lost⟩ := exists_ok_of_any afterwards
  simp only [Bool.and_eq_true, beq_iff_eq] at checked lost
  obtain ⟨⟨resolved, kind⟩, further⟩ := checked
  obtain ⟨plan, planned, facts⟩ := exists_ok_of_any further
  simp only [Bool.and_eq_true, beq_iff_eq, Bool.not_eq_true', List.any_eq_true] at facts
  obtain ⟨⟨⟨changes, hides⟩, text⟩, use, used, ⟨value, denotes⟩, searched⟩ := facts
  have applied := Analysis.apply_eq_ok analysed planned
  rw [text] at applied
  exact ⟨analysis, plan, use, after, analysed, planned, changes, hides, used, value, denotes, kind, searched, applied,
    reanalysed, resolved, lost⟩

end ScopedRename
