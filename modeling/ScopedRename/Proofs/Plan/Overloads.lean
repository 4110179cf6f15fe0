import Mathlib.Data.List.Nodup
import ScopedRename.Proofs.Binding.Nearest
import ScopedRename.Proofs.Binding.ScopingRules

/-!
Overloads. A renamed method leaves the overloads of its old name and joins those of its new one. The plan compares the
parameters of the methods that come together, never the arguments of their uses, although one method alone is taken
whatever the arguments are. Main statement: with the target renamed, a call or method reference denotes what it denoted
exactly if it comes upon no further overload, or its arguments fit something it denoted.
-/

namespace ScopedRename

namespace Outline

variable (outline : Outline)

/-! ### Narrowing by arguments -/

def narrowed (arguments : Option Nat) (candidates : List DeclarationId) : List DeclarationId :=
  match arguments with
  | none => candidates
  | some count =>
    if candidates.filter (outline.takes count) = [] then candidates else candidates.filter (outline.takes count)

theorem choose_eq_narrowed (candidates : List DeclarationId) (arguments : Option Nat) :
    outline.choose candidates arguments = outline.choose (outline.narrowed arguments candidates) none := by
  cases arguments with
  | none => rfl
  | some count =>
      rw [choose_some, narrowed]
      split
      · rfl
      · rfl

theorem choose_candidates (candidates : List DeclarationId) (arguments : Option Nat) :
    (outline.choose candidates arguments).candidates = outline.narrowed arguments candidates := by
  rw [choose_eq_narrowed, choose_none_candidates]

theorem narrowed_sublist (arguments : Option Nat) (candidates : List DeclarationId) :
    (outline.narrowed arguments candidates).Sublist candidates := by
  unfold narrowed
  split
  · exact List.Sublist.refl _
  · split
    · exact List.Sublist.refl _
    · exact List.filter_sublist

theorem narrowed_eq_nil {arguments : Option Nat} {candidates : List DeclarationId} :
    outline.narrowed arguments candidates = [] ↔ candidates = [] := by
  constructor
  · intro nothing
    unfold narrowed at nothing
    split at nothing
    · exact nothing
    · split at nothing
      · exact nothing
      · contradiction
  · rintro rfl
    exact List.sublist_nil.mp (outline.narrowed_sublist arguments [])

variable {outline}

theorem mem_narrowed {arguments : Option Nat} {candidates : List DeclarationId} {id : DeclarationId} :
    id ∈ outline.narrowed arguments candidates ↔
      id ∈ candidates ∧ ∀ count, arguments = some count →
        (∃ other ∈ candidates, outline.takes count other = true) → outline.takes count id = true := by
  unfold narrowed
  split
  · simp
  · rename_i count
    split
    · rename_i nothing
      have none : ¬ ∃ other ∈ candidates, outline.takes count other = true := by
        rintro ⟨other, member, takes⟩
        exact List.filter_eq_nil_iff.mp nothing other member takes
      refine ⟨fun member => ⟨member, ?_⟩, And.left⟩
      intro asked same taken
      cases same
      exact absurd taken none
    · rename_i something
      obtain ⟨other, taking⟩ := List.exists_mem_of_ne_nil _ something
      obtain ⟨member, takes⟩ := List.mem_filter.mp taking
      rw [List.mem_filter]
      constructor
      · rintro ⟨here, accepted⟩
        refine ⟨here, ?_⟩
        intro asked same _
        cases same
        exact accepted
      · rintro ⟨here, accepts⟩
        exact ⟨here, accepts count rfl ⟨other, member, takes⟩⟩

theorem mem_narrowed_some {count : Nat} {candidates : List DeclarationId}
    (fits : ∃ other ∈ candidates, outline.takes count other = true) {id : DeclarationId} :
    id ∈ outline.narrowed (some count) candidates ↔ id ∈ candidates ∧ outline.takes count id = true := by
  rw [mem_narrowed]
  constructor
  · rintro ⟨member, accepts⟩
    exact ⟨member, accepts count rfl fits⟩
  · rintro ⟨member, accepted⟩
    refine ⟨member, ?_⟩
    intro asked same _
    cases same
    exact accepted

/-- What some number of arguments fits is left by it. -/
theorem exists_takes_narrowed {count : Nat} {candidates : List DeclarationId} :
    (∃ id ∈ outline.narrowed (some count) candidates, outline.takes count id = true) ↔
      ∃ id ∈ candidates, outline.takes count id = true := by
  constructor
  · rintro ⟨id, member, takes⟩
    exact ⟨id, (outline.narrowed_sublist _ _).subset member, takes⟩
  · rintro ⟨id, member, takes⟩
    exact ⟨id, (mem_narrowed_some ⟨id, member, takes⟩).mpr ⟨member, takes⟩, takes⟩

/-- A candidate that is not left was refused for another one that fits. -/
theorem refused_of_not_mem_narrowed {arguments : Option Nat} {candidates : List DeclarationId} {id : DeclarationId}
    (member : id ∈ candidates) (gone : id ∉ outline.narrowed arguments candidates) :
    ∃ count, arguments = some count ∧ (∃ other ∈ candidates, outline.takes count other = true) ∧
      outline.takes count id = false := by
  by_contra never
  refine gone (mem_narrowed.mpr ⟨member, ?_⟩)
  intro count counted fits
  by_contra refused
  exact never ⟨count, counted, fits, Bool.eq_false_iff.mpr refused⟩

theorem eq_of_ordered {left right : List DeclarationId} (leftOrder : left.Pairwise (· < ·))
    (rightOrder : right.Pairwise (· < ·)) (same : ∀ id, id ∈ left ↔ id ∈ right) : left = right := by
  refine List.Perm.eq_of_pairwise ?_ leftOrder rightOrder ?_
  · intro first second _ _ before after
    exact absurd before (Nat.not_lt.mpr (Nat.le_of_lt after))
  · exact (List.perm_ext_iff_of_nodup (leftOrder.imp Nat.ne_of_lt) (rightOrder.imp Nat.ne_of_lt)).mpr same

theorem narrowed_ordered {arguments : Option Nat} {candidates : List DeclarationId}
    (order : candidates.Pairwise (· < ·)) : (outline.narrowed arguments candidates).Pairwise (· < ·) :=
  order.sublist (outline.narrowed_sublist arguments candidates)

section Sets

variable {arguments : Option Nat} {target : DeclarationId} {others joined : List DeclarationId}
  (joinedOrder : joined.Pairwise (· < ·)) (members : ∀ id, id ∈ joined ↔ id = target ∨ id ∈ others)

include joinedOrder members

/-- An overload that the arguments do not fit makes no difference where they fit another. -/
theorem narrowed_of_refused (order : others.Pairwise (· < ·)) {count : Nat}
    (fits : ∃ other ∈ others, outline.takes count other = true) (refused : outline.takes count target = false) :
    outline.narrowed (some count) joined = outline.narrowed (some count) others := by
  have fitsJoined : ∃ other ∈ joined, outline.takes count other = true := by
    obtain ⟨other, member, takes⟩ := fits
    exact ⟨other, (members other).mpr (Or.inr member), takes⟩
  refine eq_of_ordered (narrowed_ordered joinedOrder) (narrowed_ordered order) ?_
  intro id
  rw [mem_narrowed_some fitsJoined, mem_narrowed_some fits, members]
  constructor
  · rintro ⟨rfl | member, takes⟩
    · rw [refused] at takes
      cases takes
    · exact ⟨member, takes⟩
  · rintro ⟨member, takes⟩
    exact ⟨Or.inr member, takes⟩

variable (new : target ∉ others)
  (apart : ∀ count, outline.takes count target = true → ∀ other ∈ others, outline.takes count other = false)

include new apart

/-- One more overload, with which no number of arguments fits another as well, changes nothing exactly if the arguments
fit one that was there. -/
theorem narrowed_join_iff (order : others.Pairwise (· < ·)) :
    outline.narrowed arguments joined = outline.narrowed arguments others ↔
      ∃ count, arguments = some count ∧ ∃ id ∈ others, outline.takes count id = true := by
  constructor
  · intro same
    have gone : target ∉ outline.narrowed arguments joined := by
      rw [same]
      exact fun member => new ((outline.narrowed_sublist _ _).subset member)
    obtain ⟨count, counted, ⟨other, member, takes⟩, refused⟩ :=
      refused_of_not_mem_narrowed ((members target).mpr (Or.inl rfl)) gone
    refine ⟨count, counted, other, ?_, takes⟩
    rcases (members other).mp member with rfl | before
    · rw [refused] at takes
      cases takes
    · exact before
  · rintro ⟨count, rfl, id, member, takes⟩
    refine narrowed_of_refused joinedOrder members order ⟨id, member, takes⟩ ?_
    apply Bool.eq_false_iff.mpr
    intro taken
    rw [apart count taken id member] at takes
    cases takes

/-- Put beside other overloads, with which no number of arguments fits it as well, a method is what is left exactly if
there are none or the arguments fit it. -/
theorem narrowed_eq_target_iff :
    outline.narrowed arguments joined = [target] ↔
      others = [] ∨ ∃ count, arguments = some count ∧ outline.takes count target = true := by
  have present : target ∈ joined := (members target).mpr (Or.inl rfl)
  constructor
  · intro left
    by_contra neither
    obtain ⟨several, unfit⟩ := not_or.mp neither
    obtain ⟨other, member⟩ := List.exists_mem_of_ne_nil _ several
    have gone : other ∉ outline.narrowed arguments joined := by
      rw [left, List.mem_singleton]
      exact fun same => new (same ▸ member)
    obtain ⟨count, counted, fits, _⟩ := refused_of_not_mem_narrowed ((members other).mpr (Or.inr member)) gone
    have stays : target ∈ outline.narrowed arguments joined := left ▸ List.mem_cons_self
    exact unfit ⟨count, counted, (mem_narrowed.mp stays).2 count counted fits⟩
  · intro either
    refine eq_of_ordered (narrowed_ordered joinedOrder) (List.pairwise_singleton _ target) ?_
    intro id
    rw [List.mem_singleton]
    rcases either with rfl | ⟨count, rfl, takes⟩
    · have only (other : DeclarationId) : other ∈ joined ↔ other = target := by
        rw [members]
        exact or_iff_left List.not_mem_nil
      rw [mem_narrowed, only]
      refine ⟨And.left, ?_⟩
      rintro rfl
      refine ⟨rfl, ?_⟩
      rintro count _ ⟨other, member, taken⟩
      rw [← (only other).mp member]
      exact taken
    · rw [mem_narrowed_some ⟨target, present, takes⟩, members]
      constructor
      · rintro ⟨same | other, accepted⟩
        · exact same
        · rw [apart count takes id other] at accepted
          cases accepted
      · rintro rfl
        exact ⟨Or.inl rfl, takes⟩

end Sets

/-! ### Looking methods up again -/

/-- What a call or method reference denotes when its name is looked up again in a recorded place and what is found is
narrowed by its arguments. -/
def rechosen (outline : Outline) (site : Lookup) (name : String) (arguments : Option Nat) (offset : Nat) : Resolution :=
  match outline.found site name .method offset with
  | [] => .unresolved
  | candidates => outline.choose candidates arguments

theorem rechosen_of_ne_nil {site : Lookup} {name : String} {arguments : Option Nat} {offset : Nat}
    (something : outline.found site name .method offset ≠ []) :
    outline.rechosen site name arguments offset =
      outline.choose (outline.found site name .method offset) arguments := by
  unfold rechosen
  split
  · contradiction
  · rfl

theorem rechosen_candidates (site : Lookup) (name : String) (arguments : Option Nat) (offset : Nat) :
    (outline.rechosen site name arguments offset).candidates =
      outline.narrowed arguments (outline.found site name .method offset) := by
  by_cases nothing : outline.found site name .method offset = []
  · rw [outline.narrowed_eq_nil.mpr nothing, rechosen, nothing]
    rfl
  · rw [rechosen_of_ne_nil nothing, choose_candidates]

/-- What is found again is determined by what is left of it. -/
theorem rechosen_eq_iff {left right : Outline} {site : Lookup} {leftName rightName : String} {arguments : Option Nat}
    {offset : Nat} :
    left.rechosen site leftName arguments offset = right.rechosen site rightName arguments offset ↔
      left.narrowed arguments (left.found site leftName .method offset) =
        right.narrowed arguments (right.found site rightName .method offset) := by
  constructor
  · intro same
    rw [← rechosen_candidates, ← rechosen_candidates, same]
  · intro same
    by_cases nothing : left.found site leftName .method offset = []
    · have alsoNothing : right.found site rightName .method offset = [] := by
        rw [left.narrowed_eq_nil.mpr nothing] at same
        exact right.narrowed_eq_nil.mp same.symm
      rw [rechosen, rechosen, nothing, alsoNothing]
    · have alsoSomething : right.found site rightName .method offset ≠ [] := by
        intro alsoNothing
        rw [right.narrowed_eq_nil.mpr alsoNothing] at same
        exact nothing (left.narrowed_eq_nil.mp same)
      rw [rechosen_of_ne_nil nothing, rechosen_of_ne_nil alsoSomething, choose_eq_narrowed, same,
        left.choose_none_eq right,
        ← choose_eq_narrowed]

theorem withName_takes (outline : Outline) (target : DeclarationId) (newName : String) :
    (outline.withName target newName).takes = outline.takes := by
  funext count id
  unfold takes
  rw [withName_declaration?]
  split
  · cases outline.declaration? id with
    | none => rfl
    | some declaration => rfl
  · rfl

theorem withName_narrowed (outline : Outline) (target : DeclarationId) (newName : String) :
    (outline.withName target newName).narrowed = outline.narrowed := by
  funext arguments candidates
  unfold narrowed
  rw [withName_takes]

section Levels

variable {target : DeclarationId} {renamed : Declaration} {newName : String}
  (found : outline.declaration? target = some renamed)

include found

theorem withName_visibleIn_of_ne [outline.Registered] {scope : ScopeId} (other : renamed.scope ≠ scope) (name : String)
    (space : NameSpace)
    (offset : Option Nat) :
    (outline.withName target newName).visibleIn scope name space offset = outline.visibleIn scope name space offset := by
  apply withName_visibleIn
  · intro lost
    obtain ⟨⟨declaration, declared, same, _⟩, _⟩ := mem_visibleIn.mp lost
    rw [found] at declared
    cases declared
    exact other same
  · intro gained
    exact other ((target_mem_visibleIn_withName found).mp gained).1.1

theorem withName_declaredIn_of_ne [outline.Registered] {scope : ScopeId} (other : renamed.scope ≠ scope)
    (name : String) (space : NameSpace) :
    (outline.withName target newName).declaredIn scope name space = outline.declaredIn scope name space := by
  rw [← visibleIn_none, ← visibleIn_none]
  exact withName_visibleIn_of_ne found other name space none

/-- The target's scope stays the nearest once the target is renamed. -/
theorem Nearest.withName [outline.Registered] {site : Lookup} {name : String} {space : NameSpace}
    (nearest : outline.Nearest site renamed.scope name space) :
    (outline.withName target newName).Nearest site renamed.scope name space := by
  cases site with
  | foreign => cases nearest
  | path => cases nearest
  | member type => exact nearest
  | lexical scope =>
      obtain ⟨around, missed⟩ := nearest
      simp only [Nearest, withName_ancestors]
      refine ⟨around, ?_⟩
      intro between member inside
      rw [withName_declaredIn_of_ne found (Nat.ne_of_lt inside)]
      exact missed between member inside

variable (method : renamed.kind = .method)

include method

theorem mem_declaredIn_withName [outline.Registered] {id : DeclarationId} :
    id ∈ (outline.withName target newName).declaredIn renamed.scope newName .method ↔
      id = target ∨ id ∈ outline.declaredIn renamed.scope newName .method := by
  have space : renamed.kind.space = .method := DeclarationKind.space_eq_method.mpr method
  rw [← visibleIn_none, ← visibleIn_none]
  by_cases same : target = id
  · rw [← same]
    exact iff_of_true ((target_mem_visibleIn_withName found).mpr ⟨⟨rfl, rfl, space⟩, rfl⟩) (Or.inl rfl)
  · rw [mem_visibleIn_withName_of_ne same]
    exact (or_iff_right (Ne.symm same)).symm

omit method in
theorem mem_declaredIn_withName_old [outline.Registered] (different : renamed.name ≠ newName) {id : DeclarationId} :
    id ∈ (outline.withName target newName).declaredIn renamed.scope renamed.name .method ↔
      id ≠ target ∧ id ∈ outline.declaredIn renamed.scope renamed.name .method := by
  rw [← visibleIn_none, ← visibleIn_none]
  by_cases same : target = id
  · rw [← same]
    refine iff_of_false ?_ (fun both => both.1 rfl)
    intro member
    exact different ((target_mem_visibleIn_withName found).mp member).1.2.1.symm
  · rw [mem_visibleIn_withName_of_ne same]
    exact (and_iff_right (Ne.symm same)).symm

end Levels

end Outline

/-- Only a member of a type of this file is bound. -/
theorem Outline.localType_of_isBound {outline : Outline} {index : ProjectIndex} {receiver : Receiver} {name : String}
    {usage : Usage} (bound : (outline.bindMember index receiver name usage).2.isBound = true) :
    ∃ type, receiver = .localType type := by
  cases receiver with
  | localType type => exact ⟨type, rfl⟩
  | named type =>
      rw [bindMember, externalMember_isBound] at bound
      cases bound
  | inherited types =>
      rw [bindMember, externalMember_isBound] at bound
      cases bound
  | unknown => cases bound

/-- A bound call or method reference denotes what looking it up in its place and narrowing gives. -/
theorem Code.reference_rechosen (code : Code) (outline : Outline) (index : ProjectIndex) {reference : Reference}
    (used : reference ∈ (code.references outline index).toList) (space : reference.space = .method)
    (bound : reference.resolution.isBound = true) :
    outline.found reference.lookup reference.name .method (outline.startOf reference.position) ≠ [] ∧
      reference.resolution = outline.rechosen reference.lookup reference.name
        (code.usageAt outline reference.position).arguments (outline.startOf reference.position) := by
  obtain ⟨_, same⟩ := (code.referenceAt?_eq_some outline index).mp ((code.mem_references outline index).mp used)
  generalize reference.position = position at same ⊢
  subst same
  dsimp only at space bound ⊢
  have chosen {site : Lookup} {arguments : Option Nat}
      (something : outline.found site (code.text position) .method (outline.startOf position) ≠ []) :
      outline.found site (code.text position) .method (outline.startOf position) ≠ [] ∧
        outline.choose (outline.found site (code.text position) .method (outline.startOf position)) arguments =
          outline.rechosen site (code.text position) arguments (outline.startOf position) :=
    ⟨something, (Outline.rechosen_of_ne_nil something).symm⟩
  rw [bindingAt] at bound ⊢
  split at bound
  · cases bound
  · rename_i noPath
    rw [if_neg noPath]
    dsimp only at bound ⊢
    split at bound
    · rename_i qualified
      rw [dif_pos qualified]
      obtain ⟨type, receiver⟩ := Outline.localType_of_isBound bound
      have members : outline.members type (code.text position) .method =
          outline.found (.member type) (code.text position) .method (outline.startOf position) := by
        unfold Outline.members
        split
        · rename_i nothing
          exact nothing.symm
        · rfl
      rw [receiver, Outline.bindMember_localType, space, members] at bound ⊢
      dsimp only at bound ⊢
      split at bound
      · rw [Outline.externalMember_isBound] at bound
        cases bound
      · rename_i something
        rw [if_neg something]
        exact chosen something
    · rename_i bare
      rw [dif_neg bare]
      dsimp only at bound ⊢
      unfold Outline.bindBareName at bound ⊢
      rw [space] at bound ⊢
      cases looked : outline.lookup (outline.home position) (code.text position) .method
          (some (outline.startOf position)) with
      | none =>
          rw [looked] at bound
          simp only [reduceCtorEq, if_false, Outline.externalMember_isBound] at bound
      | some hit =>
          obtain ⟨stop, candidates⟩ := hit
          obtain ⟨_, _, _, _, _, nonempty⟩ := outline.lookup_eq_some_iff.mp looked
          have found : outline.found (.lexical (outline.home position)) (code.text position) .method
              (outline.startOf position) =
              candidates := by
            simp only [Outline.found, looked, Option.elim_some]
          dsimp only
          rw [← found] at nonempty ⊢
          exact chosen nonempty

namespace BoundOutline

/-! ### What a plan lets come together -/

def Fits (bound : BoundOutline) (reference : Reference) (arguments : Option Nat) : Prop :=
  ∃ count, arguments = some count ∧ ∃ id ∈ reference.resolution.candidates, bound.outline.takes count id = true

/-- With the target renamed, a use comes upon one more overload of its name. -/
inductive Joins (bound : BoundOutline) (target : DeclarationId) (renamed : Declaration) (newName : String)
    (reference : Reference) : Prop where
  /-- The use is renamed with the target, and other methods beside the target have the new name. -/
  | respelled (planned : reference.resolution = .resolved target)
      (taken : bound.outline.declaredIn renamed.scope newName .method ≠ [])
  /-- The use has the new name and denotes methods beside the target. -/
  | beside (spelled : reference.name = newName) {id : DeclarationId} {declaration : Declaration}
      (candidate : id ∈ reference.resolution.candidates) (declared : bound.outline.declaration? id = some declaration)
      (together : declaration.scope = renamed.scope)

variable {bound : BoundOutline} {strict : Bool} {target : DeclarationId} {renamed : Declaration} {newName : String}
  {verdict : Verdict} (found : bound.outline.declaration? target = some renamed) (method : renamed.kind = .method)
  (judged : bound.verdict strict target renamed newName = .ok verdict)

include method judged in
/-- The target clashes with no method of its scope that has the new name. -/
theorem clashes_eq_false {other : DeclarationId}
    (member : other ∈ bound.outline.declaredIn renamed.scope newName .method) :
    bound.clashes target renamed other = false := by
  have space : renamed.kind.space = .method := DeclarationKind.space_eq_method.mpr method
  obtain ⟨hidden, met⟩ := (verdict_eq_ok judged).1 _ (own_site target renamed)
  have looked : bound.outline.lookup renamed.scope newName .method none =
      some (renamed.scope, bound.outline.visibleIn renamed.scope newName .method none) := by
    refine Outline.lookup_of_nearest (bound.outline.self_mem_ancestors _) ?_ ?_
    · intro between listed inside
      exact absurd (bound.outline.le_of_mem_ancestors listed) (Nat.not_le.mpr inside)
    · rw [Outline.visibleIn_none]
      exact List.ne_nil_of_mem member
  have within : bound.outline.isWithin renamed.scope renamed.scope = true :=
    List.contains_iff_mem.mpr (bound.outline.self_mem_ancestors _)
  simp only [meetsAt, space, looked, within, if_true, Outline.visibleIn_none] at met
  split at met
  · cases met
  · rename_i nothing
    have passed := List.find?_eq_none.mp nothing other member
    rw [bne_self_eq_false, Bool.false_or] at passed
    exact Bool.eq_false_iff.mpr passed

include found in
omit method judged in
theorem target_not_mem [bound.outline.Registered] (different : renamed.name ≠ newName) {scope : ScopeId}
    {space : NameSpace} :
    target ∉ bound.outline.declaredIn scope newName space := by
  intro member
  obtain ⟨declaration, declared, _, named, _⟩ := bound.outline.mem_declaredIn.mp member
  rw [found] at declared
  cases declared
  exact different named

include found method judged

/-- No number of arguments fits the target and a method of its scope that has the new name. -/
theorem takes_apart [bound.outline.Registered] (different : renamed.name ≠ newName) {count : Nat}
    (takes : bound.outline.takes count target = true)
    {other : DeclarationId} (member : other ∈ bound.outline.declaredIn renamed.scope newName .method) :
    bound.outline.takes count other = false := by
  obtain ⟨declaration, declared, _, named, space⟩ := bound.outline.mem_declaredIn.mp member
  have unlike : other ≠ target := by
    rintro rfl
    rw [found] at declared
    cases declared
    exact different named
  have apart : Arity.meets renamed.arity declaration.arity = false := by
    have free := clashes_eq_false method judged member
    unfold clashes at free
    rw [declared, Option.any_some, method, DeclarationKind.space_eq_method.mp space, bne_iff_ne.mpr unlike] at free
    exact free
  unfold Outline.takes at takes ⊢
  rw [found, Option.bind_some] at takes
  rw [declared, Option.bind_some]
  cases own : renamed.arity with
  | none =>
      rw [own] at takes
      cases takes
  | some arity =>
      cases others : declaration.arity with
      | none => rfl
      | some otherArity =>
          rw [own, Option.any_some] at takes
          rw [own, others] at apart
          unfold Arity.meets at apart
          simp only [Option.map_some, Option.any_some, Bool.or_eq_false_iff, beq_eq_false_iff_ne, ne_eq,
            Option.some.injEq] at apart
          obtain ⟨⟨counts, fixed⟩, otherFixed⟩ := apart
          rw [Arity.accepts, fixed] at takes
          rw [Option.any_some, Arity.accepts, otherFixed]
          simp only [Bool.false_eq_true, if_false, beq_iff_eq] at takes
          simp only [Bool.false_eq_true, if_false, beq_eq_false_iff_ne, ne_eq]
          omega

omit found in
/-- From a place where the target is looked up, no scope further in than the target's has the new name. -/
theorem declaredIn_inside_eq_nil {scope between : ScopeId} (checked : .lexical scope ∈ bound.sites target renamed)
    (around : renamed.scope ∈ bound.outline.ancestors scope) (member : between ∈ bound.outline.ancestors scope)
    (inside : renamed.scope < between) : bound.outline.declaredIn between newName .method = [] := by
  obtain ⟨hidden, met⟩ := (verdict_eq_ok judged).1 _ checked
  rw [← DeclarationKind.space_eq_method.mpr method]
  exact declaredIn_inside_of_meetsAt met around member inside

/-- Where a method is looked up and found, its new name leads to it and to the methods beside it that have the name. -/
theorem found_target [bound.outline.Registered] {site : Lookup} (checked : site ∈ bound.sites target renamed)
    {name : String} {offset : Nat}
    (hit : target ∈ bound.outline.found site name .method offset) :
    (bound.outline.withName target newName).found site newName .method offset =
      (bound.outline.withName target newName).declaredIn renamed.scope newName .method := by
  have nearest : bound.outline.Nearest site renamed.scope newName .method := by
    have before := Outline.nearest_of_mem_found (by decide) hit found
    cases site with
    | foreign => cases before
    | path => cases before
    | member type => exact before
    | lexical scope =>
        refine ⟨before.1, ?_⟩
        intro between member inside
        exact declaredIn_inside_eq_nil method judged checked before.1 member inside
  refine (nearest.withName found).found (by decide) ?_
  exact List.ne_nil_of_mem ((Outline.mem_declaredIn_withName found method).mpr (Or.inl rfl))

/-- A planned use denotes the target again, unless other methods have the new name and its arguments do not fit the
target. -/
theorem rechosen_planned_iff [bound.outline.Registered] (different : renamed.name ≠ newName) {reference : Reference}
    (used : reference ∈ bound.references.toList) (resolved : reference.resolution = .resolved target)
    {arguments : Option Nat} {offset : Nat}
    (before : reference.resolution = bound.outline.rechosen reference.lookup reference.name arguments offset) :
    (bound.outline.withName target newName).rechosen reference.lookup newName arguments offset = reference.resolution ↔
      (bound.Joins target renamed newName reference → bound.Fits reference arguments) := by
  have left : bound.outline.narrowed arguments (bound.outline.found reference.lookup reference.name .method offset) =
      [target] := by
    rw [← Outline.rechosen_candidates, ← before, resolved]
    rfl
  have hit : target ∈ bound.outline.found reference.lookup reference.name .method offset :=
    (bound.outline.narrowed_sublist _ _).subset (left ▸ List.mem_cons_self)
  have checked := use_site (mem_referencesTo.mpr ⟨used, resolved⟩) renamed
  have joins : bound.Joins target renamed newName reference ↔
      bound.outline.declaredIn renamed.scope newName .method ≠ [] := by
    constructor
    · intro joined
      cases joined with
      | respelled _ taken => exact taken
      | beside spelled =>
          obtain ⟨declaration, declared, named, _⟩ := bound.outline.declared_of_mem_found hit
          rw [found] at declared
          cases declared
          exact absurd (named.trans spelled) different
    · exact .respelled resolved
  have fits : bound.Fits reference arguments ↔
      ∃ count, arguments = some count ∧ bound.outline.takes count target = true := by
    unfold Fits
    rw [resolved]
    simp only [Resolution.candidates, List.mem_singleton, exists_eq_left]
  rw [before, Outline.rechosen_eq_iff, left, Outline.withName_narrowed, found_target found method judged checked hit,
    joins, fits, ← or_iff_not_imp_left]
  exact Outline.narrowed_eq_target_iff (Outline.declaredIn_pairwise _ _ _ _)
    (fun id => Outline.mem_declaredIn_withName found method) (target_not_mem found different)
    (fun count takes other member => takes_apart found method judged different takes member)

omit judged in
/-- A use of another name denotes what it denoted: what it loses of an overloaded name did not fit. -/
theorem rechosen_of_name_ne [bound.outline.Registered] (different : renamed.name ≠ newName) {reference : Reference}
    (spelled : reference.name ≠ newName) {arguments : Option Nat} {offset : Nat}
    (other : target ∉ bound.outline.narrowed arguments
      (bound.outline.found reference.lookup reference.name .method offset)) :
    (bound.outline.withName target newName).rechosen reference.lookup reference.name arguments offset =
      bound.outline.rechosen reference.lookup reference.name arguments offset := by
  rw [Outline.rechosen_eq_iff, Outline.withName_narrowed]
  by_cases hit : target ∈ bound.outline.found reference.lookup reference.name .method offset
  · obtain ⟨count, counted, ⟨fitting, member, takes⟩, refused⟩ := Outline.refused_of_not_mem_narrowed hit other
    obtain ⟨again, declared, named, _⟩ := bound.outline.declared_of_mem_found hit
    rw [found] at declared
    cases declared
    have nearest := Outline.nearest_of_mem_found (by decide) hit found
    rw [← named] at member hit nearest ⊢
    have before : bound.outline.found reference.lookup renamed.name .method offset =
        bound.outline.declaredIn renamed.scope renamed.name .method := by
      have member := bound.outline.mem_declaredIn.mpr
        ⟨renamed, found, rfl, rfl, DeclarationKind.space_eq_method.mpr method⟩
      exact nearest.found (by decide) (List.ne_nil_of_mem member)
    rw [before] at member
    have left : fitting ∈ (bound.outline.withName target newName).declaredIn renamed.scope renamed.name .method := by
      refine (Outline.mem_declaredIn_withName_old found different).mpr ⟨?_, member⟩
      rintro rfl
      rw [refused] at takes
      cases takes
    rw [(nearest.withName found).found (by decide) (List.ne_nil_of_mem left), before, counted]
    refine (Outline.narrowed_of_refused (Outline.declaredIn_pairwise _ _ _ _) ?_ (Outline.declaredIn_pairwise _ _ _ _)
      ⟨fitting, left, takes⟩ refused).symm
    intro id
    rw [Outline.mem_declaredIn_withName_old found different]
    by_cases same : id = target
    · rw [same]
      refine iff_of_true ?_ (Or.inl rfl)
      rw [← before]
      exact hit
    · rw [or_iff_right same, and_iff_right same]
  · rw [Outline.found_withName_eq found hit]
    exact fun seen => spelled seen.1.symm

/-- A use of the new name that finds methods of another scope finds them again: it is not captured. -/
theorem found_of_apart [bound.outline.Registered] {reference : Reference} (used : reference ∈ bound.references.toList)
    (space : reference.space = .method) (spelled : reference.name = newName)
    (something : reference.resolution.candidates ≠ [])
    (denotes : ∀ id ∈ reference.resolution.candidates,
      id ∈ bound.outline.found reference.lookup newName .method (bound.outline.startOf reference.position))
    {id : DeclarationId} {declaration : Declaration} (declared : bound.outline.declaration? id = some declaration)
    (hit : id ∈ bound.outline.found reference.lookup newName .method (bound.outline.startOf reference.position))
    (apart : declaration.scope ≠ renamed.scope) :
    (bound.outline.withName target newName).found reference.lookup newName .method
    (bound.outline.startOf reference.position) =
      bound.outline.found reference.lookup newName .method (bound.outline.startOf reference.position) := by
  have nearest := Outline.nearest_of_mem_found (by decide) hit declared
  obtain ⟨again, declaredAgain, named, methodSpace⟩ := bound.outline.declared_of_mem_found hit
  rw [declared] at declaredAgain
  cases declaredAgain
  have shown := List.ne_nil_of_mem (bound.outline.mem_declaredIn.mpr ⟨declaration, declared, rfl, named, methodSpace⟩)
  have before : bound.outline.found reference.lookup newName .method (bound.outline.startOf reference.position) =
      bound.outline.declaredIn declaration.scope newName .method := nearest.found (by decide) shown
  have same : (bound.outline.withName target newName).declaredIn declaration.scope newName .method =
      bound.outline.declaredIn declaration.scope newName .method :=
    Outline.withName_declaredIn_of_ne found (Ne.symm apart) newName .method
  rw [before, ← same]
  refine Outline.Nearest.found (by decide) ?_ (same ▸ shown)
  cases site : reference.lookup with
  | foreign => rw [site] at nearest; cases nearest
  | path => rw [site] at nearest; cases nearest
  | member type =>
      rw [site] at nearest
      exact nearest
  | lexical scope =>
      rw [site] at nearest
      obtain ⟨around, missed⟩ := nearest
      simp only [Outline.Nearest, Outline.withName_ancestors]
      refine ⟨around, ?_⟩
      intro between member inside
      by_cases own : renamed.scope = between
      · -- the target's scope would show it first, and the plan has refused that
        subst own
        have visible : bound.outline.isVisible target (some (bound.outline.startOf reference.position)) = true := by
          unfold Outline.isVisible
          dsimp only
          rw [found, Option.any_some, method]
          rfl
        refine absurd ((verdict_eq_ok judged).2 reference used) (captured_of_outside found spelled
          (space.trans (DeclarationKind.space_eq_method.mpr method).symm) site member visible (Or.inr ⟨something, ?_⟩))
        intro candidate denoted
        have listed := denotes candidate denoted
        rw [before] at listed
        obtain ⟨other, declaredOther, placed, _⟩ := bound.outline.mem_declaredIn.mp listed
        unfold isOutside
        rw [declaredOther, Option.any_some, placed, Bool.and_eq_true, bne_iff_ne]
        exact ⟨apart, List.contains_iff_mem.mpr (bound.outline.mem_ancestors_of_le member around (Nat.le_of_lt inside))⟩
      · rw [Outline.withName_declaredIn_of_ne found own]
        exact missed between member inside

/-- A use that is not planned denotes what it denoted, unless the target joins methods it denotes and its arguments
fit none of those. -/
theorem rechosen_unplanned_iff [bound.outline.Registered] (different : renamed.name ≠ newName) {reference : Reference}
    (used : reference ∈ bound.references.toList) (space : reference.space = .method)
    (other : target ∉ reference.resolution.candidates) {arguments : Option Nat}
    (something :
      bound.outline.found reference.lookup reference.name .method (bound.outline.startOf reference.position) ≠ [])
    (before : reference.resolution =
      bound.outline.rechosen reference.lookup reference.name arguments (bound.outline.startOf reference.position)) :
    (bound.outline.withName target newName).rechosen reference.lookup reference.name arguments
        (bound.outline.startOf reference.position) = reference.resolution ↔
      (bound.Joins target renamed newName reference → bound.Fits reference arguments) := by
  have candidates : reference.resolution.candidates = bound.outline.narrowed arguments
      (bound.outline.found reference.lookup reference.name .method (bound.outline.startOf reference.position)) := by
    rw [before, Outline.rechosen_candidates]
  have denotes (id : DeclarationId) (member : id ∈ reference.resolution.candidates) :
      id ∈ bound.outline.found reference.lookup reference.name .method (bound.outline.startOf reference.position) := by
    rw [candidates] at member
    exact (bound.outline.narrowed_sublist _ _).subset member
  have denoted : reference.resolution.candidates ≠ [] := by
    rw [candidates]
    exact fun nothing => something (bound.outline.narrowed_eq_nil.mp nothing)
  by_cases joins : bound.Joins target renamed newName reference
  · rw [forall_prop_of_true joins]
    cases joins with
    | respelled planned taken =>
        rw [planned] at other
        exact absurd List.mem_cons_self other
    | beside spelled candidate declared together =>
        have hit := denotes _ candidate
        rw [spelled] at hit
        have nearest := Outline.nearest_of_mem_found (by decide) hit declared
        rw [together] at nearest
        have own : bound.outline.found reference.lookup newName .method (bound.outline.startOf reference.position) =
            bound.outline.declaredIn renamed.scope newName .method := by
          obtain ⟨again, declaredAgain, named, methodSpace⟩ := bound.outline.declared_of_mem_found hit
          rw [declared] at declaredAgain
          cases declaredAgain
          have member := bound.outline.mem_declaredIn.mpr ⟨_, declared, together, named, methodSpace⟩
          exact nearest.found (by decide) (List.ne_nil_of_mem member)
        have joined : (bound.outline.withName target newName).found reference.lookup newName .method
            (bound.outline.startOf reference.position) =
              (bound.outline.withName target newName).declaredIn renamed.scope newName .method := by
          refine (nearest.withName found).found (by decide) ?_
          exact List.ne_nil_of_mem ((Outline.mem_declaredIn_withName found method).mpr (Or.inl rfl))
        have fits : bound.Fits reference arguments ↔ ∃ count, arguments = some count ∧
            ∃ id ∈ bound.outline.declaredIn renamed.scope newName .method, bound.outline.takes count id = true := by
          unfold Fits
          rw [candidates, spelled, own]
          constructor
          · rintro ⟨count, rfl, some⟩
            exact ⟨count, rfl, Outline.exists_takes_narrowed.mp some⟩
          · rintro ⟨count, rfl, some⟩
            exact ⟨count, rfl, Outline.exists_takes_narrowed.mpr some⟩
        rw [before, spelled, Outline.rechosen_eq_iff, Outline.withName_narrowed, joined, own, fits]
        exact Outline.narrowed_join_iff (Outline.declaredIn_pairwise _ _ _ _)
          (fun id => Outline.mem_declaredIn_withName found method) (target_not_mem found different)
          (fun count takes other member => takes_apart found method judged different takes member)
          (Outline.declaredIn_pairwise _ _ _ _)
  · refine iff_of_true ?_ (fun impossible => absurd impossible joins)
    by_cases spelled : reference.name = newName
    · obtain ⟨first, candidate⟩ := List.exists_mem_of_ne_nil _ denoted
      obtain ⟨declaration, declared, _⟩ := bound.outline.declared_of_mem_found (denotes first candidate)
      have apart : declaration.scope ≠ renamed.scope :=
        fun together => joins (.beside spelled candidate declared together)
      rw [spelled] at denotes
      rw [before, spelled, Outline.rechosen_eq_iff, Outline.withName_narrowed,
        found_of_apart found method judged used space spelled denoted denotes declared (denotes first candidate) apart]
    · rw [candidates] at other
      rw [before]
      exact rechosen_of_name_ne found method different spelled other

end BoundOutline

/-- Take an accepted plan that changes the name of a method, and a bound call or method reference. With the target
renamed in the outline, the lookup redone in the recorded place and what it finds narrowed by the arguments, under the
new name for a planned use and its own name for any other, the use denotes what it denoted exactly if it comes upon no
further overload or its arguments fit something it denoted. -/
theorem overload_kept_iff {source newName : String} {index : ProjectIndex} {analysis : Analysis}
    {options : RenameOptions} {target : DeclarationId} {plan : RenamePlan} {renamed : Declaration}
    (analysed : Analysis.ofText source index = .ok analysis)
    (planned : analysis.planFor options target newName = .ok plan)
    (found : analysis.bound.outline.declaration? target = some renamed) (method : renamed.kind = .method)
    (changes : plan.isIdentity = false) {reference : Reference}
    (used : reference ∈ analysis.bound.references.toList) (space : reference.space = .method)
    (isBound : reference.resolution.isBound = true) :
    (analysis.bound.outline.withName target newName).rechosen reference.lookup
        (if analysis.layout.span reference.position ∈ plan.spans then newName else reference.name)
        (analysis.code.usageAt analysis.bound.outline reference.position).arguments
        (analysis.layout.span reference.position).start = reference.resolution ↔
      (analysis.bound.Joins target renamed newName reference →
        analysis.bound.Fits reference (analysis.code.usageAt analysis.bound.outline reference.position).arguments) := by
  have := Analysis.registered analysed
  obtain ⟨_, _, _, _, bound, _⟩ := Analysis.ofText_eq_ok analysed
  obtain ⟨different, verdict, judged⟩ := Analysis.judged planned found changes
  have looked : analysis.bound.outline.found reference.lookup reference.name .method
      (analysis.bound.outline.startOf reference.position) ≠ [] ∧
      reference.resolution = analysis.bound.outline.rechosen reference.lookup reference.name
        (analysis.code.usageAt analysis.bound.outline reference.position).arguments
        (analysis.bound.outline.startOf reference.position) := by
    rw [bound] at used ⊢
    exact analysis.code.reference_rechosen _ index used space isBound
  obtain ⟨something, before⟩ := looked
  rw [← Analysis.startOf_eq analysed]
  by_cases resolved : reference.resolution = .resolved target
  · have chosen : analysis.layout.span reference.position ∈ plan.spans :=
      (Analysis.mem_spans planned _).mpr (Or.inr ⟨reference, used, resolved, rfl⟩)
    rw [if_pos chosen]
    exact BoundOutline.rechosen_planned_iff found method judged different used resolved before
  · have unplanned : analysis.layout.span reference.position ∉ plan.spans :=
      Analysis.other_use_not_planned analysed planned used resolved
    have other : target ∉ reference.resolution.candidates := by
      intro candidate
      rcases Resolution.mem_candidates candidate with alone | ⟨candidates, several, member⟩
      · exact resolved alone
      · obtain ⟨_, accepted, _⟩ := Analysis.planFor_eq_ok planned
        exact BoundOutline.not_mem_of_ambiguousWith (BoundOutline.planFor_eq_ok accepted).2.1 used several member
    rw [if_neg unplanned]
    exact BoundOutline.rechosen_unplanned_iff found method judged different used space other something before

/-- A method that joins another of a different arity: calls of both, told apart by their arguments. -/
theorem overload_kept_iff_call :
    ∃ analysis plan own other,
      Analysis.ofText "class A { void f(int a) { } void g() { } void h() { f(1); g(); } }" ProjectIndex.empty =
        .ok analysis ∧
      analysis.planFor {} 3 "f" = .ok plan ∧
      own ∈ analysis.bound.references.toList ∧ own.name = "g" ∧ own.resolution = .resolved 3 ∧
      (analysis.bound.outline.withName 3 "f").rechosen own.lookup
        (if analysis.layout.span own.position ∈ plan.spans then "f" else own.name)
        (analysis.code.usageAt analysis.bound.outline own.position).arguments
        (analysis.layout.span own.position).start = .resolved 3 ∧
      other ∈ analysis.bound.references.toList ∧ other.name = "f" ∧ other.resolution = .resolved 1 ∧
      (analysis.bound.outline.withName 3 "f").rechosen other.lookup
        (if analysis.layout.span other.position ∈ plan.spans then "f" else other.name)
        (analysis.code.usageAt analysis.bound.outline other.position).arguments
        (analysis.layout.span other.position).start = .resolved 1 := by
  have computed :
      ((Analysis.ofText "class A { void f(int a) { } void g() { } void h() { f(1); g(); } }"
          ProjectIndex.empty).toOption.any fun analysis =>
        (analysis.planFor {} 3 "f").toOption.any fun plan =>
          (!plan.isIdentity && (analysis.bound.outline.declaration? 3).any (·.kind == .method))
            && (analysis.bound.references.toList.any fun own =>
              own.name == "g" && own.space == .method && own.resolution == .resolved 3
                && (analysis.code.usageAt analysis.bound.outline own.position).arguments == some 0
                && analysis.bound.outline.takes 0 3)
            && analysis.bound.references.toList.any fun other =>
              other.name == "f" && other.space == .method && other.resolution == .resolved 1
                && (analysis.code.usageAt analysis.bound.outline other.position).arguments == some 1
                && analysis.bound.outline.takes 1 1) = true := by
    decide +kernel
  obtain ⟨analysis, analysed, further⟩ := exists_ok_of_any computed
  obtain ⟨plan, planned, facts⟩ := exists_ok_of_any further
  simp only [Bool.and_eq_true, beq_iff_eq, Bool.not_eq_true', List.any_eq_true] at facts
  obtain ⟨⟨⟨changes, declared⟩, own, ownUsed, ⟨⟨⟨ownName, ownSpace⟩, ownResolved⟩, ownCount⟩, ownTakes⟩,
    other, otherUsed, ⟨⟨⟨otherName, otherSpace⟩, otherResolved⟩, otherCount⟩, otherTakes⟩ := facts
  obtain ⟨renamed, found, method⟩ := (Option.any_eq_true _ _).mp declared
  have kept {reference : Reference} (used : reference ∈ analysis.bound.references.toList)
      (space : reference.space = .method) {id count : Nat} (resolved : reference.resolution = .resolved id)
      (counted : (analysis.code.usageAt analysis.bound.outline reference.position).arguments = some count)
      (takes : analysis.bound.outline.takes count id = true) :=
    (overload_kept_iff analysed planned found (beq_iff_eq.mp method) changes used space (by rw [resolved]; rfl)).mpr
      fun _ => ⟨count, counted, id, by rw [resolved]; exact List.mem_cons_self, takes⟩
  exact ⟨analysis, plan, own, other, analysed, planned, ownUsed, ownName, ownResolved,
    (kept ownUsed ownSpace ownResolved ownCount ownTakes).trans ownResolved, otherUsed, otherName, otherResolved,
    (kept otherUsed otherSpace otherResolved otherCount otherTakes).trans otherResolved⟩

/-- A method may join another that a method reference denotes. The reference has no arguments to tell the two apart, so
it denotes neither any more. -/
theorem overload_confused :
    ∃ analysis plan use after,
      Analysis.ofText "class A { void f(int a) { } void g() { } void h() { IntConsumer r = this::f; } }"
        ProjectIndex.empty = .ok analysis ∧
      analysis.planFor {} 3 "f" = .ok plan ∧ plan.isIdentity = false ∧ plan.verdict = .clear ∧
      (analysis.bound.outline.declaration? 3).map (·.kind) = some .method ∧
      use ∈ analysis.bound.references.toList ∧ use.space = .method ∧ use.resolution = .resolved 1 ∧
      analysis.layout.span use.position ∉ plan.spans ∧
      (analysis.bound.outline.withName 3 "f").rechosen use.lookup use.name
        (analysis.code.usageAt analysis.bound.outline use.position).arguments
        (analysis.layout.span use.position).start = .ambiguous [1, 3] ∧
      analysis.apply plan =
        .ok "class A { void f(int a) { } void f() { } void h() { IntConsumer r = this::f; } }" ∧
      Analysis.ofText "class A { void f(int a) { } void f() { } void h() { IntConsumer r = this::f; } }"
        ProjectIndex.empty = .ok after ∧
      analysis.bound.references.toList.map (·.resolution) = [.unresolved, .resolved 1] ∧
      after.bound.references.toList.map (·.resolution) = [.unresolved, .ambiguous [1, 3]] := by
  have before :
      ((Analysis.ofText "class A { void f(int a) { } void g() { } void h() { IntConsumer r = this::f; } }"
          ProjectIndex.empty).toOption.any fun analysis =>
        (analysis.bound.references.toList.map (·.resolution) == [.unresolved, .resolved 1]
            && (analysis.bound.outline.declaration? 3).map (·.kind) == some .method)
          && (analysis.planFor {} 3 "f").toOption.any fun plan =>
            (!plan.isIdentity && plan.verdict == .clear
                && analysis.carriedOut plan ==
                  "class A { void f(int a) { } void f() { } void h() { IntConsumer r = this::f; } }")
              && analysis.bound.references.toList.any fun use =>
                use.space == .method && use.resolution == .resolved 1
                  && !decide (analysis.layout.span use.position ∈ plan.spans)
                  && (analysis.bound.outline.withName 3 "f").rechosen use.lookup use.name
                    (analysis.code.usageAt analysis.bound.outline use.position).arguments
                    (analysis.layout.span use.position).start == .ambiguous [1, 3]) =
        true := by
    decide +kernel
  have afterwards :
      ((Analysis.ofText "class A { void f(int a) { } void f() { } void h() { IntConsumer r = this::f; } }"
          ProjectIndex.empty).toOption.any fun after =>
        after.bound.references.toList.map (·.resolution) == [.unresolved, .ambiguous [1, 3]]) = true := by
    decide +kernel
  obtain ⟨analysis, analysed, checked⟩ := exists_ok_of_any before
  obtain ⟨after, reanalysed, lost⟩ := exists_ok_of_any afterwards
  simp only [Bool.and_eq_true, beq_iff_eq] at checked lost
  obtain ⟨⟨resolved, kind⟩, further⟩ := checked
  obtain ⟨plan, planned, facts⟩ := exists_ok_of_any further
  simp only [Bool.and_eq_true, beq_iff_eq, Bool.not_eq_true', List.any_eq_true, decide_eq_false_iff_not] at facts
  obtain ⟨⟨⟨changes, clear⟩, text⟩, use, used, ⟨⟨space, denotes⟩, unplanned⟩, confused⟩ := facts
  have applied := Analysis.apply_eq_ok analysed planned
  rw [text] at applied
  exact ⟨analysis, plan, use, after, analysed, planned, changes, clear, kind, used, space, denotes, unplanned, confused,
    applied, reanalysed, resolved, lost⟩

end ScopedRename
