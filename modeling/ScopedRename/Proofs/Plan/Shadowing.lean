import ScopedRename.Proofs.Plan.Overloads

/-!
What a new name hides. Every place where the target is looked up lies inside the target's scope, and nothing between
the two may have the new name, so all of them see the same outer declarations. Main statement: an accepted plan reports
exactly those, and strict mode refuses exactly the plans that report some.
-/

namespace ScopedRename

namespace Outline

/-- From the renamed declaration's scope, the new name leads to these declarations of a scope around it. -/
def Hides (outline : Outline) (renamed : Declaration) (newName : String) (hidden : List DeclarationId) : Prop :=
  ∃ outer, outline.lookup renamed.scope newName renamed.kind.space none = some (outer, hidden) ∧
    outer ≠ renamed.scope ∧ outline.isWithin renamed.scope outer = true

def hiddenBy (outline : Outline) (renamed : Declaration) (newName : String) : List DeclarationId :=
  match outline.lookup renamed.scope newName renamed.kind.space none with
  | some (outer, hidden) => if outer = renamed.scope then [] else hidden
  | none => []

variable {outline : Outline} {renamed : Declaration} {newName : String}

theorem hides_iff {hidden : List DeclarationId} :
    outline.Hides renamed newName hidden ↔ hidden ≠ [] ∧ outline.hiddenBy renamed newName = hidden := by
  unfold Hides hiddenBy
  cases looked : outline.lookup renamed.scope newName renamed.kind.space none with
  | none =>
      simp only [reduceCtorEq, false_and, exists_false, false_iff, not_and]
      intro nonempty empty
      exact nonempty empty.symm
  | some result =>
      obtain ⟨hit, candidates⟩ := result
      obtain ⟨_, _, _, _, _, nonempty⟩ := outline.lookup_eq_some_iff.mp looked
      have listed : outline.isWithin renamed.scope hit = true :=
        List.contains_iff_mem.mpr (outline.mem_ancestors_of_lookup looked)
      dsimp only
      constructor
      · rintro ⟨outer, same, outside, _⟩
        cases same
        exact ⟨nonempty, if_neg outside⟩
      · rintro ⟨something, same⟩
        split at same
        · exact absurd same.symm something
        · rename_i outside
          rw [same]
          exact ⟨hit, rfl, outside, listed⟩

theorem hiddenBy_ordered [outline.Registered] : (outline.hiddenBy renamed newName).Pairwise (· < ·) := by
  unfold hiddenBy
  split
  · rename_i outer hidden looked
    obtain ⟨_, _, _, _, visible, _⟩ := outline.lookup_eq_some_iff.mp looked
    rw [visibleIn_none] at visible
    split
    · exact List.Pairwise.nil
    · rw [← visible]
      exact outline.declaredIn_pairwise outer newName renamed.kind.space
  · exact List.Pairwise.nil

theorem declared_of_mem_hiddenBy [outline.Registered] {id : DeclarationId}
    (member : id ∈ outline.hiddenBy renamed newName) :
    (outline.declaration? id).isSome = true := by
  unfold hiddenBy at member
  split at member
  · rename_i looked
    split at member
    · cases member
    · obtain ⟨declaration, declared, _⟩ := outline.mem_declaredIn.mp (outline.mem_of_lookup looked member)
      rw [declared]
      rfl
  · cases member

end Outline

namespace BoundOutline

def judge (bound : BoundOutline) (strict : Bool) : List DeclarationId → Except Nat Verdict
  | [] => .ok .clear
  | first :: rest => if strict then .error (bound.positionOf first) else .ok (.shadowsOuter (first :: rest))

def Surrounds (bound : BoundOutline) (target : DeclarationId) (renamed : Declaration) : Prop :=
  ∀ scope, .lexical scope ∈ bound.sites target renamed → renamed.scope ∈ bound.outline.ancestors scope

variable {bound : BoundOutline} {target : DeclarationId} {renamed : Declaration} {newName : String}

/-- A place inside the target's scope sees the outer declarations that the target's scope sees. -/
theorem hidden_of_meetsAt {scope : ScopeId} (around : renamed.scope ∈ bound.outline.ancestors scope)
    {hidden : List DeclarationId} (met : bound.meetsAt target renamed newName (.lexical scope) = .ok hidden) :
    hidden = bound.outline.hiddenBy renamed newName := by
  have collapsed : bound.outline.lookup scope newName renamed.kind.space none =
      bound.outline.lookup renamed.scope newName renamed.kind.space none := by
    apply bound.outline.lookup_eq_of_mem_ancestors around
    intro between member inside
    rw [Outline.visibleIn_none]
    exact declaredIn_inside_of_meetsAt met around member inside
  unfold Outline.hiddenBy
  rw [← collapsed]
  cases looked : bound.outline.lookup scope newName renamed.kind.space none with
  | none =>
      simp only [meetsAt, looked] at met
      cases met
      rfl
  | some result =>
      obtain ⟨hit, candidates⟩ := result
      dsimp only
      by_cases own : hit = renamed.scope
      · rw [if_pos own]
        exact (hit_of_meetsAt met looked (own ▸ bound.outline.self_mem_ancestors hit)).2
      · rw [if_neg own]
        have outside : bound.outline.isWithin hit renamed.scope = false := by
          rw [Bool.eq_false_iff]
          intro inside
          exact own (hit_of_meetsAt met looked (List.contains_iff_mem.mp inside)).1
        simp only [meetsAt, looked, outside, Bool.false_eq_true, if_false] at met
        exact (Except.ok.inj met).symm

/-- The declarations gathered from all the places are those that the target's scope sees. -/
theorem mem_gathered_iff (surrounds : bound.Surrounds target renamed) {hidden : List (List DeclarationId)}
    (met : (bound.sites target renamed).mapM (bound.meetsAt target renamed newName) = .ok hidden)
    (id : DeclarationId) : id ∈ hidden.flatten ↔ id ∈ bound.outline.hiddenBy renamed newName := by
  rw [List.mem_flatten]
  constructor
  · rintro ⟨part, listed, member⟩
    obtain ⟨site, checked, here⟩ := step_of_mapM_eq_ok met part listed
    cases site with
    | lexical scope => rwa [hidden_of_meetsAt (surrounds scope checked) here] at member
    | member type =>
        simp only [meetsAt] at here
        split at here
        · cases here
        · cases here
          cases member
    | foreign =>
        cases here
        cases member
    | path =>
        cases here
        cases member
  · intro member
    obtain ⟨part, listed, here⟩ := answer_of_mapM_eq_ok met _ (own_site target renamed)
    refine ⟨part, listed, ?_⟩
    rwa [hidden_of_meetsAt (bound.outline.self_mem_ancestors renamed.scope) here]

/-- A verdict either finds something in the way, in both modes the same, or judges what the target's scope sees. -/
theorem verdict_modes [bound.outline.Registered] (surrounds : bound.Surrounds target renamed) (newName : String) :
    (∃ position, ∀ strict, bound.verdict strict target renamed newName = .error position) ∨
      ∀ strict, bound.verdict strict target renamed newName =
        bound.judge strict (bound.outline.hiddenBy renamed newName) := by
  unfold verdict
  cases met : (bound.sites target renamed).mapM (bound.meetsAt target renamed newName) with
  | error position => exact Or.inl ⟨position, fun _ => rfl⟩
  | ok hidden =>
      dsimp only [bind, Except.bind]
      cases bound.references.toList.findSome? (bound.captured? renamed newName) with
      | some position => exact Or.inl ⟨position, fun _ => rfl⟩
      | none =>
          have gathered : bound.outline.declarationIds.filter (hidden.flatten.contains ·) =
              bound.outline.hiddenBy renamed newName := by
            refine Outline.eq_of_ordered (List.pairwise_lt_range.filter _) Outline.hiddenBy_ordered ?_
            intro id
            rw [List.mem_filter, List.contains_iff_mem, mem_gathered_iff surrounds met, Outline.mem_declarationIds,
              and_iff_right_iff_imp]
            exact Outline.declared_of_mem_hiddenBy
          refine Or.inr fun strict => ?_
          dsimp only
          rw [gathered]
          cases bound.outline.hiddenBy renamed newName with
          | nil => rfl
          | cons first rest => rfl

/-- The two modes of planning: they refuse alike, or accept alike a name that hides nothing, or the lenient one
reports what the strict one refuses. -/
theorem planFor_modes [bound.outline.Registered] (found : bound.outline.declaration? target = some renamed)
    (different : renamed.name ≠ newName)
    (surrounds : bound.Surrounds target renamed) :
    (∃ refusal, ∀ strict, bound.planFor strict target newName = .error refusal) ∨
      ∃ accepted, bound.planFor false target newName = .ok accepted ∧
        (bound.outline.hiddenBy renamed newName = [] ∧ accepted.verdict = .clear ∧
            bound.planFor true target newName = .ok accepted ∨
          ∃ first rest, bound.outline.hiddenBy renamed newName = first :: rest ∧
            accepted.verdict = .shadowsOuter (first :: rest) ∧
            bound.planFor true target newName = .error (.nameConflict newName (bound.positionOf first))) := by
  unfold planFor
  cases Name.fault? newName with
  | some fault => exact Or.inl ⟨_, fun _ => rfl⟩
  | none =>
      dsimp only
      rw [found]
      dsimp only
      cases (bound.ambiguousWith target).map (·.position) with
      | cons first rest => exact Or.inl ⟨_, fun _ => rfl⟩
      | nil =>
          dsimp only
          simp only [beq_eq_false_iff_ne.mpr different, Bool.false_eq_true, if_false]
          rcases verdict_modes surrounds newName with ⟨position, same⟩ | judged
          · refine Or.inl ⟨.nameConflict newName position, fun strict => ?_⟩
            rw [same strict]
          · refine Or.inr ?_
            rw [judged false, judged true]
            cases bound.outline.hiddenBy renamed newName with
            | nil => exact ⟨_, rfl, Or.inl ⟨rfl, rfl, rfl⟩⟩
            | cons first rest => exact ⟨_, rfl, Or.inr ⟨first, rest, rfl, rfl, rfl⟩⟩

end BoundOutline

namespace Analysis

variable {source newName : String} {index : ProjectIndex} {analysis : Analysis} {target : DeclarationId}
  {renamed : Declaration}

theorem surrounds (analysed : ofText source index = .ok analysis)
    (found : analysis.bound.outline.declaration? target = some renamed) :
    analysis.bound.Surrounds target renamed := by
  obtain ⟨_, _, _, _, bound, _⟩ := ofText_eq_ok analysed
  intro scope listed
  rcases List.mem_cons.mp (List.mem_eraseDups.mp listed) with own | further
  · cases own
    exact analysis.bound.outline.self_mem_ancestors renamed.scope
  · obtain ⟨reference, uses, site⟩ := List.mem_map.mp further
    obtain ⟨used, resolved⟩ := BoundOutline.mem_referencesTo.mp uses
    have candidate : target ∈ reference.resolution.candidates := by
      rw [resolved]
      exact List.mem_cons_self
    rw [bound] at used found ⊢
    obtain ⟨_, same⟩ := (analysis.code.referenceAt?_eq_some _ index).mp
      ((analysis.code.mem_references _ index).mp used)
    rw [same] at candidate site
    exact analysis.code.scope_mem_ancestors_of_mem_bindingAt _ index candidate site found

/-- The two modes of planning for a text, its places being spans. -/
theorem planFor_modes (analysed : ofText source index = .ok analysis)
    (found : analysis.bound.outline.declaration? target = some renamed) (different : renamed.name ≠ newName)
    (options : RenameOptions) :
    (∃ error, ∀ strict, analysis.planFor { options with strictShadowing := strict } target newName = .error error) ∨
      ∃ plan, analysis.planFor { options with strictShadowing := false } target newName = .ok plan ∧
        (analysis.bound.outline.hiddenBy renamed newName = [] ∧ plan.verdict = .clear ∧
            analysis.planFor { options with strictShadowing := true } target newName = .ok plan ∨
          ∃ first rest, analysis.bound.outline.hiddenBy renamed newName = first :: rest ∧
            plan.verdict = .shadowsOuter (first :: rest) ∧
            analysis.planFor { options with strictShadowing := true } target newName =
              .error (.refused (.nameConflict newName (analysis.layout.span (analysis.bound.positionOf first))))) := by
  have := Analysis.registered analysed
  unfold planFor
  rcases BoundOutline.planFor_modes found different (surrounds analysed found) with
    ⟨refusal, refused⟩ | ⟨accepted, lenient, ⟨nothing, clear, strict⟩ | ⟨first, rest, hidden, shadows, strict⟩⟩
  · refine Or.inl ⟨.refused (refusal.map analysis.layout.span), fun strict => ?_⟩
    rw [refused strict]
    rfl
  · refine Or.inr ⟨accepted.toPlan analysis.layout analysis.hash, ?_, Or.inl ⟨nothing, clear, ?_⟩⟩
    · rw [lenient]
      rfl
    · rw [strict]
      rfl
  · refine Or.inr ⟨accepted.toPlan analysis.layout analysis.hash, ?_, Or.inr ⟨first, rest, hidden, shadows, ?_⟩⟩
    · rw [lenient]
      rfl
    · rw [strict]
      rfl

/-- A plan accepted without strict shadowing reports what the target's scope sees. -/
theorem verdict_of_lenient (analysed : ofText source index = .ok analysis)
    (found : analysis.bound.outline.declaration? target = some renamed) (different : renamed.name ≠ newName)
    {options : RenameOptions} {plan : RenamePlan}
    (planned : analysis.planFor { options with strictShadowing := false } target newName = .ok plan) :
    (∀ hidden, plan.verdict = .shadowsOuter hidden ↔ analysis.bound.outline.Hides renamed newName hidden) ∧
      (plan.verdict = .clear ↔ ∀ hidden, ¬analysis.bound.outline.Hides renamed newName hidden) := by
  simp only [Outline.hides_iff]
  rcases planFor_modes analysed found different options with
    ⟨error, refused⟩ | ⟨accepted, lenient, ⟨nothing, clear, _⟩ | ⟨first, rest, shadowed, shadows, _⟩⟩
  · rw [refused] at planned
    cases planned
  · rw [lenient] at planned
    cases planned
    rw [nothing, clear]
    constructor
    · intro hidden
      simp [eq_comm]
    · simp [eq_comm]
  · rw [lenient] at planned
    cases planned
    rw [shadowed, shadows]
    constructor
    · intro hidden
      rw [Verdict.shadowsOuter.injEq, iff_and_self]
      intro same
      rw [← same]
      exact List.cons_ne_nil first rest
    · simp

end Analysis

/-- Take a declaration and a name other than its own. A plan accepted without strict shadowing reports declarations as
hidden exactly if, looked up from the target's scope whatever comes before what, the new name leads to these in a scope
strictly around it, by number; otherwise it is clear. With strict shadowing, errors and clear plans stay as they are,
and any other plan becomes a conflict with the first of the declarations it hides. -/
theorem shadowing_exact {source newName : String} {index : ProjectIndex} {analysis : Analysis}
    {target : DeclarationId} {renamed : Declaration} (analysed : Analysis.ofText source index = .ok analysis)
    (found : analysis.bound.outline.declaration? target = some renamed) (different : renamed.name ≠ newName)
    (options : RenameOptions) :
    (∀ plan, analysis.planFor { options with strictShadowing := false } target newName = .ok plan →
      (∀ hidden, plan.verdict = .shadowsOuter hidden ↔ analysis.bound.outline.Hides renamed newName hidden) ∧
      (plan.verdict = .clear ↔ ∀ hidden, ¬analysis.bound.outline.Hides renamed newName hidden)) ∧
    (∀ hidden, analysis.bound.outline.Hides renamed newName hidden → hidden.Pairwise (· < ·)) ∧
    (∀ error, analysis.planFor { options with strictShadowing := false } target newName = .error error →
      analysis.planFor { options with strictShadowing := true } target newName = .error error) ∧
    (∀ plan, analysis.planFor { options with strictShadowing := false } target newName = .ok plan →
      plan.verdict = .clear →
      analysis.planFor { options with strictShadowing := true } target newName = .ok plan) ∧
    ∀ plan hidden, analysis.planFor { options with strictShadowing := false } target newName = .ok plan →
      plan.verdict = .shadowsOuter hidden →
      ∃ first declaration, hidden.head? = some first ∧
        analysis.bound.outline.declaration? first = some declaration ∧
        analysis.planFor { options with strictShadowing := true } target newName =
          .error (.refused (.nameConflict newName (analysis.layout.span declaration.position))) := by
  have := Analysis.registered analysed
  refine ⟨fun plan planned => Analysis.verdict_of_lenient analysed found different planned, ?_, ?_⟩
  · intro hidden hides
    rw [← (Outline.hides_iff.mp hides).2]
    exact Outline.hiddenBy_ordered
  rcases Analysis.planFor_modes analysed found different options with
    ⟨error, refused⟩ | ⟨accepted, lenient, ⟨_, clear, strict⟩ | ⟨first, rest, shadowed, shadows, strict⟩⟩
  · rw [refused, refused]
    refine ⟨fun _ same => same, ?_, ?_⟩
    · intro plan impossible
      cases impossible
    · intro plan hidden impossible
      cases impossible
  · rw [lenient, strict]
    refine ⟨?_, fun _ same _ => same, ?_⟩
    · intro error impossible
      cases impossible
    · intro plan hidden same shadows
      cases same
      rw [clear] at shadows
      cases shadows
  · obtain ⟨declaration, declared⟩ := Option.isSome_iff_exists.mp
      (Outline.declared_of_mem_hiddenBy (shadowed ▸ List.mem_cons_self : first ∈ _))
    rw [lenient, strict]
    refine ⟨?_, ?_, ?_⟩
    · intro error impossible
      cases impossible
    · intro plan same clear
      cases same
      rw [shadows] at clear
      cases clear
    · intro plan hidden same reported
      cases same
      rw [shadows] at reported
      cases reported
      refine ⟨first, declaration, rfl, declared, ?_⟩
      unfold BoundOutline.positionOf
      rw [declared]
      rfl

/-- A parameter that takes the name of a field, with a use in an inner block. -/
theorem shadowing_exact_field :
    ∃ analysis plan,
      Analysis.ofText "class A { int x; void f(int y) { { int z = y; } } }" ProjectIndex.empty = .ok analysis ∧
      analysis.planFor { strictShadowing := false } 3 "x" = .ok plan ∧ plan.verdict = .shadowsOuter [1] ∧
      analysis.planFor { strictShadowing := true } 3 "x" = .error (.refused (.nameConflict "x" ⟨14, 15⟩)) := by
  have computed :
      ((Analysis.ofText "class A { int x; void f(int y) { { int z = y; } } }" ProjectIndex.empty).toOption.any
        fun analysis =>
          (analysis.planFor { strictShadowing := false } 3 "x").toOption.any fun plan =>
            (analysis.bound.outline.declaration? 3).any (·.name == "y")
              && (analysis.bound.outline.declaration? 1).any (analysis.layout.span ·.position == ⟨14, 15⟩)
              && plan.verdict == .shadowsOuter [1]) = true := by
    decide +kernel
  obtain ⟨analysis, analysed, further⟩ := exists_ok_of_any computed
  obtain ⟨plan, planned, facts⟩ := exists_ok_of_any further
  simp only [Bool.and_eq_true, beq_iff_eq] at facts
  obtain ⟨⟨declared, place⟩, shadows⟩ := facts
  obtain ⟨renamed, found, named⟩ := (Option.any_eq_true _ _).mp declared
  obtain ⟨field, foundField, span⟩ := (Option.any_eq_true _ _).mp place
  have different : renamed.name ≠ "x" := by
    rw [beq_iff_eq.mp named]
    decide
  obtain ⟨_, _, _, _, refused⟩ := shadowing_exact analysed found different {}
  obtain ⟨first, declaration, head, foundFirst, strict⟩ := refused plan [1] planned shadows
  cases head
  rw [foundField] at foundFirst
  cases foundFirst
  rw [beq_iff_eq.mp span] at strict
  exact ⟨analysis, plan, analysed, planned, shadows, strict⟩

end ScopedRename
