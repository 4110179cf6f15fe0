import ScopedRename.Proofs.Binding.IndexIndependence

/-!
Planning reads references only in ways that do not tell an external name from an unresolved one. Main statement: a
rename gives the same text and plan, or the same error, under any two project indexes.
-/

namespace ScopedRename

namespace BoundOutline

structure Agrees (left right : BoundOutline) : Prop where
  outline : left.outline = right.outline
  references : List.Forall₂ Reference.Agrees left.references.toList right.references.toList

variable {left right : BoundOutline}

/-- A selection that takes only bound uses is the same on both sides. -/
private theorem filter_eq_of_agrees {test : Reference → Bool}
    (skips : ∀ reference : Reference, reference.resolution.isBound = false → test reference = false)
    {first second : List Reference} (agrees : List.Forall₂ Reference.Agrees first second) :
    first.filter test = second.filter test := by
  induction agrees with
  | nil => rfl
  | @cons reference other rest others here _ ih =>
      rw [List.filter_cons, List.filter_cons, ih]
      cases bound : reference.resolution.isBound with
      | true => rw [here.eq_of_isBound bound]
      | false =>
          have otherFree : other.resolution.isBound = false := here.resolution.isBound_eq.symm.trans bound
          rw [skips reference bound, skips other otherFree]
          rfl

theorem Agrees.referencesTo_eq (agrees : left.Agrees right) (id : DeclarationId) :
    left.referencesTo id = right.referencesTo id := by
  refine filter_eq_of_agrees ?_ agrees.references
  intro reference free
  apply beq_eq_false_iff_ne.mpr
  intro resolved
  rw [resolved] at free
  cases free

theorem Agrees.ambiguousWith_eq (agrees : left.Agrees right) (id : DeclarationId) :
    left.ambiguousWith id = right.ambiguousWith id := by
  refine filter_eq_of_agrees ?_ agrees.references
  intro reference free
  split
  · rename_i candidates several
    rw [several] at free
    cases free
  · rfl

theorem Agrees.positionOf_eq (agrees : left.Agrees right) : left.positionOf = right.positionOf := by
  funext id
  unfold positionOf
  rw [agrees.outline]

theorem Agrees.meetsAt_eq (agrees : left.Agrees right) : left.meetsAt = right.meetsAt := by
  funext target renamed newName site
  unfold meetsAt clashes
  rw [agrees.outline, agrees.positionOf_eq]

private theorem unbound_cases {resolution : Resolution} (free : resolution.isBound = false) :
    resolution = .unresolved ∨ ∃ declaration, resolution = .external declaration := by
  cases resolution with
  | resolved declaration => cases free
  | ambiguous candidates => cases free
  | external declaration => exact Or.inr ⟨declaration, rfl⟩
  | unresolved => exact Or.inl rfl

private theorem Agrees.captured?_eq (agrees : left.Agrees right) (renamed : Declaration) (newName : String)
    {reference other : Reference} (here : reference.Agrees other) :
    left.captured? renamed newName reference = right.captured? renamed newName other := by
  have outside : left.isOutside = right.isOutside := by
    funext declaration id
    unfold isOutside
    rw [agrees.outline]
  unfold captured? isCompatible
  rw [here.name, here.space, here.lookup, here.position, here.resolution.isBound_eq, outside,
    agrees.positionOf_eq, agrees.outline]
  rcases here.resolution with same | ⟨firstFree, secondFree⟩
  · rw [same]
  · rcases unbound_cases firstFree with firstAt | ⟨firstDeclaration, firstAt⟩ <;>
      rcases unbound_cases secondFree with secondAt | ⟨secondDeclaration, secondAt⟩ <;>
      rw [firstAt, secondAt]

private theorem Agrees.findSome?_captured (agrees : left.Agrees right) (renamed : Declaration) (newName : String)
    {first second : List Reference} (here : List.Forall₂ Reference.Agrees first second) :
    first.findSome? (left.captured? renamed newName) = second.findSome? (right.captured? renamed newName) := by
  induction here with
  | nil => rfl
  | @cons reference other rest others head _ ih =>
      rw [List.findSome?_cons, List.findSome?_cons, ih, agrees.captured?_eq renamed newName head]

theorem Agrees.verdict_eq (agrees : left.Agrees right) : left.verdict = right.verdict := by
  funext strict target renamed newName
  unfold verdict sites
  rw [agrees.referencesTo_eq, agrees.meetsAt_eq, agrees.positionOf_eq,
    agrees.findSome?_captured renamed newName agrees.references, agrees.outline]

theorem Agrees.planFor_eq (agrees : left.Agrees right) : left.planFor = right.planFor := by
  funext strict target newName
  unfold planFor renameSites
  rw [agrees.outline, agrees.ambiguousWith_eq, agrees.verdict_eq]
  simp only [agrees.referencesTo_eq]

/-! ### Locating the declaration -/

private theorem getElem?_agrees {first second : List Reference} (agrees : List.Forall₂ Reference.Agrees first second)
    (i : Nat) : Option.Rel Reference.Agrees first[i]? second[i]? := by
  induction agrees generalizing i with
  | nil => exact Option.Rel.none
  | cons here _ ih =>
      cases i with
      | zero => exact Option.Rel.some here
      | succ i => exact ih i

/-- A test that reads the position only keeps or drops both of two uses that agree. -/
private theorem filter_agrees {first second : Option Reference} (agrees : Option.Rel Reference.Agrees first second)
    (test : Nat → Bool) :
    Option.Rel Reference.Agrees (first.filter fun reference => test reference.position)
      (second.filter fun reference => test reference.position) := by
  cases agrees with
  | none => exact Option.Rel.none
  | some here =>
      rw [Option.filter_some, Option.filter_some, here.position]
      split
      · exact Option.Rel.some here
      · exact Option.Rel.none

private theorem any_eq_of_agrees {first second : Option Reference}
    (agrees : Option.Rel Reference.Agrees first second) (test : Nat → Bool) :
    (first.any fun reference => test reference.position) =
      second.any fun reference => test reference.position := by
  cases agrees with
  | none => rfl
  | some here => rw [Option.any_some, Option.any_some, here.position]

/-- The binary search reads positions only. -/
private theorem Agrees.referenceAt?_agrees (agrees : left.Agrees right) (layout : Layout) (offset : Nat) :
    Option.Rel Reference.Agrees (left.referenceAt? layout offset) (right.referenceAt? layout offset) := by
  have entry (i : Nat) : Option.Rel Reference.Agrees left.references[i]? right.references[i]? := by
    have listed := getElem?_agrees agrees.references i
    rwa [Array.getElem?_toList, Array.getElem?_toList] at listed
  have ends (i : Nat) := any_eq_of_agrees (entry i) fun position => decide ((layout.span position).stop ≤ offset)
  have size : left.references.size = right.references.size := agrees.references.length_eq
  unfold referenceAt?
  simp only [ends, size]
  exact filter_agrees (entry _) fun position => (layout.span position).contains offset

theorem Agrees.locate_eq (agrees : left.Agrees right) (layout : Layout) (locator : Locator) :
    left.locate layout locator = right.locate layout locator := by
  cases locator with
  | offset byte =>
      simp only [locate]
      rw [agrees.outline, agrees.positionOf_eq]
      split
      · rfl
      · have found := agrees.referenceAt?_agrees layout byte
        revert found
        generalize left.referenceAt? layout byte = first
        generalize right.referenceAt? layout byte = second
        intro found
        cases found with
        | none => rfl
        | @some reference other here =>
            dsimp only
            rw [here.position]
            rcases here.resolution with same | ⟨firstFree, secondFree⟩
            · rw [same]
            · rcases unbound_cases firstFree with firstAt | ⟨firstDeclaration, firstAt⟩ <;>
                rcases unbound_cases secondFree with secondAt | ⟨secondDeclaration, secondAt⟩ <;>
                rw [firstAt, secondAt]
  | path scopes kind name type =>
      simp only [locate, matching]
      rw [agrees.outline, agrees.positionOf_eq]

theorem Agrees.plan_eq (agrees : left.Agrees right) : left.plan = right.plan := by
  funext layout strict locator newName
  unfold plan
  rw [agrees.planFor_eq, agrees.locate_eq]

end BoundOutline

namespace Analysis

def rebind (analysis : Analysis) (index : ProjectIndex) : Analysis :=
  { analysis with
    bound := ⟨analysis.bound.outline, analysis.code.references analysis.bound.outline index⟩ }

theorem placed_rebind (analysis : Analysis) (index : ProjectIndex) (accepted : Except (Refusal Nat) Renaming) :
    (analysis.rebind index).placed accepted = analysis.placed accepted := by
  cases accepted with
  | error refusal => rfl
  | ok accepted => rfl

theorem apply_rebind (analysis : Analysis) (index : ProjectIndex) (plan : RenamePlan) :
    (analysis.rebind index).apply plan = analysis.apply plan := by
  have source : (analysis.rebind index).source = analysis.source := rfl
  have tokens : (analysis.rebind index).tokens = analysis.tokens := rfl
  unfold apply
  rw [source, tokens]

/-- The index has a say only in the last stage of an analysis. -/
theorem ofText_eq_rebind (source : String) (first second : ProjectIndex) :
    ofText source second = (ofText source first).map (·.rebind second) := by
  unfold ofText
  cases (Token.ofText source).mapError RenameError.lex with
  | error error => rfl
  | ok tokens =>
      dsimp only [bind, Except.bind]
      cases (Code.ofTokens tokens).mapError RenameError.structural with
      | error error => rfl
      | ok code => rfl

theorem rebind_agrees (analysis : Analysis) (first second : ProjectIndex) :
    (analysis.rebind first).bound.Agrees (analysis.rebind second).bound := by
  unfold rebind
  exact ⟨rfl, analysis.code.references_agree analysis.bound.outline first second⟩

theorem plan_rebind (analysis : Analysis) (first second : ProjectIndex) (options others : RenameOptions)
    (strictness : options.strictShadowing = others.strictShadowing) (locator : Locator) (newName : String) :
    (analysis.rebind first).plan options locator newName = (analysis.rebind second).plan others locator newName := by
  have layouts : (analysis.rebind first).layout = (analysis.rebind second).layout := rfl
  unfold plan
  rw [strictness, (analysis.rebind_agrees first second).plan_eq, layouts, placed_rebind, placed_rebind]

end Analysis

/-- A run that nobody calls off analyses the text, plans and carries the plan out. -/
theorem RenameContext.run_live (options : RenameOptions) (index : ProjectIndex) (source : String) (locator : Locator)
    (newName : String) :
    run ⟨options, index, false⟩ source locator newName =
      (Analysis.ofText source (if options.consultIndex then index else ProjectIndex.empty)).bind fun analysis =>
        (analysis.plan options locator newName).bind fun plan =>
          (analysis.apply plan).map fun text => ⟨text, plan⟩ := by
  have live (stage : Stage) : (RenameContext.mk options index false).checkpoint stage = .ok () := rfl
  unfold run analyze plan
  rw [live, live]
  dsimp only [bind, Except.bind]
  cases Analysis.ofText source _ with
  | error error => rfl
  | ok analysis =>
      dsimp only
      cases analysis.plan options locator newName with
      | error error => rfl
      | ok plan =>
          dsimp only
          cases analysis.apply plan with
          | error error => rfl
          | ok text => rfl

/-- Binding under two project indexes gives the same uses, looked up in the same places, with resolutions that differ
at most in how a name stays unbound; and a rename gives the same text and plan, or the same error, whichever index
stands behind it and whether or not it is asked. -/
theorem run_index_independent (firstIndex secondIndex : ProjectIndex) (strict consultFirst consultSecond : Bool)
    (source : String) (locator : Locator) (newName : String) :
    (∀ (code : Code) (outline : Outline),
      List.Forall₂ Reference.Agrees (code.references outline firstIndex).toList
        (code.references outline secondIndex).toList) ∧
    RenameContext.run ⟨⟨strict, consultFirst⟩, firstIndex, false⟩ source locator newName =
      RenameContext.run ⟨⟨strict, consultSecond⟩, secondIndex, false⟩ source locator newName := by
  refine ⟨fun code outline => code.references_agree outline firstIndex secondIndex, ?_⟩
  rw [RenameContext.run_live, RenameContext.run_live,
    Analysis.ofText_eq_rebind source ProjectIndex.empty (if consultFirst then firstIndex else ProjectIndex.empty),
    Analysis.ofText_eq_rebind source ProjectIndex.empty (if consultSecond then secondIndex else ProjectIndex.empty)]
  cases Analysis.ofText source ProjectIndex.empty with
  | error error => simp only [Except.map, Except.bind]
  | ok analysis =>
      dsimp only [Except.map, Except.bind]
      rw [analysis.plan_rebind _ (if consultSecond then secondIndex else ProjectIndex.empty) ⟨strict, consultFirst⟩
        ⟨strict, consultSecond⟩ rfl]
      simp only [Analysis.apply_rebind]

end ScopedRename
