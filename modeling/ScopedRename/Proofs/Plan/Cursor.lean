import ScopedRename.Proofs.Fallible
import ScopedRename.Proofs.Plan.Exact

/-!
What the cursor points at. The words of a text do not overlap, so an offset lies in at most one of them, and halving
the references in order finds the one around it. Main statement: the offset decides the answer, whichever byte of a
name the cursor is on, and every use of a planned target gives the same plan.
-/

namespace ScopedRename

/-! ### Halving -/

theorem le_partitionPoint (test : Nat → Bool) (low high : Nat) : low ≤ partitionPoint test low high := by
  fun_induction partitionPoint test low high with
  | case1 low high room middle passed ih => omega
  | case2 low high room middle failed ih => exact ih
  | case3 low high closed => exact Nat.le_refl low

theorem partitionPoint_le {test : Nat → Bool} {low high : Nat} (ordered : low ≤ high) :
    partitionPoint test low high ≤ high := by
  fun_induction partitionPoint test low high with
  | case1 low high room middle passed ih => exact ih (by omega)
  | case2 low high room middle failed ih =>
      have left := ih (by omega)
      omega
  | case3 low high closed => exact ordered

/-- A test that holds wherever it holds further on holds exactly below the point found. -/
theorem lt_partitionPoint_iff {test : Nat → Bool} {low high : Nat}
    (falling : ∀ i j, i < j → j < high → test j = true → test i = true) {i : Nat} (above : low ≤ i) (below : i < high) :
    i < partitionPoint test low high ↔ test i = true := by
  fun_induction partitionPoint test low high with
  | case1 low high room middle passed ih =>
      by_cases right : middle + 1 ≤ i
      · exact ih falling right below
      · have behind : i < partitionPoint test (middle + 1) high :=
          Nat.lt_of_lt_of_le (by omega) (le_partitionPoint test (middle + 1) high)
        have holds : test i = true := by
          rcases Nat.eq_or_lt_of_le (Nat.le_of_lt_succ (Nat.lt_of_not_le right)) with here | before
          · rw [here]
            exact passed
          · exact falling i middle before (by omega) passed
        exact iff_of_true behind holds
  | case2 low high room middle failed ih =>
      by_cases left : i < middle
      · exact ih (fun i j before inside => falling i j before (by omega)) above left
      · have past : ¬i < partitionPoint test low middle := by
          have bounded : partitionPoint test low middle ≤ middle := partitionPoint_le (by omega)
          omega
        have fails : ¬test i = true := by
          intro holds
          rcases Nat.eq_or_lt_of_le (Nat.le_of_not_lt left) with here | after
          · rw [here] at failed
            exact failed holds
          · exact failed (falling middle i after below holds)
        exact iff_of_false past fails
  | case3 low high closed => omega

/-- Looking only where a match can be is looking everywhere. -/
theorem find?_eq_filter_getElem? {item : Type} {items : List item} {test : item → Bool} {place : Nat}
    (only : ∀ i entry, items[i]? = some entry → test entry = true → i = place) :
    items.find? test = (items[place]?).filter test := by
  cases found : items.find? test with
  | some entry =>
      obtain ⟨i, here⟩ := List.mem_iff_getElem?.mp (List.mem_of_find?_eq_some found)
      have passes : test entry = true := List.find?_some found
      rw [← only i entry here passes, here, Option.filter_some, if_pos passes]
  | none =>
      cases here : items[place]? with
      | none => rfl
      | some entry =>
          have fails := List.find?_eq_none.mp found entry (List.mem_of_getElem? here)
          rw [Option.filter_some, if_neg fails]

theorem Span.contains_iff {span : Span} {offset : Nat} :
    span.contains offset = true ↔ span.start ≤ offset ∧ offset < span.stop := by
  unfold contains
  rw [Bool.and_eq_true, decide_eq_true_eq, decide_eq_true_eq]

theorem BoundOutline.positionOf_eq {bound : BoundOutline} {id : DeclarationId} {declaration : Declaration}
    (declared : bound.outline.declaration? id = some declaration) : bound.positionOf id = declaration.position := by
  unfold positionOf
  rw [declared]
  rfl

namespace Analysis

def answer (analysis : Analysis) (offset : Nat) (reference : Reference) : Except RenameError DeclarationId :=
  match reference.resolution with
  | .resolved target => .ok target
  | .ambiguous _ => .error (.refused (.ambiguousReference [analysis.layout.span reference.position]))
  | .external _ | .unresolved => .error (.refused (.notFound (Locator.offset offset).describe))

variable {source : String} {index : ProjectIndex} {analysis : Analysis}
  (analysed : ofText source index = .ok analysis) {offset : Nat}

include analysed

theorem position_eq_of_contains {left right : Nat} (leftWord : analysis.code.isIdentifier left = true)
    (rightWord : analysis.code.isIdentifier right = true)
    (inLeft : (analysis.layout.span left).contains offset = true)
    (inRight : (analysis.layout.span right).contains offset = true) : left = right := by
  obtain ⟨_, built, _, layout, _, _⟩ := ofText_eq_ok analysed
  have leftInside := Code.size_ofTokens built ▸ analysis.code.isIdentifier_lt_size leftWord
  have rightInside := Code.size_ofTokens built ▸ analysis.code.isIdentifier_lt_size rightWord
  rw [Span.contains_iff, layout] at inLeft inRight
  refine Nat.le_antisymm ?_ ?_
  · exact (Layout.start_lt_stop_iff (tiled analysed) leftInside rightInside).mp (by omega)
  · exact (Layout.start_lt_stop_iff (tiled analysed) rightInside leftInside).mp (by omega)

/-- Of two references in order, the earlier one ends before the later one begins. -/
theorem reference_stop_le_start {i j : Nat} {left right : Reference} (before : i < j)
    (leftAt : analysis.bound.references[i]? = some left) (rightAt : analysis.bound.references[j]? = some right) :
    (analysis.layout.span left.position).stop ≤ (analysis.layout.span right.position).start ∧
      (analysis.layout.span right.position).start < (analysis.layout.span right.position).stop := by
  obtain ⟨_, built, _, layout, _, _⟩ := ofText_eq_ok analysed
  rw [← Array.getElem?_toList] at leftAt rightAt
  obtain ⟨leftBound, leftHere⟩ := List.getElem?_eq_some_iff.mp leftAt
  obtain ⟨rightBound, rightHere⟩ := List.getElem?_eq_some_iff.mp rightAt
  have ordered := List.pairwise_iff_getElem.mp (references_ordered analysed) i j leftBound rightBound before
  rw [leftHere, rightHere] at ordered
  have inside : right.position < (Token.significant analysis.tokens).length :=
    Code.size_ofTokens built ▸
      analysis.code.isIdentifier_lt_size (reference_spelled analysed (List.mem_of_getElem? rightAt)).1
  rw [layout]
  exact ⟨Layout.stop_le_start (tiled analysed) ordered inside, Layout.start_lt_stop (tiled analysed) inside⟩

/-- Halving finds the reference that looking at all of them in turn finds. -/
theorem referenceAt?_eq_find? :
    analysis.bound.referenceAt? analysis.layout offset =
      analysis.bound.references.toList.find? fun reference =>
        (analysis.layout.span reference.position).contains offset := by
  -- the references that end at or before the offset are the first ones of the list
  let ends (i : Nat) : Bool :=
    (analysis.bound.references[i]?).any fun reference => (analysis.layout.span reference.position).stop ≤ offset
  have endsAt {i : Nat} {reference : Reference} (here : analysis.bound.references[i]? = some reference) :
      ends i = true ↔ (analysis.layout.span reference.position).stop ≤ offset := by
    simp only [ends]
    rw [here, Option.any_some, decide_eq_true_eq]
  have falling : ∀ i j, i < j → j < analysis.bound.references.size → ends j = true → ends i = true := by
    intro i j before inside ended
    have leftAt := Array.getElem?_eq_getElem (Nat.lt_trans before inside)
    have rightAt := Array.getElem?_eq_getElem inside
    have later := (endsAt rightAt).mp ended
    obtain ⟨apart, proper⟩ := reference_stop_le_start analysed before leftAt rightAt
    exact (endsAt leftAt).mpr (by omega)
  have point {i : Nat} (inside : i < analysis.bound.references.size) :
      i < partitionPoint ends 0 analysis.bound.references.size ↔ ends i = true :=
    lt_partitionPoint_iff falling (Nat.zero_le i) inside
  unfold BoundOutline.referenceAt?
  dsimp only
  rw [← Array.getElem?_toList]
  refine (find?_eq_filter_getElem? ?_).symm
  intro i reference here holds
  obtain ⟨starts, stops⟩ := Span.contains_iff.mp holds
  rw [Array.getElem?_toList] at here
  obtain ⟨inside, _⟩ := Array.getElem?_eq_some_iff.mp here
  refine Nat.le_antisymm ?_ (Nat.le_of_not_lt ?_)
  · -- the reference at the point has not ended, so it does not end before this one begins
    by_contra late
    have between : partitionPoint ends 0 analysis.bound.references.size < i := Nat.lt_of_not_le late
    have found := Array.getElem?_eq_getElem (Nat.lt_trans between inside)
    have unended := mt (endsAt found).mpr (mt (point (Nat.lt_trans between inside)).mpr (Nat.lt_irrefl _))
    obtain ⟨apart, _⟩ := reference_stop_le_start analysed between found here
    omega
  · intro early
    have ended := (endsAt here).mp ((point inside).mp early)
    omega

/-- A declared name and a use never share an offset. -/
theorem not_contains_of_declared {id : DeclarationId} {declaration : Declaration} {reference : Reference}
    (declared : analysis.bound.outline.declaration? id = some declaration)
    (used : reference ∈ analysis.bound.references.toList)
    (inName : (analysis.layout.span declaration.position).contains offset = true) :
    (analysis.layout.span reference.position).contains offset = false := by
  obtain ⟨identifier, _, undeclared⟩ := reference_spelled analysed used
  refine Bool.eq_false_iff.mpr fun inUse => ?_
  have same := position_eq_of_contains analysed (declaration_spelled analysed declared).1 identifier inName inUse
  have := registered analysed
  exact analysis.bound.outline.declarationAt?_ne_none declared same undeclared

theorem locate_declared {id : DeclarationId} {declaration : Declaration}
    (declared : analysis.bound.outline.declaration? id = some declaration)
    (inName : (analysis.layout.span declaration.position).contains offset = true) :
    ∃ found other, analysis.locate (.offset offset) = .ok found ∧
      analysis.bound.outline.declaration? found = some other ∧ other.position = declaration.position := by
  unfold locate BoundOutline.locate
  dsimp only
  cases searched : analysis.bound.outline.declarationIds.find? fun id =>
      (analysis.layout.span (analysis.bound.positionOf id)).contains offset with
  | none =>
      have listed := analysis.bound.outline.mem_declarationIds.mpr (Option.isSome_of_eq_some declared)
      have missed := List.find?_eq_none.mp searched id listed
      rw [BoundOutline.positionOf_eq declared] at missed
      exact absurd inName missed
  | some found =>
      have listed := List.mem_of_find?_eq_some searched
      obtain ⟨other, otherDeclared⟩ := Option.isSome_iff_exists.mp (analysis.bound.outline.mem_declarationIds.mp listed)
      have around := List.find?_some searched
      rw [BoundOutline.positionOf_eq otherDeclared] at around
      refine ⟨found, other, rfl, otherDeclared, ?_⟩
      exact position_eq_of_contains analysed (declaration_spelled analysed otherDeclared).1
        (declaration_spelled analysed declared).1 around inName

omit analysed in
/-- Without a declared name around the offset, the reference found there decides. -/
theorem locate_undeclared
    (undeclared : ∀ id declaration, analysis.bound.outline.declaration? id = some declaration →
      (analysis.layout.span declaration.position).contains offset = false) :
    analysis.locate (.offset offset) =
      (analysis.bound.referenceAt? analysis.layout offset).elim
        (.error (.refused (.notFound (Locator.offset offset).describe))) (analysis.answer offset) := by
  have nothing : (analysis.bound.outline.declarationIds.find? fun id =>
      (analysis.layout.span (analysis.bound.positionOf id)).contains offset) = none := by
    refine List.find?_eq_none.mpr fun id listed => ?_
    obtain ⟨declaration, declared⟩ := Option.isSome_iff_exists.mp (analysis.bound.outline.mem_declarationIds.mp listed)
    rw [BoundOutline.positionOf_eq declared, undeclared id declaration declared]
    exact Bool.false_ne_true
  unfold locate BoundOutline.locate answer
  dsimp only
  rw [nothing]
  cases analysis.bound.referenceAt? analysis.layout offset with
  | none => rfl
  | some reference =>
      dsimp only [Option.elim]
      cases reference.resolution with
      | resolved target => rfl
      | ambiguous candidates => rfl
      | external declaration => rfl
      | unresolved => rfl

theorem locate_used {reference : Reference} (used : reference ∈ analysis.bound.references.toList)
    (inUse : (analysis.layout.span reference.position).contains offset = true) :
    analysis.locate (.offset offset) = analysis.answer offset reference := by
  have undeclared : ∀ id declaration, analysis.bound.outline.declaration? id = some declaration →
      (analysis.layout.span declaration.position).contains offset = false := by
    intro id declaration declared
    refine Bool.eq_false_iff.mpr fun inName => ?_
    rw [not_contains_of_declared analysed declared used inName] at inUse
    cases inUse
  rw [locate_undeclared undeclared, referenceAt?_eq_find? analysed]
  cases searched : analysis.bound.references.toList.find? fun reference =>
      (analysis.layout.span reference.position).contains offset with
  | none => exact absurd inUse (List.find?_eq_none.mp searched reference used)
  | some found =>
      have foundUsed := List.mem_of_find?_eq_some searched
      have around := List.find?_some searched
      have same : found = reference := by
        refine reference_unique analysed foundUsed used ?_
        exact position_eq_of_contains analysed (reference_spelled analysed foundUsed).1
          (reference_spelled analysed used).1 around inUse
      rw [same, Option.elim_some]

theorem locate_nothing
    (undeclared : ∀ id declaration, analysis.bound.outline.declaration? id = some declaration →
      (analysis.layout.span declaration.position).contains offset = false)
    (unused : ∀ reference ∈ analysis.bound.references.toList,
      (analysis.layout.span reference.position).contains offset = false) :
    analysis.locate (.offset offset) = .error (.refused (.notFound (Locator.offset offset).describe)) := by
  have nothing : analysis.bound.references.toList.find? (fun reference =>
      (analysis.layout.span reference.position).contains offset) = none := by
    refine List.find?_eq_none.mpr fun reference used => ?_
    rw [unused reference used]
    exact Bool.false_ne_true
  rw [locate_undeclared undeclared, referenceAt?_eq_find? analysed, nothing, Option.elim_none]

omit analysed in
theorem plan_of_locate {options : RenameOptions} {locator : Locator} {target : DeclarationId} {newName : String}
    {plan : RenamePlan} (located : analysis.locate locator = .ok target)
    (planned : analysis.planFor options target newName = .ok plan) :
    analysis.plan options locator newName = .ok plan := by
  obtain ⟨accepted, plannedWords, placed⟩ := planFor_eq_ok planned
  obtain ⟨valid, _⟩ := BoundOutline.planFor_eq_ok plannedWords
  have pointed : analysis.bound.locate analysis.layout locator = .ok target := by
    unfold locate at located
    exact mapError_eq_ok.mp located
  unfold Analysis.plan BoundOutline.plan
  rw [valid, pointed]
  dsimp only [bind, Except.bind]
  rw [plannedWords, placed]
  rfl

end Analysis

/-- An offset inside a declared name points at a declaration of that name; one inside a use is answered by what the use
denotes; any other points at nothing. Halving the references is the same as looking at each, and every offset inside a
use of an accepted plan's target points at the target and gives that plan again. -/
theorem cursor_classified {source : String} {index : ProjectIndex} {analysis : Analysis}
    (analysed : Analysis.ofText source index = .ok analysis) (offset : Nat) :
    (∀ id declaration, analysis.bound.outline.declaration? id = some declaration →
      (analysis.layout.span declaration.position).contains offset = true →
      ∃ found other, analysis.locate (.offset offset) = .ok found ∧
        analysis.bound.outline.declaration? found = some other ∧ other.position = declaration.position) ∧
    (∀ reference ∈ analysis.bound.references.toList,
      (analysis.layout.span reference.position).contains offset = true →
      analysis.locate (.offset offset) = analysis.answer offset reference) ∧
    ((∀ id declaration, analysis.bound.outline.declaration? id = some declaration →
        (analysis.layout.span declaration.position).contains offset = false) →
      (∀ reference ∈ analysis.bound.references.toList,
        (analysis.layout.span reference.position).contains offset = false) →
      analysis.locate (.offset offset) = .error (.refused (.notFound (Locator.offset offset).describe))) ∧
    analysis.bound.referenceAt? analysis.layout offset =
      analysis.bound.references.toList.find? (fun reference =>
        (analysis.layout.span reference.position).contains offset) ∧
    ∀ options target newName plan, analysis.planFor options target newName = .ok plan →
      ∀ reference ∈ analysis.bound.referencesTo target,
        (analysis.layout.span reference.position).contains offset = true →
        analysis.locate (.offset offset) = .ok plan.target ∧ plan.target = target ∧
          analysis.plan options (.offset offset) newName = .ok plan := by
  refine ⟨fun id declaration => Analysis.locate_declared analysed, fun reference => Analysis.locate_used analysed,
    Analysis.locate_nothing analysed, Analysis.referenceAt?_eq_find? analysed, ?_⟩
  intro options target newName plan planned reference denotes inUse
  obtain ⟨used, resolved⟩ := BoundOutline.mem_referencesTo.mp denotes
  have located : analysis.locate (.offset offset) = .ok target := by
    rw [Analysis.locate_used analysed used inUse, Analysis.answer, resolved]
  obtain ⟨accepted, plannedWords, placed⟩ := Analysis.planFor_eq_ok planned
  obtain ⟨_, _, renamed, _, shape, _⟩ := BoundOutline.planFor_eq_ok plannedWords
  have same : plan.target = target := by
    rw [placed, shape]
    rfl
  rw [same]
  exact ⟨located, rfl, Analysis.plan_of_locate located planned⟩

/-- The cursor in a field's name, in its use right before an operator, and just behind that use. -/
theorem cursor_classified_field :
    ∃ analysis plan,
      Analysis.ofText "class A { int sum; int f() { return sum+1; } }" ProjectIndex.empty = .ok analysis ∧
      analysis.planFor {} 1 "total" = .ok plan ∧
      (∃ found other, analysis.locate (.offset 14) = .ok found ∧
        analysis.bound.outline.declaration? found = some other ∧ other.position = 4) ∧
      (analysis.locate (.offset 38) = .ok 1 ∧ analysis.plan {} (.offset 38) "total" = .ok plan) ∧
      analysis.locate (.offset 39) = .error (.refused (.notFound (Locator.offset 39).describe)) := by
  have computed :
      ((Analysis.ofText "class A { int sum; int f() { return sum+1; } }" ProjectIndex.empty).toOption.any
        fun analysis => (analysis.planFor {} 1 "total").toOption.any fun _ =>
          ((analysis.bound.outline.declaration? 1).any fun declaration =>
            declaration.position == 4 && (analysis.layout.span declaration.position).contains 14)
            && (analysis.bound.references.toList.any fun reference =>
              reference.resolution == .resolved 1 && (analysis.layout.span reference.position).contains 38)
            && (analysis.bound.outline.declarations.toList.all fun declaration =>
              !(analysis.layout.span declaration.position).contains 39)
            && analysis.bound.references.toList.all fun reference =>
              !(analysis.layout.span reference.position).contains 39) = true := by
    decide +kernel
  obtain ⟨analysis, analysed, further⟩ := exists_ok_of_any computed
  obtain ⟨plan, planned, facts⟩ := exists_ok_of_any further
  simp only [Bool.and_eq_true, Option.any_eq_true, List.any_eq_true, List.all_eq_true, beq_iff_eq,
    Bool.not_eq_true'] at facts
  obtain ⟨⟨⟨⟨declaration, declared, here, inName⟩, reference, used, resolved, inUse⟩, outsideNames⟩, outsideUses⟩ :=
    facts
  obtain ⟨found, other, located, foundDeclared, same⟩ := (cursor_classified analysed 14).1 1 declaration declared inName
  have again := (cursor_classified analysed 38).2.2.2.2 {} 1 "total" plan planned reference
    (BoundOutline.mem_referencesTo.mpr ⟨used, resolved⟩) inUse
  have behind := (cursor_classified analysed 39).2.2.1
    (fun id declaration declared => outsideNames declaration (Array.mem_toList_iff.mpr (Array.mem_of_getElem? declared)))
    outsideUses
  exact ⟨analysis, plan, analysed, planned, ⟨found, other, located, foundDeclared, same.trans here⟩,
    ⟨again.2.1 ▸ again.1, again.2.2⟩, behind⟩

end ScopedRename
