import ScopedRename.Proofs.Plan.FreshName

/-!
Reading a text again after a rename. A plan that is carried out gives the tokens of the text before, the planned ones
with the new name, unless the new name runs into a number in front of it. A name that stands there already starts with
a letter outside ASCII or a dollar sign, so that only the new name can.
-/

namespace ScopedRename

def Name.joinsNumber (name : String) : Bool := name.toList.head?.any Lexer.joinsNumber

namespace Analysis

variable {analysis : Analysis} {source newName : String} {index : ProjectIndex} {options : RenameOptions}
  {target : DeclarationId} {plan : RenamePlan}

/-- A new name joins no number exactly if it is not of that kind or no planned token stands after a number. -/
theorem apart_respelled_iff (analysed : ofText source index = .ok analysis)
    (planned : analysis.planFor options target newName = .ok plan) :
    (analysis.tokens.IsChain fun before token => before.kind = .number → (plan.respelled token).joinsNumber = false) ↔
      (analysis.tokens.IsChain fun before token => before.kind = .number → token.span ∉ plan.spans) ∨
        Name.joinsNumber newName = false := by
  obtain ⟨split, _, _, _, _, _⟩ := ofText_eq_ok analysed
  obtain ⟨_, _, _, new, _, _⟩ := accepted planned
  have before := Token.ofText_apart split
  have chosen {token : Token} (inside : token.span ∈ plan.spans) :
      (plan.respelled token).joinsNumber = Name.joinsNumber newName := by
    unfold RenamePlan.respelled
    rw [if_pos inside, new]
    rfl
  have kept {token : Token} (outside : token.span ∉ plan.spans) : plan.respelled token = token.toLexeme :=
    if_neg outside
  rw [List.isChain_iff_getElem] at before
  simp only [List.isChain_iff_getElem]
  constructor
  · intro apart
    cases joins : Name.joinsNumber newName with
    | false => exact Or.inr rfl
    | true =>
        refine Or.inl ?_
        intro place inside number planned
        have outside := apart place inside number
        rw [chosen planned, joins] at outside
        cases outside
  · intro apart place inside number
    by_cases member : analysis.tokens[place + 1].span ∈ plan.spans
    · rcases apart with none | outside
      · exact absurd member (none place inside number)
      · rw [chosen member]
        exact outside
    · rw [kept member]
      exact before place inside number

end Analysis

/-- An accepted plan can be carried out, and the text that comes of it splits into the tokens of the text before, the
planned ones with the new name, laid one after another, exactly if no planned token stands right after a number or the
new name does not start as a number goes on. -/
theorem relexed_iff {source newName : String} {index : ProjectIndex} {analysis : Analysis} {options : RenameOptions}
    {target : DeclarationId} {plan : RenamePlan} (analysed : Analysis.ofText source index = .ok analysis)
    (planned : analysis.planFor options target newName = .ok plan) :
    ∃ output, analysis.apply plan = .ok output ∧
      (Token.ofText output = .ok (Token.layOut 0 (analysis.tokens.map fun token =>
          if token.span ∈ plan.spans then ⟨token.kind, newName⟩ else token.toLexeme)) ↔
        (analysis.tokens.IsChain fun before token => before.kind = .number → token.span ∉ plan.spans) ∨
          Name.joinsNumber newName = false) := by
  refine ⟨analysis.carriedOut plan, Analysis.apply_eq_ok analysed planned, ?_⟩
  obtain ⟨split, _, _, _, _, _⟩ := Analysis.ofText_eq_ok analysed
  obtain ⟨_, _, _, new, _, _⟩ := Analysis.accepted planned
  rw [← Analysis.apart_respelled_iff analysed planned, ← new, Analysis.carriedOut_eq]
  exact Token.ofText_respelled_iff split fun _ member => Analysis.token_respells analysed planned member

/-- A name right after a number: another one that starts outside ASCII is told apart from the number, one that starts
with an ASCII letter is not. -/
theorem relexed_iff_number :
    ∃ analysis apart joined,
      Analysis.ofText "class A { int ä = 1ä; }" ProjectIndex.empty = .ok analysis ∧
      analysis.planFor {} 1 "ö" = .ok apart ∧ analysis.planFor {} 1 "x" = .ok joined ∧
      analysis.apply apart = .ok "class A { int ö = 1ö; }" ∧ analysis.apply joined = .ok "class A { int x = 1x; }" ∧
      Token.ofText "class A { int ö = 1ö; }" = .ok (Token.layOut 0 (analysis.tokens.map fun token =>
        if token.span ∈ apart.spans then ⟨token.kind, "ö"⟩ else token.toLexeme)) ∧
      Token.ofText "class A { int x = 1x; }" ≠ .ok (Token.layOut 0 (analysis.tokens.map fun token =>
        if token.span ∈ joined.spans then ⟨token.kind, "x"⟩ else token.toLexeme)) := by
  have computed :
      ((Analysis.ofText "class A { int ä = 1ä; }" ProjectIndex.empty).toOption.any fun analysis =>
        (analysis.planFor {} 1 "ö").toOption.any fun apart =>
          analysis.carriedOut apart == "class A { int ö = 1ö; }" &&
          (analysis.planFor {} 1 "x").toOption.any fun joined =>
            analysis.carriedOut joined == "class A { int x = 1x; }" &&
            !decide (analysis.tokens.IsChain fun before token =>
              before.kind = .number → token.span ∉ joined.spans)) = true := by
    decide +kernel
  obtain ⟨analysis, analysed, further⟩ := exists_ok_of_any computed
  obtain ⟨apart, plannedApart, checked⟩ := exists_ok_of_any further
  rw [Bool.and_eq_true, beq_iff_eq] at checked
  obtain ⟨joined, plannedJoined, last⟩ := exists_ok_of_any checked.2
  simp only [Bool.and_eq_true, beq_iff_eq, Bool.not_eq_true', decide_eq_false_iff_not] at last
  obtain ⟨text, appliedApart, iffApart⟩ := relexed_iff analysed plannedApart
  obtain ⟨textJoined, appliedJoined, iffJoined⟩ := relexed_iff analysed plannedJoined
  have same : text = "class A { int ö = 1ö; }" :=
    (Except.ok.inj (appliedApart.symm.trans (Analysis.apply_eq_ok analysed plannedApart))).trans checked.1
  have sameJoined : textJoined = "class A { int x = 1x; }" :=
    (Except.ok.inj (appliedJoined.symm.trans (Analysis.apply_eq_ok analysed plannedJoined))).trans last.1
  subst same sameJoined
  refine ⟨analysis, apart, joined, analysed, plannedApart, plannedJoined, appliedApart, appliedJoined,
    iffApart.mpr (Or.inr (by decide)), ?_⟩
  rw [ne_eq, iffJoined, not_or]
  exact ⟨last.2, by decide⟩

end ScopedRename
