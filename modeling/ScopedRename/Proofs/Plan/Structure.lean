import ScopedRename.Proofs.Outline.Structure
import ScopedRename.Proofs.Plan.FreshName

/-!
The structure of a text after a rename. Carrying out an accepted plan gives names other spellings, and the one thing
that may come of it is a constructor more or less: a name followed by a parenthesis, in the body of a type, opens a
constructor if it is spelled like the type. Main statement: the text has the same scopes, places and declarations
after the rename exactly if every name in the place of a constructor is spelled like the type around it before and
after, or neither before nor after.
-/

namespace ScopedRename

namespace Analysis

/-- The texts have the same structure: the same scopes, and every token has the same place and part in both. -/
structure SameStructure (analysis after : Analysis) : Prop where
  words : analysis.layout.indices = after.layout.indices
  tokenScopes : analysis.bound.outline.scopesOfTokens = after.bound.outline.scopesOfTokens
  children : ∀ scope, analysis.bound.outline.childrenOf scope = after.bound.outline.childrenOf scope
  outline : analysis.bound.outline.SameStructure after.bound.outline

def textAfter (analysis : Analysis) (plan : RenamePlan) (position : Nat) : String :=
  ((analysis.layout.token? position).map plan.respelled).elim "" (·.text)

end Analysis

theorem Outline.SameStructure.childrenOf {before after : Outline} [before.Registered] [after.Registered]
    (same : SameStructure before after) (scope : ScopeId) : before.childrenOf scope = after.childrenOf scope := by
  have sizes := congrArg Array.size same.scopes
  rw [Array.size_map, Array.size_map] at sizes
  have parents : before.parent? = after.parent? := by
    funext inner
    have entries := congrArg (fun entries => entries[inner]?.bind Prod.snd) same.scopes
    simp only [Array.getElem?_map, Option.bind_map] at entries
    exact entries
  rw [childrenOf_eq, childrenOf_eq]
  unfold Outline.scopeIds
  rw [sizes, parents]

/-- In the outlines of codes of one size, words belong to the same scopes if they are recorded to. -/
theorem Outline.SameStructure.homeAt? {code rewritten : Code}
    (same : SameStructure (Outline.ofCode code) (Outline.ofCode rewritten)) (sizes : code.size = rewritten.size)
    (position : Nat) : (Outline.ofCode code).homeAt? position = (Outline.ofCode rewritten).homeAt? position := by
  rw [homeAt?_ofCode, homeAt?_ofCode, sizes, same.home]

namespace Analysis

variable {analysis after : Analysis} {source newName : String} {index : ProjectIndex} {options : RenameOptions}
  {target : DeclarationId} {plan : RenamePlan} {tokens : List Token}

theorem sameStructure_iff (analysed : ofText source index = .ok analysis) {output : String}
    (reanalysed : ofText output index = .ok after) (kinds : after.tokens.map (·.kind) = analysis.tokens.map (·.kind)) :
    analysis.SameStructure after ↔ (Outline.ofCode analysis.code).SameStructure (Outline.ofCode after.code) := by
  obtain ⟨_, built, _, layout, bound, _⟩ := ofText_eq_ok analysed
  obtain ⟨_, builtAfter, _, layoutAfter, boundAfter, _⟩ := ofText_eq_ok reanalysed
  have outline : analysis.bound.outline = Outline.ofCode analysis.code := congrArg BoundOutline.outline bound
  have outlineAfter : after.bound.outline = Outline.ofCode after.code := congrArg BoundOutline.outline boundAfter
  rw [← outline, ← outlineAfter]
  constructor
  · exact SameStructure.outline
  · intro same
    have := registered analysed
    have := registered reanalysed
    refine ⟨?_, ?_, same.childrenOf, same⟩
    · rw [layout, layoutAfter]
      exact Layout.indices_of_kinds kinds.symm
    · have sizes : analysis.code.size = after.code.size := by
        rw [Code.size, Code.size, Code.ofTokens_layout built, Code.ofTokens_layout builtAfter, Layout.size, Layout.size,
          Layout.indices_of_kinds kinds]
      rw [outline, outlineAfter] at same ⊢
      exact Outline.scopesOfTokens_of_kinds kinds.symm built builtAfter (same.homeAt? sizes)

section Planned

variable (analysed : ofText source index = .ok analysis)
  (planned : analysis.planFor options target newName = .ok plan)

include analysed planned

/-- Reading the new name as the old one leaves nothing of the plan. -/
theorem respelled_alike {token : Token} (member : token ∈ analysis.tokens) :
    (plan.respelled token).respell (restore newName plan.oldName) =
      token.toLexeme.respell (restore newName plan.oldName) := by
  obtain ⟨_, _, _, new, _, _⟩ := accepted planned
  unfold RenamePlan.respelled
  split
  · rename_i chosen
    obtain ⟨identifier, text⟩ := planned_token_text analysed planned member chosen
    have sameKind : Lexeme.isIdentifier ⟨token.kind, plan.newName⟩ = true := identifier
    have before : token.toLexeme.isIdentifier = true := identifier
    unfold Lexeme.respell
    rw [if_pos sameKind, if_pos before, text]
    unfold restore
    rw [if_pos new, ite_self]
  · rfl

theorem keepsTypeKeywords_restore : KeepsTypeKeywords (restore newName plan.oldName) := by
  obtain ⟨split, built, _, _, _, _⟩ := ofText_eq_ok analysed
  obtain ⟨declaration, found, old, _, _, _⟩ := accepted planned
  obtain ⟨_, accepted, _⟩ := planFor_eq_ok planned
  have valid := (BoundOutline.planFor_eq_ok accepted).1
  obtain ⟨identifier, spelled⟩ := declaration_spelled analysed found
  obtain ⟨token, member, _, isName, text⟩ := Code.identifier_token built identifier
  refine restore_keepsTypeKeywords (isTypeKeyword_of_not_isKeyword (Name.not_isKeyword_of_fault? valid)) ?_
  rw [old, spelled, ← text]
  exact isTypeKeyword_of_not_isKeyword (Token.ofText_identifier_free split member isName)

/-- The text with the plan carried out is paired as before, and spells what the plan says. -/
theorem code_respelled (alike : tokens.map (·.toLexeme) = analysis.tokens.map plan.respelled) :
    ∃ rewritten, Code.ofTokens tokens = .ok rewritten ∧ rewritten.text = analysis.textAfter plan ∧
      analysis.code.respell (restore newName plan.oldName) = rewritten.respell (restore newName plan.oldName) := by
  obtain ⟨_, built, _, layout, _, _⟩ := ofText_eq_ok analysed
  have words := plan.words_of_respelled alike
  have same : (Token.words analysis.tokens).map (Lexeme.respell (restore newName plan.oldName)) =
      (Token.words tokens).map (Lexeme.respell (restore newName plan.oldName)) := by
    rw [words, Token.words_eq_significant, List.map_map, List.map_map]
    apply List.map_congr_left
    intro token member
    exact (respelled_alike analysed planned (List.mem_of_mem_filter member)).symm
  rcases Code.ofTokens_of_respell same with ⟨fault, _, failed, _⟩ | ⟨code, rewritten, again, rebuilt, codes⟩
  · rw [built] at failed
    cases failed
  · rw [built] at again
    cases again
    refine ⟨rewritten, rebuilt, ?_, codes⟩
    funext position
    unfold Code.text Code.word? textAfter
    rw [Code.ofTokens_layout rebuilt, ← Layout.getElem?_words, Layout.words_ofTokens, words, List.getElem?_map, layout,
      Layout.token?_ofTokens]

end Planned

end Analysis

/-- An accepted plan can be carried out. If the text that comes of it has the tokens of the text before, but for the
planned ones, it can be analysed again. It then has the structure of the text before exactly if every name in the place
of a constructor is spelled like the type around it in both texts or in neither. -/
theorem structure_kept_iff {source newName : String} {index : ProjectIndex} {analysis : Analysis}
    {options : RenameOptions} {target : DeclarationId} {plan : RenamePlan}
    (analysed : Analysis.ofText source index = .ok analysis)
    (planned : analysis.planFor options target newName = .ok plan) :
    ∃ output, analysis.apply plan = .ok output ∧
      ∀ tokens, Token.ofText output = .ok tokens →
        tokens.map (·.toLexeme) = analysis.tokens.map plan.respelled →
        ∃ after, Analysis.ofText output index = .ok after ∧
          (analysis.SameStructure after ↔
            ∀ name type, Walk.MeetsConstructor analysis.code (Walk.start analysis.code.layout) 0 name type →
              (analysis.code.text name = analysis.code.text type ↔
                analysis.textAfter plan name = analysis.textAfter plan type)) := by
  refine ⟨analysis.carriedOut plan, Analysis.apply_eq_ok analysed planned, ?_⟩
  intro tokens split alike
  obtain ⟨rewritten, rebuilt, text, codes⟩ := Analysis.code_respelled analysed planned alike
  obtain ⟨after, reanalysed, sameTokens, sameCode⟩ := Analysis.ofText_of_stages split rebuilt index
  refine ⟨after, reanalysed, ?_⟩
  have kinds : after.tokens.map (·.kind) = analysis.tokens.map (·.kind) := by
    rw [sameTokens]
    exact plan.kinds_of_respelled alike
  rw [Analysis.sameStructure_iff analysed reanalysed kinds, sameCode, ← text]
  exact Outline.sameStructure_ofCode_iff (Analysis.keepsTypeKeywords_restore analysed planned) codes

/-- A class with a constructor, renamed with it. -/
theorem structure_kept_iff_constructor :
    ∃ analysis plan after,
      Analysis.ofText "class A { A() { } }" ProjectIndex.empty = .ok analysis ∧
      analysis.planFor {} 0 "B" = .ok plan ∧ plan.isIdentity = false ∧
      Analysis.ofText "class B { B() { } }" ProjectIndex.empty = .ok after ∧
      after.bound.outline.scopes.toList.map (·.kind) = [.file, .type, .method] ∧
      analysis.SameStructure after := by
  have computed :
      ((Analysis.ofText "class A { A() { } }" ProjectIndex.empty).toOption.any fun analysis =>
        (analysis.planFor {} 0 "B").toOption.any fun plan =>
          !plan.isIdentity && analysis.carriedOut plan == "class B { B() { } }"
            && decide (analysis.tokens.IsChain fun before token => before.kind = .number → token.span ∉ plan.spans)
            -- one place past the words stands for all of them
            && (List.range (analysis.code.size + 1)).all fun name =>
              (List.range (analysis.code.size + 1)).all fun type =>
                decide (analysis.code.text name = analysis.code.text type ↔
                  analysis.textAfter plan name = analysis.textAfter plan type)) = true := by
    decide +kernel
  have afterwards :
      ((Analysis.ofText "class B { B() { } }" ProjectIndex.empty).toOption.any fun after =>
        after.bound.outline.scopes.toList.map (·.kind) == [.file, .type, .method]) = true := by
    decide +kernel
  obtain ⟨analysis, analysed, further⟩ := exists_ok_of_any computed
  obtain ⟨plan, planned, facts⟩ := exists_ok_of_any further
  simp only [Bool.and_eq_true, beq_iff_eq, Bool.not_eq_true', List.all_eq_true, List.mem_range,
    decide_eq_true_eq] at facts
  obtain ⟨⟨⟨changes, text⟩, apart⟩, compared⟩ := facts
  obtain ⟨again, reanalysed, scopes⟩ := exists_ok_of_any afterwards
  obtain ⟨output, applied, rest⟩ := structure_kept_iff analysed planned
  have carried : output = analysis.carriedOut plan :=
    Except.ok.inj (applied.symm.trans (Analysis.apply_eq_ok analysed planned))
  rw [carried] at rest
  obtain ⟨after, reanalysedToo, kept⟩ :=
    rest _ (Analysis.tokens_again analysed planned apart) (Token.layOut_map_toLexeme _ _)
  rw [text] at reanalysedToo
  have same : after = again := Except.ok.inj (reanalysedToo.symm.trans reanalysed)
  rw [same] at kept
  refine ⟨analysis, plan, again, analysed, planned, changes, reanalysed, beq_iff_eq.mp scopes, kept.mpr ?_⟩
  have past {position : Nat} (outside : analysis.code.size ≤ position) :
      analysis.code.text position = "" ∧ analysis.textAfter plan position = "" := by
    unfold Code.text Code.word? Analysis.textAfter
    rw [Layout.word?_of_le outside, show analysis.layout.token? position = none from Layout.token?_of_le outside]
    exact ⟨rfl, rfl⟩
  have near (position : Nat) : ∃ word < analysis.code.size + 1,
      analysis.code.text position = analysis.code.text word ∧
        analysis.textAfter plan position = analysis.textAfter plan word := by
    by_cases inside : position < analysis.code.size + 1
    · exact ⟨position, inside, rfl, rfl⟩
    · refine ⟨analysis.code.size, Nat.lt_succ_self _, ?_⟩
      rw [(past (Nat.le_refl _)).1, (past (Nat.le_refl _)).2]
      exact past (by omega)
  intro name type _
  obtain ⟨first, firstInside, firstText, firstAfter⟩ := near name
  obtain ⟨second, secondInside, secondText, secondAfter⟩ := near type
  rw [firstText, secondText, firstAfter, secondAfter]
  exact compared first firstInside second secondInside

/-- The second branch of a conditional starts where a statement could, so a call there is read as a constructor once
the class has the name of the method. -/
theorem structure_lost :
    ∃ analysis plan tokens after,
      Analysis.ofText "class A { int B() { return 1; } int x = true ? 1 : B(); }" ProjectIndex.empty =
        .ok analysis ∧
      analysis.planFor {} 0 "B" = .ok plan ∧ plan.isIdentity = false ∧ plan.verdict = .clear ∧
      analysis.apply plan = .ok "class B { int B() { return 1; } int x = true ? 1 : B(); }" ∧
      Token.ofText "class B { int B() { return 1; } int x = true ? 1 : B(); }" = .ok tokens ∧
      tokens.map (·.toLexeme) = analysis.tokens.map plan.respelled ∧
      Analysis.ofText "class B { int B() { return 1; } int x = true ? 1 : B(); }" ProjectIndex.empty =
        .ok after ∧
      analysis.bound.outline.scopes.toList.map (·.kind) = [.file, .type, .method] ∧
      after.bound.outline.scopes.toList.map (·.kind) = [.file, .type, .method, .method] ∧
      analysis.bound.references.toList.map (·.resolution) = [.resolved 1] ∧
      after.bound.references.toList.map (·.resolution) = [.resolved 0] ∧
      ¬ analysis.SameStructure after := by
  have before :
      ((Analysis.ofText "class A { int B() { return 1; } int x = true ? 1 : B(); }"
          ProjectIndex.empty).toOption.any fun analysis =>
        (analysis.bound.outline.scopes.toList.map (·.kind) == [.file, .type, .method]
            && analysis.bound.references.toList.map (·.resolution) == [.resolved 1])
          && (analysis.planFor {} 0 "B").toOption.any fun plan =>
            (!plan.isIdentity && plan.verdict == .clear
                && analysis.carriedOut plan == "class B { int B() { return 1; } int x = true ? 1 : B(); }")
              && decide (analysis.tokens.IsChain fun before token => before.kind = .number → token.span ∉ plan.spans)) =
        true := by
    decide +kernel
  have afterwards :
      ((Analysis.ofText "class B { int B() { return 1; } int x = true ? 1 : B(); }"
          ProjectIndex.empty).toOption.any fun after =>
        after.bound.outline.scopes.toList.map (·.kind) == [.file, .type, .method, .method]
          && after.bound.references.toList.map (·.resolution) == [.resolved 0]) = true := by
    decide +kernel
  obtain ⟨analysis, analysed, checked⟩ := exists_ok_of_any before
  obtain ⟨after, reanalysed, lost⟩ := exists_ok_of_any afterwards
  simp only [Bool.and_eq_true, beq_iff_eq] at checked lost
  obtain ⟨⟨scopes, resolved⟩, further⟩ := checked
  obtain ⟨scopesAfter, resolvedAfter⟩ := lost
  obtain ⟨plan, planned, facts⟩ := exists_ok_of_any further
  simp only [Bool.and_eq_true, beq_iff_eq, Bool.not_eq_true', decide_eq_true_eq] at facts
  obtain ⟨⟨⟨changes, clear⟩, text⟩, apart⟩ := facts
  have applied := Analysis.apply_eq_ok analysed planned
  have split := Analysis.tokens_again analysed planned apart
  rw [text] at applied split
  refine ⟨analysis, plan, _, after, analysed, planned, changes, clear, applied, split, Token.layOut_map_toLexeme _ _,
    reanalysed, scopes, scopesAfter, resolved, resolvedAfter, ?_⟩
  intro same
  have sizes := congrArg Array.size same.outline.scopes
  rw [Array.size_map, Array.size_map] at sizes
  have before := congrArg List.length scopes
  have later := congrArg List.length scopesAfter
  rw [List.length_map, Array.length_toList] at before later
  rw [before, later] at sizes
  cases sizes

end ScopedRename
