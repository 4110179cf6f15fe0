import ScopedRename.Proofs.Outline.Renaming
import ScopedRename.Proofs.Plan.Exact
import ScopedRename.Proofs.Token.Relexing

/-!
Renaming to a fresh name, end to end. A name that no token of the text spells meets nothing and captures nothing, so
the rename is refused only if some use may or may not denote the target. The text with the plan carried out splits into
the same tokens, and analysing it again gives the same scopes, declarations and references but for the new name,
exactly if no planned word is one a type is read off.
-/

namespace ScopedRename

namespace BoundOutline

variable {bound : BoundOutline} {target : DeclarationId} {renamed : Declaration} {newName : String}

/-! ### Planning -/

private theorem mapM_ok_nil {input failure : Type} {item : Type} {convert : input → Except failure (List item)}
    {inputs : List input} (nothing : ∀ entry ∈ inputs, convert entry = .ok []) :
    ∃ outputs, inputs.mapM convert = .ok outputs ∧ outputs.flatten = [] := by
  induction inputs with
  | nil => exact ⟨[], rfl, rfl⟩
  | cons first rest ih =>
      obtain ⟨outputs, converted, empty⟩ := ih fun entry member => nothing entry (List.mem_cons_of_mem _ member)
      refine ⟨[] :: outputs, ?_, ?_⟩
      · rw [List.mapM_cons, nothing first List.mem_cons_self, converted]
        rfl
      · rw [List.flatten_cons, empty]
        rfl

theorem meetsAt_of_fresh [bound.outline.Registered]
    (undeclared : ∀ id declaration, bound.outline.declaration? id = some declaration → declaration.name ≠ newName)
    (site : Lookup) : bound.meetsAt target renamed newName site = .ok [] := by
  have nowhere (scope : ScopeId) (space : NameSpace) : bound.outline.declaredIn scope newName space = [] := by
    apply List.eq_nil_iff_forall_not_mem.mpr
    intro id member
    obtain ⟨declaration, found, _, named, _⟩ := bound.outline.mem_declaredIn.mp member
    exact undeclared id declaration found named
  cases site with
  | lexical scope =>
      have looked : bound.outline.lookup scope newName renamed.kind.space none = none := by
        rw [Outline.lookup_eq_none_iff]
        intro outer _
        rw [Outline.visibleIn_none]
        exact nowhere outer renamed.kind.space
      simp only [meetsAt, looked]
  | member type => simp only [meetsAt, nowhere, List.find?_nil]
  | foreign => rfl
  | path => rfl

/-- A name that is neither declared nor used is clear. -/
theorem verdict_of_fresh [bound.outline.Registered] {strict : Bool}
    (undeclared : ∀ id declaration, bound.outline.declaration? id = some declaration → declaration.name ≠ newName)
    (unused : ∀ reference ∈ bound.references.toList, reference.name ≠ newName) :
    bound.verdict strict target renamed newName = .ok .clear := by
  obtain ⟨hidden, met, empty⟩ := mapM_ok_nil fun site (_ : site ∈ bound.sites target renamed) =>
    show bound.meetsAt target renamed newName site = .ok [] from meetsAt_of_fresh undeclared site
  have uncaptured : bound.references.toList.findSome? (bound.captured? renamed newName) = none := by
    apply List.findSome?_eq_none_iff.mpr
    intro reference used
    have other : (reference.name != newName) = true := bne_iff_ne.mpr (unused reference used)
    unfold captured?
    rw [other]
    rfl
  have unhidden : bound.outline.declarationIds.filter (hidden.flatten.contains ·) = [] := by
    rw [empty]
    exact List.filter_eq_nil_iff.mpr fun _ _ => by simp
  unfold verdict
  rw [met]
  dsimp only [bind, Except.bind]
  rw [uncaptured, unhidden]
  rfl

/-- A valid name that is neither declared nor used is accepted unless a use is ambiguous about the target. -/
theorem planFor_of_fresh [bound.outline.Registered] {strict : Bool} (valid : Name.fault? newName = none)
    (found : bound.outline.declaration? target = some renamed)
    (undeclared : ∀ id declaration, bound.outline.declaration? id = some declaration → declaration.name ≠ newName)
    (unused : ∀ reference ∈ bound.references.toList, reference.name ≠ newName)
    (unambiguous : bound.ambiguousWith target = []) :
    bound.planFor strict target newName =
      .ok ⟨target, renamed.kind, renamed.name, newName, bound.renameSites target renamed, .clear⟩ := by
  have different : ¬ (renamed.name == newName) = true := fun same => undeclared target renamed found (beq_iff_eq.mp same)
  simp only [planFor, valid, found, unambiguous, List.map_nil, if_neg different, verdict_of_fresh undeclared unused]

theorem ambiguousWith_eq_nil_iff :
    bound.ambiguousWith target = [] ↔ ∀ reference ∈ bound.references.toList, ∀ candidates,
      reference.resolution = .ambiguous candidates → target ∉ candidates := by
  constructor
  · intro unambiguous reference used candidates several
    exact not_mem_of_ambiguousWith unambiguous used several
  · intro apart
    unfold ambiguousWith
    apply List.filter_eq_nil_iff.mpr
    intro reference used
    split
    · rename_i candidates several
      rw [List.contains_iff_mem]
      exact apart reference used candidates several
    · exact Bool.false_ne_true

end BoundOutline

namespace Layout

/-! ### Layout -/

theorem indices_of_kinds {left right : List Token} (kinds : left.map (·.kind) = right.map (·.kind)) :
    (ofTokens left).indices = (ofTokens right).indices := by
  have indices (tokens : List Token) : (ofTokens tokens).indices =
      (((tokens.map (·.kind)).zipIdx.filter fun kind => !kind.1.isTrivia).map (·.2)).toArray := by
    unfold ofTokens
    rw [List.zipIdx_map, List.filter_map, List.map_map]
    rfl
  rw [indices, indices, kinds]

end Layout

/-- Tokens of the same kinds belong to the same scopes if the words do. -/
theorem Outline.scopesOfTokens_of_kinds {left right : List Token} (kinds : left.map (·.kind) = right.map (·.kind))
    {leftCode rightCode : Code} (built : Code.ofTokens left = .ok leftCode)
    (builtOther : Code.ofTokens right = .ok rightCode)
    (homes : ∀ position, (Outline.ofCode leftCode).homeAt? position = (Outline.ofCode rightCode).homeAt? position) :
    (Outline.ofCode leftCode).scopesOfTokens = (Outline.ofCode rightCode).scopesOfTokens := by
  refine scopesOfTokens_congr ?_ ?_ homes
  · rw [ofCode_layout, ofCode_layout, Code.ofTokens_layout built, Code.ofTokens_layout builtOther]
    have length := congrArg List.length kinds
    rwa [List.length_map, List.length_map] at length
  · rw [ofCode_layout, ofCode_layout, Code.ofTokens_layout built, Code.ofTokens_layout builtOther]
    exact Layout.indices_of_kinds kinds

def RenamePlan.respelled (plan : RenamePlan) (token : Token) : Lexeme :=
  if token.span ∈ plan.spans then ⟨token.kind, plan.newName⟩ else token.toLexeme

theorem RenamePlan.respelled_kind (plan : RenamePlan) (token : Token) : (plan.respelled token).kind = token.kind := by
  unfold respelled
  split
  · rfl
  · rfl

theorem RenamePlan.words_of_respelled (plan : RenamePlan) {items tokens : List Token}
    (alike : items.map (·.toLexeme) = tokens.map plan.respelled) :
    Token.words items = (Token.significant tokens).map plan.respelled := by
  have kinds : ((fun lexeme : Lexeme => !lexeme.kind.isTrivia) ∘ plan.respelled) =
      fun token : Token => !token.kind.isTrivia := by
    funext token
    rw [Function.comp, plan.respelled_kind]
  have laid := congrArg (List.filter fun lexeme : Lexeme => !lexeme.kind.isTrivia) alike
  rw [List.filter_map, List.filter_map, kinds] at laid
  exact laid

theorem RenamePlan.words_respelled (plan : RenamePlan) (start : Nat) (tokens : List Token) :
    Token.words (Token.layOut start (tokens.map plan.respelled)) = (Token.significant tokens).map plan.respelled :=
  plan.words_of_respelled (Token.layOut_map_toLexeme start (tokens.map plan.respelled))

theorem RenamePlan.kinds_of_respelled (plan : RenamePlan) {items tokens : List Token}
    (alike : items.map (·.toLexeme) = tokens.map plan.respelled) : items.map (·.kind) = tokens.map (·.kind) := by
  have laid := congrArg (List.map (·.kind)) alike
  have kinds : ((·.kind) ∘ plan.respelled) = fun token : Token => token.kind := funext plan.respelled_kind
  rw [List.map_map, List.map_map, kinds] at laid
  exact laid

theorem RenamePlan.kinds_respelled (plan : RenamePlan) (start : Nat) (tokens : List Token) :
    (Token.layOut start (tokens.map plan.respelled)).map (·.kind) = tokens.map (·.kind) :=
  plan.kinds_of_respelled (Token.layOut_map_toLexeme start (tokens.map plan.respelled))

namespace Analysis

/-- The second analysis is the first with the target renamed: the same tokens, scopes and declarations, and the same
uses, looked up in the same places with the same result. The names of the target and of its uses are new, and perhaps
those of scopes. -/
structure Replays (analysis after : Analysis) (target : DeclarationId) (newName : String) : Prop where
  kinds : after.tokens.map (·.kind) = analysis.tokens.map (·.kind)
  words : after.layout.indices = analysis.layout.indices
  tokenScopes : after.bound.outline.scopesOfTokens = analysis.bound.outline.scopesOfTokens
  scopes : after.bound.outline.scopes.map Scope.unnamed = analysis.bound.outline.scopes.map Scope.unnamed
  children : ∀ scope, after.bound.outline.childrenOf scope = analysis.bound.outline.childrenOf scope
  declarations : after.bound.outline.declarations = (analysis.bound.outline.withName target newName).declarations
  references : after.bound.references = analysis.bound.references.map (·.follow target newName)

theorem ofText_of_stages {source : String} {tokens : List Token} {code : Code}
    (split : Token.ofText source = .ok tokens)
    (built : Code.ofTokens tokens = .ok code) (index : ProjectIndex) :
    ∃ analysis, ofText source index = .ok analysis ∧ analysis.tokens = tokens ∧ analysis.code = code := by
  unfold ofText
  rw [split]
  dsimp only [Except.mapError, bind, Except.bind]
  rw [built]
  exact ⟨_, rfl, rfl, rfl⟩

variable {analysis : Analysis} {source newName : String} {index : ProjectIndex} {options : RenameOptions}
  {target : DeclarationId} {renamed : Declaration} {plan : RenamePlan}

section Fresh

variable (analysed : ofText source index = .ok analysis) (fresh : ∀ token ∈ analysis.tokens, token.text ≠ newName)

include analysed fresh

theorem undeclared_of_fresh (id : DeclarationId) (declaration : Declaration)
    (found : analysis.bound.outline.declaration? id = some declaration) : declaration.name ≠ newName := by
  obtain ⟨_, built, _, _, _, _⟩ := ofText_eq_ok analysed
  obtain ⟨identifier, spelled⟩ := declaration_spelled analysed found
  obtain ⟨token, member, _, _, text⟩ := Code.identifier_token built identifier
  rw [spelled, ← text]
  exact fresh token member

theorem unused_of_fresh (reference : Reference) (used : reference ∈ analysis.bound.references.toList) :
    reference.name ≠ newName := by
  obtain ⟨_, built, _, _, _, _⟩ := ofText_eq_ok analysed
  obtain ⟨identifier, spelled, _⟩ := reference_spelled analysed used
  obtain ⟨token, member, _, _, text⟩ := Code.identifier_token built identifier
  rw [spelled, ← text]
  exact fresh token member

theorem planFor_of_fresh (valid : Name.fault? newName = none)
    (found : analysis.bound.outline.declaration? target = some renamed)
    (unambiguous : analysis.bound.ambiguousWith target = []) :
    ∃ plan, analysis.planFor options target newName = .ok plan ∧ plan.verdict = .clear := by
  have := Analysis.registered analysed
  have accepted : analysis.bound.planFor options.strictShadowing target newName =
      .ok ⟨target, renamed.kind, renamed.name, newName, analysis.bound.renameSites target renamed, .clear⟩ :=
    BoundOutline.planFor_of_fresh valid found (undeclared_of_fresh analysed fresh) (unused_of_fresh analysed fresh)
      unambiguous
  have planned : analysis.planFor options target newName =
      .ok (Renaming.toPlan
        ⟨target, renamed.kind, renamed.name, newName, analysis.bound.renameSites target renamed, .clear⟩
        analysis.layout analysis.hash) := by
    unfold planFor placed
    rw [accepted]
  exact ⟨_, planned, rfl⟩

end Fresh

/-! ### The text with the plan carried out -/

theorem carriedOut_eq (analysis : Analysis) (plan : RenamePlan) :
    analysis.carriedOut plan = String.join (analysis.tokens.map fun token => (plan.respelled token).text) := by
  unfold carriedOut RenamePlan.respelled
  congr 2
  funext token
  split
  · rfl
  · rfl

section Again

variable (analysed : ofText source index = .ok analysis)
  (planned : analysis.planFor options target newName = .ok plan)

include analysed planned

/-- A planned token is an identifier, and the new name can stand in its place. -/
theorem token_respells {token : Token} (member : token ∈ analysis.tokens) :
    Lexer.Respells token.toLexeme (plan.respelled token) := by
  obtain ⟨_, _, _, new, _, _⟩ := accepted planned
  obtain ⟨_, accepted, _⟩ := planFor_eq_ok planned
  have valid := (BoundOutline.planFor_eq_ok accepted).1
  unfold RenamePlan.respelled
  split
  · rename_i chosen
    have identifier := beq_iff_eq.mp (planned_token_text analysed planned member chosen).1
    exact Or.inr ⟨identifier, identifier, new ▸ valid⟩
  · exact Or.inl rfl

/-- The text with the plan carried out splits into the same tokens, but for the planned ones. -/
theorem tokens_again
    (apart : analysis.tokens.IsChain fun before token => before.kind = .number → token.span ∉ plan.spans) :
    Token.ofText (analysis.carriedOut plan) = .ok (Token.layOut 0 (analysis.tokens.map plan.respelled)) := by
  obtain ⟨split, _, _, _, _, _⟩ := ofText_eq_ok analysed
  rw [carriedOut_eq]
  refine Token.ofText_respelled split (fun _ member => token_respells analysed planned member) ?_
  have before := Token.ofText_apart split
  rw [List.isChain_iff_getElem] at apart before ⊢
  intro place inside number
  have kept : plan.respelled analysis.tokens[place + 1] = analysis.tokens[place + 1].toLexeme :=
    if_neg (apart place inside number)
  rw [kept]
  exact before place inside number

theorem respelled_restored (fresh : ∀ token ∈ analysis.tokens, token.text ≠ newName) {token : Token}
    (member : token ∈ analysis.tokens) :
    (plan.respelled token).respell (restore newName plan.oldName) = token.toLexeme := by
  obtain ⟨_, _, _, new, _, _⟩ := accepted planned
  unfold RenamePlan.respelled
  split
  · rename_i chosen
    obtain ⟨identifier, text⟩ := planned_token_text analysed planned member chosen
    have sameKind : Lexeme.isIdentifier ⟨token.kind, plan.newName⟩ = true := identifier
    unfold Lexeme.respell restore
    rw [if_pos sameKind, if_pos new, ← text]
  · unfold Lexeme.respell
    rw [restore_of_ne (fresh token member)]
    split
    · rfl
    · rfl

/-- The code of the text with the plan carried out gives the code before when the new name is read as the old one. -/
theorem code_again (fresh : ∀ token ∈ analysis.tokens, token.text ≠ newName) :
    ∃ rewritten, Code.ofTokens (Token.layOut 0 (analysis.tokens.map plan.respelled)) = .ok rewritten ∧
      rewritten.layout.words = (Token.significant analysis.tokens).map plan.respelled ∧
      rewritten.respell (restore newName plan.oldName) = analysis.code.respell id := by
  obtain ⟨_, built, _, _, _, _⟩ := ofText_eq_ok analysed
  have words := plan.words_respelled 0 analysis.tokens
  have restored : (Token.words (Token.layOut 0 (analysis.tokens.map plan.respelled))).map
      (Lexeme.respell (restore newName plan.oldName)) = (Token.words analysis.tokens).map (Lexeme.respell id) := by
    rw [words, List.map_map, Lexeme.respell_id, List.map_id, Token.words_eq_significant]
    apply List.map_congr_left
    intro token member
    exact respelled_restored analysed planned fresh (List.mem_of_mem_filter member)
  rcases Code.ofTokens_of_respell restored with ⟨fault, _, _, failed⟩ | ⟨rewritten, code, again, same, respelled⟩
  · rw [built] at failed
    cases failed
  · rw [built] at same
    cases same
    refine ⟨rewritten, again, ?_, respelled⟩
    rw [Code.ofTokens_layout again, Layout.words_ofTokens, words]

theorem span_mem_iff (found : analysis.bound.outline.declaration? target = some renamed) {position : Nat}
    (inside : position < (Token.significant analysis.tokens).length) :
    analysis.layout.span position ∈ plan.spans ↔ position ∈ analysis.bound.renameSites target renamed := by
  obtain ⟨_, built, _, layout, _, _⟩ := ofText_eq_ok analysed
  obtain ⟨declaration, foundAgain, _, _, _, spans⟩ := accepted planned
  have same : declaration = renamed := Option.some.inj (foundAgain.symm.trans found)
  rw [spans, same, Span.mem_sort, List.mem_map]
  constructor
  · rintro ⟨site, member, sameSpan⟩
    have identifier := (site_spelled analysed found member).1
    have siteInside := analysis.code.isIdentifier_lt_size identifier
    rw [Code.size_ofTokens built] at siteInside
    rw [layout] at sameSpan
    rw [← Layout.span_injective (tiled analysed) siteInside inside sameSpan]
    exact member
  · intro member
    exact ⟨position, member, rfl⟩

/-- The words of the text with the plan carried out: the new name at the sites, the words before elsewhere. -/
theorem text_again (found : analysis.bound.outline.declaration? target = some renamed) {rewritten : Code}
    (words : rewritten.layout.words = (Token.significant analysis.tokens).map plan.respelled) (position : Nat) :
    (position ∈ analysis.bound.renameSites target renamed → rewritten.text position = newName) ∧
      (position ∉ analysis.bound.renameSites target renamed → rewritten.text position = analysis.code.text position) := by
  obtain ⟨_, built, _, layout, _, _⟩ := ofText_eq_ok analysed
  obtain ⟨_, _, _, new, _, _⟩ := accepted planned
  have word : rewritten.word? position = ((Token.significant analysis.tokens)[position]?).map plan.respelled := by
    rw [Code.word?, ← Layout.getElem?_words, words, List.getElem?_map]
  have before : analysis.code.word? position = ((Token.significant analysis.tokens)[position]?).map (·.toLexeme) := by
    rw [Code.word?_ofTokens built, Layout.token?_ofTokens]
  unfold Code.text
  rw [word, before]
  cases sought : (Token.significant analysis.tokens)[position]? with
  | none =>
      refine ⟨?_, fun _ => rfl⟩
      intro site
      have identifier := (site_spelled analysed found site).1
      unfold Code.isIdentifier at identifier
      rw [before, sought] at identifier
      cases identifier
  | some token =>
      have inside : position < (Token.significant analysis.tokens).length := (List.getElem?_eq_some_iff.mp sought).1
      have span : analysis.layout.span position = token.span := by
        rw [layout]
        exact Layout.span_of_token? ((Layout.token?_ofTokens analysis.tokens position).trans sought)
      have chosen := span_mem_iff analysed planned found inside
      rw [span] at chosen
      constructor
      · intro site
        simp only [Option.map_some, Option.elim_some, RenamePlan.respelled, if_pos (chosen.mpr site)]
        exact new
      · intro other
        simp only [Option.map_some, Option.elim_some, RenamePlan.respelled, if_neg (mt chosen.mp other)]

end Again

theorem resolution_eq (analysed : ofText source index = .ok analysis) {reference : Reference}
    (used : reference ∈ analysis.bound.references.toList) :
    reference.resolution =
      (analysis.code.bindingAt (Outline.ofCode analysis.code) index reference.position).2 := by
  obtain ⟨_, _, _, _, bound, _⟩ := ofText_eq_ok analysed
  rw [bound] at used
  have listed := (analysis.code.mem_references _ index).mp used
  exact congrArg Reference.resolution ((analysis.code.referenceAt?_eq_some _ index).mp listed).2

theorem exists_reference (analysed : ofText source index = .ok analysis) {position : Nat}
    (used : analysis.code.isReference (Outline.ofCode analysis.code) position = true) :
    ∃ reference ∈ analysis.bound.references.toList, reference.position = position := by
  obtain ⟨_, _, _, _, bound, _⟩ := ofText_eq_ok analysed
  rw [bound]
  obtain ⟨reference, listed⟩ : ∃ reference,
      analysis.code.referenceAt? (Outline.ofCode analysis.code) index position = some reference :=
    ⟨_, (analysis.code.referenceAt?_eq_some _ index).mpr ⟨used, rfl⟩⟩
  have same : reference.position = position :=
    congrArg Reference.position ((analysis.code.referenceAt?_eq_some _ index).mp listed).2
  exact ⟨reference, (analysis.code.mem_references _ index).mpr (same ▸ listed), same⟩

/-- The uses at which the plan puts the new name. -/
theorem site_iff_resolved (analysed : ofText source index = .ok analysis)
    (found : analysis.bound.outline.declaration? target = some renamed)
    {reference : Reference} (used : reference ∈ analysis.bound.references.toList) :
    reference.position ∈ analysis.bound.renameSites target renamed ↔ reference.resolution = .resolved target := by
  have := Analysis.registered analysed
  rw [BoundOutline.mem_renameSites]
  constructor
  · rintro (own | ⟨other, resolves, same⟩)
    · have undeclared := (reference_spelled analysed used).2.2
      exact absurd undeclared (analysis.bound.outline.declarationAt?_ne_none found own.symm)
    · obtain ⟨alsoUsed, resolved⟩ := BoundOutline.mem_referencesTo.mp resolves
      rw [← reference_unique analysed alsoUsed used same]
      exact resolved
  · intro resolved
    exact Or.inr ⟨reference, BoundOutline.mem_referencesTo.mpr ⟨used, resolved⟩, rfl⟩

/-- No site names a type, if the name of the target declares nothing else and is marked as no type. -/
theorem site_untyped (analysed : ofText source index = .ok analysis)
    (found : analysis.bound.outline.declaration? target = some renamed) (noType : renamed.kind ≠ .type)
    (sole : ∀ id declaration, analysis.bound.outline.declaration? id = some declaration →
      declaration.position = renamed.position → target = id)
    (unmarked : analysis.bound.outline.isTypeWord renamed.position = false) {position : Nat}
    (site : position ∈ analysis.bound.renameSites target renamed) : ¬ analysis.bound.outline.NamesType position := by
  have := Analysis.registered analysed
  obtain ⟨_, _, _, _, bound, _⟩ := ofText_eq_ok analysed
  rintro (marked | ⟨declaration, member, kind, declares⟩)
  · rcases BoundOutline.mem_renameSites.mp site with own | ⟨reference, resolves, same⟩
    · rw [own, unmarked] at marked
      cases marked
    · obtain ⟨used, resolved⟩ := BoundOutline.mem_referencesTo.mp resolves
      have denotes : target ∈ (analysis.code.bindingAt (Outline.ofCode analysis.code) index position).2.candidates := by
        rw [← same, ← resolution_eq analysed used, resolved]
        exact List.mem_singleton.mpr rfl
      rw [bound] at marked found
      obtain ⟨denoted, foundDenoted, isType⟩ := analysis.code.kind_of_isTypeWord _ index denotes marked
      have sameDeclaration : denoted = renamed := Option.some.inj (foundDenoted.symm.trans found)
      exact noType (sameDeclaration ▸ isType)
  · obtain ⟨id, declared⟩ := Array.mem_iff_getElem?.mp member
    rcases BoundOutline.mem_renameSites.mp site with own | ⟨reference, resolves, same⟩
    · have sameId : target = id := sole id declaration declared (declares.trans own)
      subst sameId
      have sameDeclaration : declaration = renamed := Option.some.inj (declared.symm.trans found)
      exact noType (sameDeclaration ▸ kind)
    · obtain ⟨used, _⟩ := BoundOutline.mem_referencesTo.mp resolves
      have undeclared := (reference_spelled analysed used).2.2
      exact analysis.bound.outline.declarationAt?_ne_none declared (declares.trans same.symm) undeclared

section Replay

variable (analysed : ofText source index = .ok analysis)
  (planned : analysis.planFor options target newName = .ok plan)
  (fresh : ∀ token ∈ analysis.tokens, token.text ≠ newName)
  (found : analysis.bound.outline.declaration? target = some renamed) (noType : renamed.kind ≠ .type)
  (sole : ∀ id declaration, analysis.bound.outline.declaration? id = some declaration →
    declaration.position = renamed.position → target = id)
  (unmarked : analysis.bound.outline.isTypeWord renamed.position = false)
  {rewritten : Code} (words : rewritten.layout.words = (Token.significant analysis.tokens).map plan.respelled)
  (restored : rewritten.respell (restore newName plan.oldName) = analysis.code.respell id)

include analysed planned fresh in
theorem text_ne (position : Nat) : analysis.code.text position ≠ newName := by
  obtain ⟨_, built, _, _, _, _⟩ := ofText_eq_ok analysed
  obtain ⟨_, accepted, _⟩ := planFor_eq_ok planned
  have valid := (BoundOutline.planFor_eq_ok accepted).1
  unfold Code.text
  rw [Code.word?_ofTokens built, Layout.token?_ofTokens]
  cases sought : (Token.significant analysis.tokens)[position]? with
  | none =>
      rintro rfl
      cases valid
  | some token => exact fresh token (List.mem_of_mem_filter (List.mem_of_getElem? sought))

include analysed planned fresh found noType sole unmarked words restored in
theorem replaces :
    Code.Replaces analysis.code rewritten (· ∈ analysis.bound.renameSites target renamed) plan.oldName newName := by
  obtain ⟨split, built, _, _, bound, _⟩ := ofText_eq_ok analysed
  obtain ⟨declaration, foundAgain, oldName, _, _, _⟩ := accepted planned
  obtain ⟨_, accepted, _⟩ := planFor_eq_ok planned
  have valid := (BoundOutline.planFor_eq_ok accepted).1
  refine ⟨restore_keepsTypeKeywords ?_ ?_, restored, fun position site => (site_spelled analysed found site).1,
    fun position => (text_again analysed planned found words position).1,
    fun position => (text_again analysed planned found words position).2, text_ne analysed planned fresh, ?_⟩
  · exact isTypeKeyword_of_not_isKeyword (Name.not_isKeyword_of_fault? valid)
  · obtain ⟨token, member, _, identifier, text⟩ := Code.identifier_token built (declaration_spelled analysed foundAgain).1
    rw [oldName, (declaration_spelled analysed foundAgain).2, ← text]
    exact isTypeKeyword_of_not_isKeyword (Token.ofText_identifier_free split member identifier)
  · intro position site
    have untyped := site_untyped analysed found noType sole unmarked site
    rw [bound] at untyped
    exact untyped

include analysed planned fresh found words restored in
theorem rewrites :
    Code.Rewrites analysis.code rewritten (Outline.ofCode analysis.code) index target newName where
  respelled := ⟨_, restored⟩
  fresh position _ := text_ne analysed planned fresh position
  unambiguous position used member := by
    obtain ⟨reference, listed, same⟩ := exists_reference analysed used
    rw [← same, ← resolution_eq analysed listed] at member ⊢
    rcases Resolution.mem_candidates member with resolved | ⟨candidates, several, candidate⟩
    · exact resolved
    · obtain ⟨_, accepted, _⟩ := planFor_eq_ok planned
      have unambiguous := (BoundOutline.planFor_eq_ok accepted).2.1
      exact absurd candidate (BoundOutline.not_mem_of_ambiguousWith unambiguous listed several)
  planned position used denotes := by
    obtain ⟨reference, listed, same⟩ := exists_reference analysed used
    rw [← same, ← resolution_eq analysed listed] at denotes
    have site := (site_iff_resolved analysed found listed).mpr denotes
    exact (text_again analysed planned found words position).1 (same ▸ site)
  other position used differs := by
    obtain ⟨reference, listed, same⟩ := exists_reference analysed used
    rw [← same, ← resolution_eq analysed listed] at differs
    have unsited := mt (site_iff_resolved analysed found listed).mp differs
    exact (text_again analysed planned found words position).2 (same ▸ unsited)

include analysed found sole in
theorem site_iff_target (id : DeclarationId) (declaration : Declaration)
    (declared : analysis.bound.outline.declaration? id = some declaration) :
    declaration.position ∈ analysis.bound.renameSites target renamed ↔ target = id := by
  have := Analysis.registered analysed
  constructor
  · intro site
    rcases BoundOutline.mem_renameSites.mp site with own | ⟨reference, resolves, same⟩
    · exact sole id declaration declared own
    · obtain ⟨used, _⟩ := BoundOutline.mem_referencesTo.mp resolves
      have undeclared := (reference_spelled analysed used).2.2
      exact absurd undeclared (analysis.bound.outline.declarationAt?_ne_none declared same.symm)
  · rintro rfl
    have same : declaration = renamed := Option.some.inj (declared.symm.trans found)
    rw [same]
    exact BoundOutline.mem_renameSites.mpr (Or.inl rfl)

include analysed planned fresh found noType sole unmarked in
/-- The text with the plan carried out replays the analysis exactly if no type is read off a planned word. -/
theorem replays_iff {after : Analysis} (reanalysed : ofText (analysis.carriedOut plan) index = .ok after)
    (tokens : after.tokens = Token.layOut 0 (analysis.tokens.map plan.respelled))
    (words : after.code.layout.words = (Token.significant analysis.tokens).map plan.respelled)
    (restored : after.code.respell (restore newName plan.oldName) = analysis.code.respell id) :
    analysis.Replays after target newName ↔
      ∀ word ∈ analysis.bound.renameSites target renamed, ¬ analysis.bound.outline.ReadsType analysis.code word := by
  obtain ⟨_, built, _, layout, bound, _⟩ := ofText_eq_ok analysed
  obtain ⟨_, builtAfter, _, layoutAfter, boundAfter, _⟩ := ofText_eq_ok reanalysed
  have replaced := replaces analysed planned fresh found noType sole unmarked words restored
  have outline : analysis.bound.outline = Outline.ofCode analysis.code := congrArg BoundOutline.outline bound
  have outlineAfter : after.bound.outline = Outline.ofCode after.code := congrArg BoundOutline.outline boundAfter
  constructor
  · intro replays
    have scopes := replays.scopes
    have declarations := replays.declarations
    rw [outline, outlineAfter] at scopes declarations
    rw [outline]
    exact replaced.unread_of_same scopes declarations
  · intro unread
    have sites := site_iff_target analysed found sole
    rw [outline] at unread found sites
    have : analysis.code.layout.Ordered := layout_ordered analysed
    have : after.code.layout.Ordered := layout_ordered reanalysed
    have renames := replaced.renames unread found noType sites
    have kinds : after.tokens.map (·.kind) = analysis.tokens.map (·.kind) := by
      rw [tokens]
      exact plan.kinds_respelled 0 analysis.tokens
    have references := (rewrites analysed planned fresh (outline ▸ found) words restored).references renames
    refine ⟨kinds, ?_, ?_, ?_, ?_, ?_, ?_⟩
    · rw [layout, layoutAfter]
      exact Layout.indices_of_kinds kinds
    · rw [outline, outlineAfter]
      exact Outline.scopesOfTokens_of_kinds kinds builtAfter built renames.homes
    · rw [outline, outlineAfter]
      exact renames.scopes
    · rw [outline, outlineAfter]
      exact renames.childrenOf
    · rw [outline, outlineAfter]
      exact renames.declarations
    · rw [bound, boundAfter]
      exact references

end Replay

end Analysis

/-- The target is a variable or method whose token declares nothing else and is marked as no type, and the new name is
a valid one that no token spells. -/
structure Analysis.FreshRename (analysis : Analysis) (target : DeclarationId) (renamed : Declaration)
    (newName : String) : Prop where
  found : analysis.bound.outline.declaration? target = some renamed
  noType : renamed.kind ≠ .type
  sole : ∀ id ∈ analysis.bound.outline.declarationIds,
    analysis.bound.positionOf id = renamed.position → target = id
  unmarked : analysis.bound.outline.isTypeWord renamed.position = false
  valid : Name.isValid newName = true
  fresh : ∀ token ∈ analysis.tokens, token.text ≠ newName

instance (analysis : Analysis) (target : DeclarationId) (renamed : Declaration) (newName : String) :
    Decidable (analysis.FreshRename target renamed newName) :=
  decidable_of_iff
    (analysis.bound.outline.declaration? target = some renamed ∧ renamed.kind ≠ .type ∧
      (∀ id ∈ analysis.bound.outline.declarationIds,
        analysis.bound.positionOf id = renamed.position → target = id) ∧
      analysis.bound.outline.isTypeWord renamed.position = false ∧ Name.isValid newName = true ∧
      ∀ token ∈ analysis.tokens, token.text ≠ newName)
    ⟨fun ⟨found, noType, sole, unmarked, valid, fresh⟩ => ⟨found, noType, sole, unmarked, valid, fresh⟩,
      fun ⟨found, noType, sole, unmarked, valid, fresh⟩ => ⟨found, noType, sole, unmarked, valid, fresh⟩⟩

theorem Analysis.FreshRename.alone {analysis : Analysis} {target : DeclarationId} {renamed : Declaration}
    {newName : String} (free : analysis.FreshRename target renamed newName) (id : DeclarationId)
    (declaration : Declaration) (declared : analysis.bound.outline.declaration? id = some declaration)
    (here : declaration.position = renamed.position) : target = id := by
  apply free.sole id
  · rw [Outline.mem_declarationIds, declared]
    rfl
  · unfold BoundOutline.positionOf
    rw [declared]
    exact here

/-- The rename of a variable or method to a fresh name is accepted, with a clear verdict, exactly if no use is ambiguous
about it. Where no planned token stands right after a number, the text with the plan carried out can be analysed again,
and that analysis is the one before with the target renamed exactly if no planned word is one a type is read off. -/
theorem fresh_rename_replays {source newName : String} {index : ProjectIndex} {analysis : Analysis}
    {target : DeclarationId} {renamed : Declaration} (options : RenameOptions)
    (analysed : Analysis.ofText source index = .ok analysis) (free : analysis.FreshRename target renamed newName) :
    ((∃ plan, analysis.planFor options target newName = .ok plan) ↔
      ∀ reference ∈ analysis.bound.references.toList, ∀ candidates,
        reference.resolution = .ambiguous candidates → target ∉ candidates) ∧
    ∀ plan, analysis.planFor options target newName = .ok plan →
      plan.verdict = .clear ∧
      ∃ text, analysis.apply plan = .ok text ∧
        ((analysis.tokens.IsChain fun before token => before.kind = .number → token.span ∉ plan.spans) →
          ∃ after, Analysis.ofText text index = .ok after ∧
            (analysis.Replays after target newName ↔
              ∀ word ∈ analysis.bound.renameSites target renamed,
                ¬ analysis.bound.outline.ReadsType analysis.code word)) := by
  have faultless : Name.fault? newName = none := Option.isNone_iff_eq_none.mp free.valid
  constructor
  · rw [← BoundOutline.ambiguousWith_eq_nil_iff]
    constructor
    · rintro ⟨plan, planned⟩
      obtain ⟨_, accepted, _⟩ := Analysis.planFor_eq_ok planned
      exact (BoundOutline.planFor_eq_ok accepted).2.1
    · intro unambiguous
      obtain ⟨plan, planned, _⟩ := Analysis.planFor_of_fresh analysed free.fresh faultless free.found unambiguous
      exact ⟨plan, planned⟩
  · intro plan planned
    obtain ⟨_, accepted, _⟩ := Analysis.planFor_eq_ok planned
    have unambiguous := (BoundOutline.planFor_eq_ok accepted).2.1
    obtain ⟨again, plannedAgain, clear⟩ :=
      Analysis.planFor_of_fresh analysed free.fresh faultless free.found unambiguous
    have same : again = plan := Except.ok.inj (plannedAgain.symm.trans planned)
    refine ⟨same ▸ clear, analysis.carriedOut plan, Analysis.apply_eq_ok analysed planned, ?_⟩
    intro apart
    obtain ⟨rewritten, built, words, restored⟩ := Analysis.code_again analysed planned free.fresh
    obtain ⟨after, reanalysed, tokens, code⟩ :=
      Analysis.ofText_of_stages (Analysis.tokens_again analysed planned apart) built index
    subst code
    exact ⟨after, reanalysed, Analysis.replays_iff analysed planned free.fresh free.found free.noType free.alone
      free.unmarked reanalysed tokens words restored⟩

/-- The field of a class, renamed with its one use. -/
theorem fresh_rename_replays_field :
    ∃ analysis plan after,
      Analysis.ofText "class A { int x; int f() { return x; } }" ProjectIndex.empty = .ok analysis ∧
      analysis.planFor {} 1 "size" = .ok plan ∧ plan.verdict = .clear ∧
      Analysis.ofText "class A { int size; int f() { return size; } }" ProjectIndex.empty = .ok after ∧
      analysis.Replays after 1 "size" := by
  have computed :
      ((Analysis.ofText "class A { int x; int f() { return x; } }" ProjectIndex.empty).toOption.any fun analysis =>
        (analysis.bound.outline.declaration? 1).any fun renamed =>
          decide (analysis.FreshRename 1 renamed "size") &&
          decide (∀ word ∈ analysis.bound.renameSites 1 renamed, ¬ analysis.bound.outline.ReadsType analysis.code word) &&
          (analysis.planFor {} 1 "size").toOption.any fun plan =>
            decide (analysis.tokens.IsChain fun before token => before.kind = .number → token.span ∉ plan.spans) &&
            analysis.carriedOut plan == "class A { int size; int f() { return size; } }") = true := by
    decide +kernel
  obtain ⟨analysis, analysed, further⟩ := exists_ok_of_any computed
  obtain ⟨renamed, _, checked⟩ := (Option.any_eq_true _ _).mp further
  simp only [Bool.and_eq_true, decide_eq_true_eq] at checked
  obtain ⟨⟨free, unread⟩, accepted⟩ := checked
  obtain ⟨plan, planned, rest⟩ := exists_ok_of_any accepted
  simp only [Bool.and_eq_true, decide_eq_true_eq, beq_iff_eq] at rest
  obtain ⟨apart, carried⟩ := rest
  obtain ⟨clear, text, applied, again⟩ := (fresh_rename_replays {} analysed free).2 plan planned
  obtain ⟨after, reanalysed, replays⟩ := again apart
  have same : text = analysis.carriedOut plan :=
    Except.ok.inj (applied.symm.trans (Analysis.apply_eq_ok analysed planned))
  rw [same, carried] at reanalysed
  exact ⟨analysis, plan, after, analysed, planned, clear, reanalysed, replays.mpr unread⟩

/-- A parameter in square brackets gets the type written there with it, although the word is not marked as a type. So
renaming the field that the word denotes takes the type from the parameter, and what was its member is unbound. -/
theorem fresh_rename_retypes :
    ∃ analysis renamed plan after,
      Analysis.ofText "class A { int m; } class K { int A; void f([A x]) { x.m = 1; } }" ProjectIndex.empty =
        .ok analysis ∧
      analysis.FreshRename 3 renamed "zz" ∧ analysis.planFor {} 3 "zz" = .ok plan ∧
      (analysis.tokens.IsChain fun before token => before.kind = .number → token.span ∉ plan.spans) ∧
      analysis.apply plan = .ok "class A { int m; } class K { int zz; void f([zz x]) { x.m = 1; } }" ∧
      Analysis.ofText "class A { int m; } class K { int zz; void f([zz x]) { x.m = 1; } }" ProjectIndex.empty =
        .ok after ∧
      (analysis.bound.outline.declaration? 5).bind (·.declaredType) = some ⟨"A", false⟩ ∧
      (after.bound.outline.declaration? 5).bind (·.declaredType) = some ⟨"zz", false⟩ ∧
      analysis.bound.references.toList.map (·.resolution) = [.resolved 3, .resolved 5, .resolved 1] ∧
      after.bound.references.toList.map (·.resolution) = [.resolved 3, .resolved 5, .unresolved] ∧
      ¬ analysis.Replays after 3 "zz" := by
  have before :
      ((Analysis.ofText "class A { int m; } class K { int A; void f([A x]) { x.m = 1; } }"
          ProjectIndex.empty).toOption.any fun analysis =>
        (analysis.bound.outline.declaration? 5).bind (·.declaredType) == some ⟨"A", false⟩ &&
        analysis.bound.references.toList.map (·.resolution) == [.resolved 3, .resolved 5, .resolved 1] &&
        (analysis.bound.outline.declaration? 3).any fun renamed =>
          decide (analysis.FreshRename 3 renamed "zz") &&
          (analysis.planFor {} 3 "zz").toOption.any fun plan =>
            decide (analysis.tokens.IsChain fun before token => before.kind = .number → token.span ∉ plan.spans) &&
            analysis.carriedOut plan == "class A { int m; } class K { int zz; void f([zz x]) { x.m = 1; } }") = true := by
    decide +kernel
  have afterwards :
      ((Analysis.ofText "class A { int m; } class K { int zz; void f([zz x]) { x.m = 1; } }"
          ProjectIndex.empty).toOption.any fun after =>
        (after.bound.outline.declaration? 5).bind (·.declaredType) == some ⟨"zz", false⟩ &&
        after.bound.references.toList.map (·.resolution) == [.resolved 3, .resolved 5, .unresolved]) = true := by
    decide +kernel
  obtain ⟨analysis, analysed, checked⟩ := exists_ok_of_any before
  obtain ⟨after, reanalysed, differs⟩ := exists_ok_of_any afterwards
  simp only [Bool.and_eq_true, beq_iff_eq] at checked differs
  obtain ⟨⟨typed, resolved⟩, further⟩ := checked
  obtain ⟨retyped, unresolved⟩ := differs
  obtain ⟨renamed, _, accepted⟩ := (Option.any_eq_true _ _).mp further
  simp only [Bool.and_eq_true, decide_eq_true_eq] at accepted
  obtain ⟨free, rest⟩ := accepted
  obtain ⟨plan, planned, carried⟩ := exists_ok_of_any rest
  simp only [Bool.and_eq_true, decide_eq_true_eq, beq_iff_eq] at carried
  obtain ⟨apart, text⟩ := carried
  have applied := Analysis.apply_eq_ok analysed planned
  rw [text] at applied
  refine ⟨analysis, renamed, plan, after, analysed, free, planned, apart, applied, reanalysed, typed, retyped, resolved,
    unresolved, ?_⟩
  intro replays
  have same := Reference.map_resolution_follow analysis.bound.references 3 "zz"
  rw [← replays.references, unresolved, resolved] at same
  exact absurd same (by decide)

end ScopedRename
