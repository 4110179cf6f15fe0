import Mathlib.Data.List.Nodup
import ScopedRename.Analysis
import ScopedRename.Proofs.Binding.Candidates
import ScopedRename.Proofs.Outline.Roles
import ScopedRename.Proofs.Outline.Spelling
import ScopedRename.Proofs.Span
import ScopedRename.Proofs.Token.Tiling

/-!
An accepted plan names exactly the words that denote its target, and carrying it out always succeeds. Main statement:
the new text is the old one with those words replaced and nothing else. The name of another declaration is among them
only where the outline has declared one word twice.
-/

namespace ScopedRename

namespace RenamePlan

variable (plan : RenamePlan)

section Pass

variable {token : Token} {rest : List Token} {span : Span} {spans : List Span}

/-- A token in front of the next span stays. -/
theorem substitute_pass (ahead : ∀ next ∈ spans.head?, token.span.start < next.start) :
    plan.substitute (token :: rest) spans = (plan.substitute rest spans).map (token.text :: ·) := by
  cases spans with
  | nil =>
      rw [substitute]
      cases plan.substitute rest [] <;> rfl
  | cons next pending =>
      have later := ahead next rfl
      rw [substitute, if_neg (by omega), if_neg (by omega)]
      cases plan.substitute rest (next :: pending) <;> rfl

/-- An identifier with the old name gives way where its span is the next one. -/
theorem substitute_take (identifier : token.isIdentifier = true) (text : token.text = plan.oldName) :
    plan.substitute (token :: rest) (token.span :: spans) =
      (plan.substitute rest spans).map (plan.newName :: ·) := by
  rw [substitute, if_neg (Nat.lt_irrefl _), if_pos rfl, if_pos ⟨rfl, identifier, text⟩]
  cases plan.substitute rest spans <;> rfl

theorem substitute_early (early : span.start < token.span.start) :
    plan.substitute (token :: rest) (span :: spans) = .error (.offBoundary span) := by
  rw [substitute, if_pos early]

theorem substitute_unlike (here : span.start = token.span.start)
    (unlike : ¬(span = token.span ∧ token.isIdentifier = true ∧ token.text = plan.oldName)) :
    plan.substitute (token :: rest) (span :: spans) = .error (.notIdentifier span plan.oldName) := by
  rw [substitute, if_neg (by omega), if_pos here, if_neg unlike]

end Pass

/-- One pass over the tokens finds every planned span, provided the spans come in order and each is the span of an
identifier with the old name. -/
theorem substitute_eq_ok {tokens : List Token} (tiled : Token.Tiled tokens) {spans : List Span}
    (ordered : spans.Pairwise fun left right => left.start < right.start)
    (spelled : ∀ span ∈ spans, ∃ token ∈ tokens,
      token.span = span ∧ token.isIdentifier = true ∧ token.text = plan.oldName) :
    plan.substitute tokens spans =
      .ok (tokens.map fun token => if token.span ∈ spans then plan.newName else token.text) := by
  induction tokens generalizing spans with
  | nil =>
      cases spans with
      | nil => rfl
      | cons span pending =>
          obtain ⟨token, impossible, _⟩ := spelled span List.mem_cons_self
          cases impossible
  | cons token rest ih =>
      have restTiled := tiled.tail
      have behind : ∀ other ∈ rest, token.span.start < other.span.start := fun other member => tiled.start_lt member
      cases spans with
      | nil =>
          have further := ih restTiled List.Pairwise.nil (fun span impossible => absurd impossible List.not_mem_nil)
          rw [substitute_pass plan (fun next impossible => by cases impossible), further]
          simp [Except.map]
      | cons span pending =>
          obtain ⟨later, pendingOrdered⟩ := List.pairwise_cons.mp ordered
          obtain ⟨named, member, sameSpan, identifier, text⟩ := spelled span List.mem_cons_self
          -- a span that starts behind the token is one of the rest
          have ahead : ∀ other ∈ span :: pending, token.span.start < other.start →
              ∃ candidate ∈ rest, candidate.span = other ∧ candidate.isIdentifier = true ∧
                candidate.text = plan.oldName := by
            intro other listed starts
            obtain ⟨candidate, inside, facts⟩ := spelled other listed
            rcases List.mem_cons.mp inside with here | further
            · rw [← facts.1, here] at starts
              exact absurd starts (Nat.lt_irrefl _)
            · exact ⟨candidate, further, facts⟩
          rcases List.mem_cons.mp member with here | further
          · subst here
            have pendingSpelled := fun other listed =>
              ahead other (List.mem_cons_of_mem _ listed) (sameSpan ▸ later other listed)
            have rested := ih restTiled pendingOrdered pendingSpelled
            have unchanged : rest.map (fun token => if token.span ∈ pending then plan.newName else token.text) =
                rest.map fun token => if token.span ∈ span :: pending then plan.newName else token.text := by
              apply List.map_congr_left
              intro other listed
              have different : other.span ≠ span := by
                intro same
                have starts := behind other listed
                rw [same, sameSpan] at starts
                exact Nat.lt_irrefl _ starts
              simp [different]
            rw [← sameSpan] at unchanged ⊢
            rw [substitute_take plan identifier text, rested, unchanged, List.map_cons, if_pos List.mem_cons_self]
            rfl
          · have starts : token.span.start < span.start := sameSpan ▸ behind named further
            have allAhead : ∀ other ∈ span :: pending, token.span.start < other.start := by
              intro other listed
              rcases List.mem_cons.mp listed with first | rest
              · rw [first]
                exact starts
              · exact Nat.lt_trans starts (later other rest)
            have rested := ih restTiled ordered fun other listed => ahead other listed (allAhead other listed)
            have untouched : token.span ∉ span :: pending := by
              intro listed
              exact Nat.lt_irrefl _ (allAhead token.span listed)
            rw [substitute_pass plan (fun next first => Option.some.inj first ▸ starts), rested, List.map_cons,
              if_neg untouched]
            rfl

end RenamePlan

/-! ### Texts before and after -/

/-- Replacing one word by another of a different length changes how long the text is. -/
private theorem length_flatMap_replace {item : Type} (items : List item) (chosen : item → Bool)
    (spell : item → List Char) (old new : List Char) (same : ∀ entry ∈ items, chosen entry = true → spell entry = old) :
    (items.flatMap fun entry => if chosen entry then new else spell entry).length +
        items.countP chosen * old.length =
      (items.flatMap spell).length + items.countP chosen * new.length := by
  induction items with
  | nil => simp
  | cons entry rest ih =>
      have rested := ih fun other member => same other (List.mem_cons_of_mem _ member)
      simp only [List.flatMap_cons, List.length_append, List.countP_cons]
      cases picked : chosen entry with
      | false =>
          simp only [Bool.false_eq_true, if_false, Nat.add_zero]
          omega
      | true =>
          have length := congrArg List.length (same entry List.mem_cons_self picked)
          simp only [if_true, Nat.add_mul, Nat.one_mul]
          omega

private theorem eq_of_flatMap_replace {item : Type} (items : List item) (chosen : item → Bool)
    (spell : item → List Char) (old new : List Char) (same : ∀ entry ∈ items, chosen entry = true → spell entry = old)
    (length : new.length = old.length) (picked : ∃ entry ∈ items, chosen entry = true)
    (texts : (items.flatMap fun entry => if chosen entry then new else spell entry) = items.flatMap spell) :
    new = old := by
  induction items with
  | nil =>
      obtain ⟨entry, impossible, _⟩ := picked
      cases impossible
  | cons entry rest ih =>
      rw [List.flatMap_cons, List.flatMap_cons] at texts
      cases here : chosen entry with
      | true =>
          rw [here, if_pos rfl, same entry List.mem_cons_self here] at texts
          exact (List.append_inj texts length).1
      | false =>
          rw [here] at texts
          refine ih (fun other member => same other (List.mem_cons_of_mem _ member)) ?_
            (List.append_cancel_left texts)
          obtain ⟨other, member, chosenOther⟩ := picked
          rcases List.mem_cons.mp member with first | further
          · rw [first, here] at chosenOther
            cases chosenOther
          · exact ⟨other, further, chosenOther⟩

/-- Replacing at least one word, always the same one, leaves the text as it was only if the word stays. -/
private theorem flatMap_replace_eq_iff {item : Type} (items : List item) (chosen : item → Bool)
    (spell : item → List Char) (old new : List Char) (same : ∀ entry ∈ items, chosen entry = true → spell entry = old)
    (picked : ∃ entry ∈ items, chosen entry = true) :
    (items.flatMap fun entry => if chosen entry then new else spell entry) = items.flatMap spell ↔ new = old := by
  constructor
  · intro texts
    have counted := length_flatMap_replace items chosen spell old new same
    rw [texts, Nat.add_left_cancel_iff] at counted
    have positive : 0 < items.countP chosen := List.countP_pos_iff.mpr picked
    have length : new.length = old.length := (Nat.eq_of_mul_eq_mul_left positive counted).symm
    exact eq_of_flatMap_replace items chosen spell old new same length picked texts
  · intro equal
    apply List.flatMap_congr
    intro entry member
    cases here : chosen entry with
    | true =>
        rw [equal, same entry member here]
        rfl
    | false => rfl

namespace BoundOutline

variable {bound : BoundOutline}

theorem planFor_eq_ok {strict : Bool} {target : DeclarationId} {newName : String} {accepted : Renaming}
    (planned : bound.planFor strict target newName = .ok accepted) :
    Name.fault? newName = none ∧ bound.ambiguousWith target = [] ∧
      ∃ renamed, bound.outline.declaration? target = some renamed ∧
        accepted = ⟨target, renamed.kind, renamed.name, newName, bound.renameSites target renamed, accepted.verdict⟩ ∧
        (renamed.name = newName ∧ accepted.verdict = .clear ∨
          renamed.name ≠ newName ∧ bound.verdict strict target renamed newName = .ok accepted.verdict) := by
  unfold planFor at planned
  split at planned
  · cases planned
  · rename_i valid
    split at planned
    · cases planned
    · rename_i renamed found
      split at planned
      · cases planned
      · rename_i noneAmbiguous
        have unambiguous := List.map_eq_nil_iff.mp noneAmbiguous
        dsimp only at planned
        split at planned
        · rename_i identity
          cases planned
          exact ⟨valid, unambiguous, renamed, found, rfl, Or.inl ⟨beq_iff_eq.mp identity, rfl⟩⟩
        · rename_i different
          split at planned
          · rename_i verdict judged
            cases planned
            refine ⟨valid, unambiguous, renamed, found, rfl, Or.inr ⟨?_, judged⟩⟩
            intro same
            exact different (beq_iff_eq.mpr same)
          · cases planned

theorem mem_referencesTo {id : DeclarationId} {reference : Reference} :
    reference ∈ bound.referencesTo id ↔
      reference ∈ bound.references.toList ∧ reference.resolution = .resolved id := by
  unfold referencesTo
  rw [List.mem_filter, beq_iff_eq]

theorem not_mem_of_ambiguousWith {id : DeclarationId} (unambiguous : bound.ambiguousWith id = [])
    {reference : Reference} (used : reference ∈ bound.references.toList) {candidates : List DeclarationId}
    (several : reference.resolution = .ambiguous candidates) : id ∉ candidates := by
  intro member
  have listed : reference ∈ bound.ambiguousWith id := by
    unfold ambiguousWith
    rw [List.mem_filter, several]
    exact ⟨used, List.contains_iff_mem.mpr member⟩
  rw [unambiguous] at listed
  cases listed

theorem mem_renameSites {target : DeclarationId} {renamed : Declaration} {position : Nat} :
    position ∈ bound.renameSites target renamed ↔
      position = renamed.position ∨ ∃ reference ∈ bound.referencesTo target, reference.position = position := by
  unfold renameSites
  rw [List.mem_cons, List.mem_map]

end BoundOutline

namespace Analysis

theorem ofText_eq_ok {source : String} {index : ProjectIndex} {analysis : Analysis}
    (analysed : ofText source index = .ok analysis) :
    Token.ofText source = .ok analysis.tokens ∧ Code.ofTokens analysis.tokens = .ok analysis.code ∧
      analysis.source = source ∧ analysis.layout = Layout.ofTokens analysis.tokens ∧
      analysis.bound =
        ⟨Outline.ofCode analysis.code, analysis.code.references (Outline.ofCode analysis.code) index⟩ ∧
      analysis.hash = ContentHash.ofText source := by
  unfold ofText at analysed
  cases split : Token.ofText source with
  | error error =>
      rw [split] at analysed
      cases analysed
  | ok tokens =>
      rw [split] at analysed
      dsimp only [Except.mapError, bind, Except.bind] at analysed
      cases paired : Code.ofTokens tokens with
      | error fault =>
          rw [paired] at analysed
          cases analysed
      | ok code =>
          rw [paired] at analysed
          cases analysed
          exact ⟨rfl, paired, rfl, Code.ofTokens_layout paired, rfl, rfl⟩

theorem registered {source : String} {index : ProjectIndex} {analysis : Analysis}
    (analysed : ofText source index = .ok analysis) : analysis.bound.outline.Registered := by
  obtain ⟨_, _, _, _, bound, _⟩ := ofText_eq_ok analysed
  rw [bound]
  infer_instance

theorem ofText_ne_stale (source : String) (index : ProjectIndex) (staleness : Staleness) :
    ofText source index ≠ .error (.stalePlan staleness) := by
  intro failed
  unfold ofText at failed
  cases split : Token.ofText source with
  | error error =>
      rw [split] at failed
      cases failed
  | ok tokens =>
      rw [split] at failed
      dsimp only [Except.mapError, bind, Except.bind] at failed
      cases paired : Code.ofTokens tokens with
      | error fault =>
          rw [paired] at failed
          cases failed
      | ok code =>
          rw [paired] at failed
          cases failed

variable {analysis : Analysis}

theorem planFor_eq_ok {options : RenameOptions} {target : DeclarationId} {newName : String} {plan : RenamePlan}
    (planned : analysis.planFor options target newName = .ok plan) :
    ∃ accepted, analysis.bound.planFor options.strictShadowing target newName = .ok accepted ∧
      plan = accepted.toPlan analysis.layout analysis.hash := by
  unfold planFor placed at planned
  split at planned
  · rename_i accepted same
    cases planned
    exact ⟨accepted, same, rfl⟩
  · cases planned

/-- A plan for a locator is a plan for the declaration it points at. -/
theorem plan_eq_ok {options : RenameOptions} {locator : Locator} {newName : String} {plan : RenamePlan}
    (planned : analysis.plan options locator newName = .ok plan) :
    ∃ target, analysis.planFor options target newName = .ok plan := by
  unfold Analysis.plan placed at planned
  split at planned
  · rename_i accepted same
    cases planned
    unfold BoundOutline.plan at same
    split at same
    · cases same
    · cases located : analysis.bound.locate analysis.layout locator with
      | error refusal =>
          rw [located] at same
          cases same
      | ok target =>
          rw [located] at same
          refine ⟨target, ?_⟩
          unfold planFor
          rw [show analysis.bound.planFor options.strictShadowing target newName = .ok accepted from same]
          rfl
  · cases planned

theorem plan_ne_stale (options : RenameOptions) (locator : Locator) (newName : String) (staleness : Staleness) :
    analysis.plan options locator newName ≠ .error (.stalePlan staleness) := by
  intro failed
  unfold Analysis.plan placed at failed
  split at failed
  · cases failed
  · cases failed

/-- The span is that of the target's name, or of a use that denotes the target. -/
def Denotes (analysis : Analysis) (target : DeclarationId) (span : Span) : Prop :=
  (∃ declaration, analysis.bound.outline.declaration? target = some declaration ∧
      span = analysis.layout.span declaration.position) ∨
    ∃ reference ∈ analysis.bound.references.toList, reference.resolution = .resolved target ∧
      span = analysis.layout.span reference.position

def carriedOut (analysis : Analysis) (plan : RenamePlan) : String :=
  String.join (analysis.tokens.map fun token => if token.span ∈ plan.spans then plan.newName else token.text)

section Accepted

variable {source newName : String} {index : ProjectIndex} {options : RenameOptions} {target : DeclarationId}
  {plan : RenamePlan}

theorem tiled (analysed : ofText source index = .ok analysis) : Token.Tiled analysis.tokens :=
  Token.ofText_tiled (ofText_eq_ok analysed).1

/-- Every declared name is an identifier of the code with that text. -/
theorem declaration_spelled (analysed : ofText source index = .ok analysis) {declaration : Declaration}
    (found : analysis.bound.outline.declaration? target = some declaration) :
    analysis.code.isIdentifier declaration.position = true ∧
      declaration.name = analysis.code.text declaration.position := by
  obtain ⟨_, _, _, _, bound, _⟩ := ofText_eq_ok analysed
  rw [bound] at found
  exact Walk.ofCode_named analysis.code declaration (Array.mem_of_getElem? found)

/-- Every use is an identifier of the code with that text, where no name is declared. -/
theorem reference_spelled (analysed : ofText source index = .ok analysis) {reference : Reference}
    (used : reference ∈ analysis.bound.references.toList) :
    analysis.code.isIdentifier reference.position = true ∧
      reference.name = analysis.code.text reference.position ∧
      analysis.bound.outline.declarationAt? reference.position = none := by
  obtain ⟨_, _, _, _, bound, _⟩ := ofText_eq_ok analysed
  rw [bound] at used ⊢
  have found := (analysis.code.mem_references _ index).mp used
  obtain ⟨isReference, same⟩ := (analysis.code.referenceAt?_eq_some _ index).mp found
  obtain ⟨identifier, undeclared⟩ := Bool.and_eq_true_iff.mp isReference
  rw [same]
  exact ⟨identifier, rfl, Option.isNone_iff_eq_none.mp undeclared⟩

theorem reference_unique (analysed : ofText source index = .ok analysis) {left right : Reference}
    (leftUsed : left ∈ analysis.bound.references.toList) (rightUsed : right ∈ analysis.bound.references.toList)
    (same : left.position = right.position) : left = right := by
  obtain ⟨_, _, _, _, bound, _⟩ := ofText_eq_ok analysed
  rw [bound] at leftUsed rightUsed
  have leftAt := (analysis.code.mem_references _ index).mp leftUsed
  have rightAt := (analysis.code.mem_references _ index).mp rightUsed
  rw [same] at leftAt
  exact Option.some.inj (leftAt.symm.trans rightAt)

theorem references_ordered (analysed : ofText source index = .ok analysis) :
    analysis.bound.references.toList.Pairwise fun left right => left.position < right.position := by
  obtain ⟨_, _, _, _, bound, _⟩ := ofText_eq_ok analysed
  rw [bound]
  exact analysis.code.references_pairwise _ index

theorem position_eq_of_span_eq (analysed : ofText source index = .ok analysis) {left right : Nat}
    (leftWord : analysis.code.isIdentifier left = true) (rightWord : analysis.code.isIdentifier right = true)
    (same : analysis.layout.span left = analysis.layout.span right) : left = right := by
  obtain ⟨_, built, _, layout, _, _⟩ := ofText_eq_ok analysed
  have size := Code.size_ofTokens built
  have leftInside := analysis.code.isIdentifier_lt_size leftWord
  have rightInside := analysis.code.isIdentifier_lt_size rightWord
  rw [layout] at same
  exact Layout.span_injective (tiled analysed) (size ▸ leftInside) (size ▸ rightInside) same

/-- The words a plan names: identifiers spelled like the target. -/
theorem site_spelled (analysed : ofText source index = .ok analysis) {declaration : Declaration}
    (found : analysis.bound.outline.declaration? target = some declaration) {position : Nat}
    (site : position ∈ analysis.bound.renameSites target declaration) :
    analysis.code.isIdentifier position = true ∧ analysis.code.text position = declaration.name := by
  rcases BoundOutline.mem_renameSites.mp site with here | ⟨reference, resolves, here⟩
  · rw [here]
    obtain ⟨identifier, spelled⟩ := declaration_spelled analysed found
    exact ⟨identifier, spelled.symm⟩
  · obtain ⟨used, resolved⟩ := BoundOutline.mem_referencesTo.mp resolves
    obtain ⟨identifier, spelled, _⟩ := reference_spelled analysed used
    have candidate : target ∈ reference.resolution.candidates := by
      rw [resolved]
      exact List.mem_singleton.mpr rfl
    obtain ⟨_, _, _, _, bound, _⟩ := ofText_eq_ok analysed
    rw [bound] at used found
    obtain ⟨denoted, foundDenoted, named⟩ := analysis.code.name_of_mem_candidates _ index used candidate
    have same : denoted = declaration := Option.some.inj (foundDenoted.symm.trans found)
    rw [← here]
    exact ⟨identifier, spelled.symm.trans (named.symm.trans (congrArg Declaration.name same))⟩

/-- An accepted plan, read off the declaration it renames. -/
theorem accepted (planned : analysis.planFor options target newName = .ok plan) :
    ∃ declaration, analysis.bound.outline.declaration? target = some declaration ∧
      plan.oldName = declaration.name ∧ plan.newName = newName ∧ plan.sourceHash = analysis.hash ∧
      plan.spans = Span.sort ((analysis.bound.renameSites target declaration).map analysis.layout.span) := by
  obtain ⟨renames, accepted, placed⟩ := planFor_eq_ok planned
  obtain ⟨_, _, declaration, found, shape, _⟩ := BoundOutline.planFor_eq_ok accepted
  rw [placed, shape]
  exact ⟨declaration, found, rfl, rfl, rfl, rfl⟩

/-- A plan that changes the name has been judged for collisions. -/
theorem judged (planned : analysis.planFor options target newName = .ok plan) {renamed : Declaration}
    (found : analysis.bound.outline.declaration? target = some renamed) (changes : plan.isIdentity = false) :
    renamed.name ≠ newName ∧
      ∃ verdict, analysis.bound.verdict options.strictShadowing target renamed newName = .ok verdict := by
  obtain ⟨accepted, plannedWords, placed⟩ := planFor_eq_ok planned
  obtain ⟨_, _, declaration, declared, shape, passed⟩ := BoundOutline.planFor_eq_ok plannedWords
  rw [found] at declared
  cases declared
  have different : renamed.name ≠ newName := by
    rw [placed, shape] at changes
    exact beq_eq_false_iff_ne.mp changes
  rcases passed with ⟨same, _⟩ | ⟨_, judged⟩
  · exact absurd same different
  · exact ⟨different, accepted.verdict, judged⟩

theorem layout_ordered (analysed : ofText source index = .ok analysis) : analysis.layout.Ordered := by
  obtain ⟨_, _, _, layout, _, _⟩ := ofText_eq_ok analysed
  exact layout ▸ Layout.ordered_ofTokens (tiled analysed)

theorem startOf_eq (analysed : ofText source index = .ok analysis) (position : Nat) :
    analysis.bound.outline.startOf position = (analysis.layout.span position).start := by
  obtain ⟨_, _, _, _, bound, _⟩ := ofText_eq_ok analysed
  unfold Outline.startOf
  rw [bound, Outline.ofCode_layout]
  rfl

theorem spans_ordered (analysed : ofText source index = .ok analysis)
    (planned : analysis.planFor options target newName = .ok plan) :
    plan.spans.Pairwise fun left right => left.start < right.start := by
  have := layout_ordered analysed
  obtain ⟨declaration, _, _, _, _, spans⟩ := accepted planned
  rw [spans]
  refine (Span.sort_ordered _).imp_of_mem ?_
  intro left right leftMember rightMember ⟨before, different⟩
  obtain ⟨position, _, rfl⟩ := List.mem_map.mp (Span.mem_sort.mp leftMember)
  obtain ⟨other, _, rfl⟩ := List.mem_map.mp (Span.mem_sort.mp rightMember)
  have starts : (analysis.layout.span position).start ≠ (analysis.layout.span other).start :=
    fun same => different (congrArg analysis.layout.span (Layout.Ordered.strictMono.injective same))
  simp only [Span.le, Bool.or_eq_true, Bool.and_eq_true, decide_eq_true_eq, beq_iff_eq] at before
  omega

theorem mem_spans (planned : analysis.planFor options target newName = .ok plan) (span : Span) :
    span ∈ plan.spans ↔ analysis.Denotes target span := by
  obtain ⟨declaration, found, _, _, _, spans⟩ := accepted planned
  rw [spans, Span.mem_sort, List.mem_map]
  constructor
  · rintro ⟨position, site, same⟩
    rcases BoundOutline.mem_renameSites.mp site with here | ⟨reference, resolves, here⟩
    · exact Or.inl ⟨declaration, found, by rw [← same, here]⟩
    · obtain ⟨used, resolved⟩ := BoundOutline.mem_referencesTo.mp resolves
      exact Or.inr ⟨reference, used, resolved, by rw [← same, here]⟩
  · rintro (⟨other, foundOther, same⟩ | ⟨reference, used, resolved, same⟩)
    · rw [found] at foundOther
      cases foundOther
      exact ⟨declaration.position, BoundOutline.mem_renameSites.mpr (Or.inl rfl), same.symm⟩
    · refine ⟨reference.position, BoundOutline.mem_renameSites.mpr (Or.inr ⟨reference, ?_, rfl⟩), same.symm⟩
      exact BoundOutline.mem_referencesTo.mpr ⟨used, resolved⟩

theorem spans_spelled (analysed : ofText source index = .ok analysis)
    (planned : analysis.planFor options target newName = .ok plan) :
    ∀ span ∈ plan.spans, ∃ token ∈ analysis.tokens,
      token.span = span ∧ token.isIdentifier = true ∧ token.text = plan.oldName := by
  obtain ⟨declaration, found, oldName, _, _, spans⟩ := accepted planned
  obtain ⟨_, built, _, layout, _, _⟩ := ofText_eq_ok analysed
  intro span member
  rw [spans, Span.mem_sort] at member
  obtain ⟨position, site, same⟩ := List.mem_map.mp member
  obtain ⟨identifier, spelled⟩ := site_spelled analysed found site
  obtain ⟨token, inside, atSpan, isIdentifier, text⟩ := Code.identifier_token built identifier
  refine ⟨token, inside, ?_, isIdentifier, ?_⟩
  · rw [atSpan, ← same, layout]
  · rw [text, spelled, oldName]

theorem planned_token_text (analysed : ofText source index = .ok analysis)
    (planned : analysis.planFor options target newName = .ok plan) {token : Token}
    (member : token ∈ analysis.tokens) (chosen : token.span ∈ plan.spans) :
    token.isIdentifier = true ∧ token.text = plan.oldName := by
  obtain ⟨named, inside, sameSpan, identifier, text⟩ := spans_spelled analysed planned token.span chosen
  have same : named = token := (tiled analysed).eq_of_span_eq inside member sameSpan
  rw [← same]
  exact ⟨identifier, text⟩

theorem apply_eq_ok (analysed : ofText source index = .ok analysis)
    (planned : analysis.planFor options target newName = .ok plan) :
    analysis.apply plan = .ok (analysis.carriedOut plan) := by
  obtain ⟨_, _, sameSource, _, _, hash⟩ := ofText_eq_ok analysed
  obtain ⟨_, _, _, _, planHash, _⟩ := accepted planned
  have fresh : plan.checkFresh analysis.source = .ok () := by
    unfold RenamePlan.checkFresh
    rw [planHash, hash, sameSource]
    exact if_pos rfl
  have substituted := plan.substitute_eq_ok (tiled analysed) (spans_ordered analysed planned)
    (spans_spelled analysed planned)
  unfold apply RenamePlan.apply
  rw [fresh]
  dsimp only [bind, Except.bind]
  rw [substituted]
  rfl

/-- Carrying out a plan changes the text unless the name stays. -/
theorem carriedOut_eq_iff (analysed : ofText source index = .ok analysis)
    (planned : analysis.planFor options target newName = .ok plan) :
    analysis.carriedOut plan = source ↔ newName = plan.oldName := by
  obtain ⟨split, _, _, _, _, _⟩ := ofText_eq_ok analysed
  obtain ⟨declaration, found, _, new, _, spans⟩ := accepted planned
  have nonempty : analysis.layout.span declaration.position ∈ plan.spans := by
    rw [spans, Span.mem_sort]
    exact List.mem_map_of_mem (BoundOutline.mem_renameSites.mpr (Or.inl rfl))
  obtain ⟨token, inside, sameSpan, _⟩ := spans_spelled analysed planned _ nonempty
  have spelled : ∀ other ∈ analysis.tokens, decide (other.span ∈ plan.spans) = true →
      other.text.toList = plan.oldName.toList := by
    intro other member chosen
    rw [(planned_token_text analysed planned member (of_decide_eq_true chosen)).2]
  have replaced := flatMap_replace_eq_iff analysis.tokens (fun token => decide (token.span ∈ plan.spans))
    (fun token => token.text.toList) plan.oldName.toList plan.newName.toList spelled
    ⟨token, inside, decide_eq_true (sameSpan ▸ nonempty)⟩
  have before : source.toList = analysis.tokens.flatMap fun token => token.text.toList := by
    rw [← Token.ofText_join split, String.toList_join, List.flatMap_map]
  have after : (analysis.carriedOut plan).toList = analysis.tokens.flatMap fun token =>
      if decide (token.span ∈ plan.spans) then plan.newName.toList else token.text.toList := by
    unfold carriedOut
    rw [String.toList_join, List.flatMap_map]
    refine List.flatMap_congr fun token _ => ?_
    by_cases chosen : token.span ∈ plan.spans
    · simp [chosen]
    · simp [chosen]
  rw [← String.toList_inj, before, after, replaced, String.toList_inj, new]

theorem other_use_not_planned (analysed : ofText source index = .ok analysis)
    (planned : analysis.planFor options target newName = .ok plan) {reference : Reference}
    (used : reference ∈ analysis.bound.references.toList) (other : reference.resolution ≠ .resolved target) :
    analysis.layout.span reference.position ∉ plan.spans := by
  intro chosen
  obtain ⟨identifier, _, undeclared⟩ := reference_spelled analysed used
  rcases (mem_spans planned _).mp chosen with ⟨declaration, found, same⟩ | ⟨denoting, alsoUsed, resolved, same⟩
  · have position := position_eq_of_span_eq analysed identifier (declaration_spelled analysed found).1 same
    have := registered analysed
    exact analysis.bound.outline.declarationAt?_ne_none found position.symm undeclared
  · have position := position_eq_of_span_eq analysed identifier (reference_spelled analysed alsoUsed).1 same
    have unique : reference = denoting := reference_unique analysed used alsoUsed position
    exact other (unique ▸ resolved)

/-- The name of a declaration is planned exactly if it stands at the word that names the target. -/
theorem name_planned_iff (analysed : ofText source index = .ok analysis)
    (planned : analysis.planFor options target newName = .ok plan) {other : DeclarationId}
    {declaration renamed : Declaration} (found : analysis.bound.outline.declaration? other = some declaration)
    (foundTarget : analysis.bound.outline.declaration? target = some renamed) :
    analysis.layout.span declaration.position ∈ plan.spans ↔ declaration.position = renamed.position := by
  rw [mem_spans planned]
  constructor
  · have identifier := (declaration_spelled analysed found).1
    rintro (⟨named, foundNamed, same⟩ | ⟨denoting, used, _, same⟩)
    · cases Option.some.inj (foundNamed.symm.trans foundTarget)
      exact position_eq_of_span_eq analysed identifier (declaration_spelled analysed foundNamed).1 same
    · obtain ⟨alsoIdentifier, _, undeclared⟩ := reference_spelled analysed used
      have position := position_eq_of_span_eq analysed identifier alsoIdentifier same
      have := registered analysed
      exact absurd undeclared (analysis.bound.outline.declarationAt?_ne_none found position)
  · intro same
    exact Or.inl ⟨renamed, foundTarget, by rw [same]⟩

def NamesApart (analysis : Analysis) : Prop :=
  ∀ (id other : DeclarationId) (declaration second : Declaration),
    analysis.bound.outline.declaration? id = some declaration →
    analysis.bound.outline.declaration? other = some second → declaration.position = second.position → id = other

theorem namesApart_iff (analysed : ofText source index = .ok analysis) :
    analysis.NamesApart ↔
      ∀ state position, Walk.Visits analysis.code (Walk.start analysis.code.layout) 0 state position →
        ¬Walk.Relists analysis.code state position := by
  obtain ⟨_, _, _, _, bound, _⟩ := ofText_eq_ok analysed
  have outline : Outline.ofCode analysis.code = analysis.bound.outline := by rw [bound]
  rw [← Walk.names_nodup_iff, outline]
  unfold NamesApart Outline.names Outline.declaration?
  simp only [← Array.getElem?_toList]
  rw [List.nodup_iff_getElem?_ne_getElem?]
  constructor
  · intro apart id other ordered inside same
    rw [List.length_map] at inside
    rw [List.getElem?_map, List.getElem?_map, List.getElem?_eq_getElem inside,
      List.getElem?_eq_getElem (Nat.lt_trans ordered inside)] at same
    have equal := apart id other _ _ (List.getElem?_eq_getElem (Nat.lt_trans ordered inside))
      (List.getElem?_eq_getElem inside) (Option.some.inj same)
    exact Nat.ne_of_lt ordered equal
  · intro distinct id other declaration second found foundSecond same
    have agree : (analysis.bound.outline.declarations.toList.map (·.position))[id]? =
        (analysis.bound.outline.declarations.toList.map (·.position))[other]? := by
      rw [List.getElem?_map, List.getElem?_map, found, foundSecond]
      exact congrArg some same
    have inside {id : Nat} {declaration : Declaration}
        (found : analysis.bound.outline.declarations.toList[id]? = some declaration) :
        id < (analysis.bound.outline.declarations.toList.map (·.position)).length := by
      rw [List.length_map]
      exact (List.getElem?_eq_some_iff.mp found).1
    rcases Nat.lt_trichotomy id other with before | equal | after
    · exact absurd agree (distinct id other before (inside foundSecond))
    · exact equal
    · exact absurd agree.symm (distinct other id after (inside found))

end Accepted

end Analysis

/-- Whatever the circumstances, a run fails with a stale plan on no text. -/
theorem RenameContext.run_ne_stale (context : RenameContext) (source : String) (locator : Locator) (newName : String)
    (staleness : Staleness) : context.run source locator newName ≠ .error (.stalePlan staleness) := by
  have checked (stage : Stage) : context.checkpoint stage ≠ .error (.stalePlan staleness) := by
    intro failed
    unfold checkpoint at failed
    split at failed
    · cases failed
    · cases failed
  intro failed
  unfold run analyze plan at failed
  cases first : context.checkpoint .lex with
  | error error =>
      rw [first] at failed
      cases failed
      exact checked .lex first
  | ok _ =>
      rw [first] at failed
      dsimp only [bind, Except.bind] at failed
      cases analysed : Analysis.ofText source
          (if context.options.consultIndex then context.index else ProjectIndex.empty) with
      | error error =>
          rw [analysed] at failed
          cases failed
          exact Analysis.ofText_ne_stale source _ staleness analysed
      | ok analysis =>
          rw [analysed] at failed
          dsimp only at failed
          cases second : context.checkpoint .plan with
          | error error =>
              rw [second] at failed
              cases failed
              exact checked .plan second
          | ok _ =>
              rw [second] at failed
              dsimp only at failed
              cases planned : analysis.plan context.options locator newName with
              | error error =>
                  rw [planned] at failed
                  cases failed
                  exact Analysis.plan_ne_stale context.options locator newName staleness planned
              | ok plan =>
                  obtain ⟨target, plannedFor⟩ := Analysis.plan_eq_ok planned
                  rw [planned] at failed
                  dsimp only at failed
                  rw [Analysis.apply_eq_ok analysed plannedFor] at failed
                  cases failed

/-- An accepted plan names, in order, exactly the name of its target and the uses that denote it, all of them
identifiers spelled with the old name, and no use is ambiguous about the target. It always applies: the result is the
text with the planned tokens replaced, and differs from the text unless the name stays. Comments, literals and other
uses are never planned, so no run fails with a stale plan. The name of another declaration is planned exactly if it is
the word that names the target as well; and every declaration has a word of its own if and only if the walk never comes
to a method whose type parameters have been declared before. -/
theorem accepted_plan_exact (source : String) :
    (∀ (index : ProjectIndex) (analysis : Analysis) (options : RenameOptions) (target : DeclarationId)
      (newName : String) (plan : RenamePlan),
      Analysis.ofText source index = .ok analysis → analysis.planFor options target newName = .ok plan →
        (plan.target = target ∧ plan.newName = newName ∧
          (analysis.bound.outline.declaration? target).map (·.name) = some plan.oldName) ∧
        plan.spans.Pairwise (fun left right => left.start < right.start) ∧
        (∀ span, span ∈ plan.spans ↔ analysis.Denotes target span) ∧
        (∀ span ∈ plan.spans, ∃ token ∈ analysis.tokens,
          token.span = span ∧ token.isIdentifier = true ∧ token.text = plan.oldName) ∧
        (∀ reference ∈ analysis.bound.references.toList, ∀ candidates,
          reference.resolution = .ambiguous candidates → target ∉ candidates) ∧
        analysis.apply plan = .ok (analysis.carriedOut plan) ∧
        (analysis.carriedOut plan = source ↔ newName = plan.oldName) ∧
        (∀ token ∈ analysis.tokens, token.isIdentifier = false → token.span ∉ plan.spans) ∧
        (∀ reference ∈ analysis.bound.references.toList, reference.resolution ≠ .resolved target →
          analysis.layout.span reference.position ∉ plan.spans) ∧
        ∀ other declaration renamed, analysis.bound.outline.declaration? other = some declaration →
          analysis.bound.outline.declaration? target = some renamed →
          (analysis.layout.span declaration.position ∈ plan.spans ↔ declaration.position = renamed.position)) ∧
    (∀ (index : ProjectIndex) (analysis : Analysis), Analysis.ofText source index = .ok analysis →
      (analysis.NamesApart ↔
        ∀ state position, Walk.Visits analysis.code (Walk.start analysis.code.layout) 0 state position →
          ¬Walk.Relists analysis.code state position)) ∧
    ∀ (context : RenameContext) (locator : Locator) (newName : String) (staleness : Staleness),
      context.run source locator newName ≠ .error (.stalePlan staleness) := by
  refine ⟨?_, fun _ _ analysed => Analysis.namesApart_iff analysed,
    fun context locator newName staleness => context.run_ne_stale source locator newName staleness⟩
  intro index analysis options target newName plan analysed planned
  refine ⟨?_, Analysis.spans_ordered analysed planned, Analysis.mem_spans planned,
    Analysis.spans_spelled analysed planned, ?_, Analysis.apply_eq_ok analysed planned,
    Analysis.carriedOut_eq_iff analysed planned, ?_, ?_, ?_⟩
  · obtain ⟨declaration, found, oldName, new, _⟩ := Analysis.accepted planned
    obtain ⟨renames, accepted, placed⟩ := Analysis.planFor_eq_ok planned
    obtain ⟨_, _, _, _, shape, _⟩ := BoundOutline.planFor_eq_ok accepted
    refine ⟨?_, new, by rw [found, oldName]; rfl⟩
    rw [placed, shape]
    rfl
  · intro reference used candidates several
    obtain ⟨renames, accepted, _⟩ := Analysis.planFor_eq_ok planned
    exact BoundOutline.not_mem_of_ambiguousWith (BoundOutline.planFor_eq_ok accepted).2.1 used several
  · intro token member literal chosen
    have identifier := (Analysis.planned_token_text analysed planned member chosen).1
    rw [literal] at identifier
    cases identifier
  · intro reference used other
    exact Analysis.other_use_not_planned analysed planned used other
  · intro other declaration renamed found foundTarget
    exact Analysis.name_planned_iff analysed planned found foundTarget

/-- The field of a class, renamed with its one use; the local variable of the same name stays. -/
theorem accepted_plan_exact_field :
    ∃ analysis plan,
      Analysis.ofText "class A { int x; int f() { return x; } int g() { int x; return x; } }" ProjectIndex.empty =
        .ok analysis ∧
      analysis.planFor {} 1 "size" = .ok plan ∧
      analysis.apply plan = .ok (analysis.carriedOut plan) ∧
      analysis.carriedOut plan = "class A { int size; int f() { return size; } int g() { int x; return x; } }" := by
  have computed :
      ((Analysis.ofText "class A { int x; int f() { return x; } int g() { int x; return x; } }"
          ProjectIndex.empty).toOption.any fun analysis =>
        (analysis.planFor {} 1 "size").toOption.any fun plan =>
          analysis.carriedOut plan ==
            "class A { int size; int f() { return size; } int g() { int x; return x; } }") = true := by
    decide +kernel
  obtain ⟨analysis, analysed, further⟩ := exists_ok_of_any computed
  obtain ⟨plan, planned, text⟩ := exists_ok_of_any further
  have exact := (accepted_plan_exact _).1 _ analysis {} 1 "size" plan analysed planned
  exact ⟨analysis, plan, analysed, planned, exact.2.2.2.2.2.1, beq_iff_eq.mp text⟩

/-- The comma of a field goes on into the type parameters of the method that follows, and one of these is declared a
second time: renaming the field renames the type parameter, and leaves its use behind. -/
theorem type_parameter_replaced :
    ∃ analysis plan field parameter use,
      Analysis.ofText "class A { int x, public <T, U, V> void f(U u) { } }" ProjectIndex.empty = .ok analysis ∧
      analysis.bound.outline.declaration? 2 = some field ∧ field.kind = .field ∧
      analysis.bound.outline.declaration? 5 = some parameter ∧ parameter.kind = .type ∧
      use ∈ analysis.bound.references.toList ∧ use.resolution = .resolved 5 ∧
      analysis.planFor {} 2 "zz" = .ok plan ∧ analysis.layout.span parameter.position ∈ plan.spans ∧
      analysis.carriedOut plan = "class A { int x, public <T, zz, V> void f(U u) { } }" := by
  have computed :
      ((Analysis.ofText "class A { int x, public <T, U, V> void f(U u) { } }"
          ProjectIndex.empty).toOption.any fun analysis =>
        (analysis.planFor {} 2 "zz").toOption.any fun plan =>
          (analysis.bound.outline.declaration? 2).any fun field =>
          (analysis.bound.outline.declaration? 5).any fun parameter =>
          decide (field.kind = .field ∧ parameter.kind = .type ∧
            (∃ use ∈ analysis.bound.references.toList, use.resolution = .resolved 5) ∧
            analysis.layout.span parameter.position ∈ plan.spans ∧
            analysis.carriedOut plan = "class A { int x, public <T, zz, V> void f(U u) { } }")) = true := by
    decide +kernel
  obtain ⟨analysis, analysed, further⟩ := exists_ok_of_any computed
  obtain ⟨plan, planned, further⟩ := exists_ok_of_any further
  obtain ⟨field, foundField, further⟩ := (Option.any_eq_true _ _).mp further
  obtain ⟨parameter, foundParameter, read⟩ := (Option.any_eq_true _ _).mp further
  obtain ⟨fieldKind, parameterKind, ⟨use, used, resolved⟩, touched, text⟩ := of_decide_eq_true read
  exact ⟨analysis, plan, field, parameter, use, analysed, foundField, fieldKind, foundParameter, parameterKind, used,
    resolved, planned, touched, text⟩

end ScopedRename
