import ScopedRename.Proofs.Code.Pairing
import ScopedRename.Proofs.Fallible
import ScopedRename.Proofs.Plan.Cursor
import ScopedRename.Proofs.Plan.Hygiene
import ScopedRename.Proofs.Token.Unterminated

/-!
What an error points at. A text that cannot be read fails at a byte it has; a refusal names words of the text, and they
are the ones that caused it: the doubtful uses, the declarations a path leaves open, the word that already has the new
name. Main statement: whatever a run fails with, the places it reports are of that kind.
-/

namespace ScopedRename

/-! ### Texts that cannot be read -/

theorem BracketFault.place_relocate (renumber : Nat → Nat) (fault : BracketFault) :
    (fault.relocate renumber).place = renumber fault.place := by
  cases fault with
  | unexpectedCloser place found => rfl
  | mismatched place expected found => rfl
  | unclosed place opened => rfl

theorem Layout.start_lt_utf8ByteSize {source : String} {tokens : List Token} (split : Token.ofText source = .ok tokens)
    {position : Nat} (inside : position < (Token.significant tokens).length) :
    ((ofTokens tokens).span position).start < source.utf8ByteSize := by
  have whole : (ofTokens tokens).stop = source.utf8ByteSize := by
    rw [← (Token.ofText_covers split).ends]
    unfold stop ofTokens
    rw [List.back?_toArray]
  have proper := start_lt_stop (Token.ofText_tiled split) inside
  have within := stop_le_stop (Token.ofText_tiled split) inside
  omega

theorem Code.place_lt_of_ofTokens {source : String} {tokens : List Token} {fault : BracketFault}
    (split : Token.ofText source = .ok tokens) (failed : ofTokens tokens = .error fault) :
    fault.place < source.utf8ByteSize := by
  obtain ⟨cause, token, _, found, rfl⟩ := ofTokens_eq_error_iff.mp failed
  have span := Layout.span_of_token? ((Layout.token?_ofTokens tokens cause.place).trans found)
  obtain ⟨inside, _⟩ := List.getElem?_eq_some_iff.mp found
  rw [BracketFault.place_relocate, ← span]
  exact Layout.start_lt_utf8ByteSize split inside

/-! ### Words that carry the new name -/

namespace BoundOutline

variable {bound : BoundOutline} {target : DeclarationId} {renamed : Declaration} {newName : String}

def Mentions (bound : BoundOutline) (name : String) (position : Nat) : Prop :=
  (∃ id declaration, bound.outline.declaration? id = some declaration ∧ declaration.name = name ∧
      declaration.position = position) ∨
    ∃ reference ∈ bound.references.toList, reference.name = name ∧ reference.position = position

theorem mentions_positionOf {name : String} {id : DeclarationId} {declaration : Declaration}
    (declared : bound.outline.declaration? id = some declaration) (named : declaration.name = name) :
    bound.Mentions name (bound.positionOf id) :=
  Or.inl ⟨id, declaration, declared, named, (positionOf_eq declared).symm⟩

theorem mentions_of_mem_declaredIn [bound.outline.Registered] {scope : ScopeId} {name : String} {space : NameSpace}
    {id : DeclarationId}
    (member : id ∈ bound.outline.declaredIn scope name space) : bound.Mentions name (bound.positionOf id) := by
  obtain ⟨declaration, declared, _, named, _⟩ := bound.outline.mem_declaredIn.mp member
  exact mentions_positionOf declared named

theorem mentions_of_meetsAt_error [bound.outline.Registered] {site : Lookup} {position : Nat}
    (blocked : bound.meetsAt target renamed newName site = .error position) : bound.Mentions newName position := by
  cases site with
  | lexical scope =>
      simp only [meetsAt] at blocked
      split at blocked
      · cases blocked
      · rename_i hit declarations looked
        split at blocked
        · split at blocked
          · rename_i id clash
            cases blocked
            exact mentions_of_mem_declaredIn (bound.outline.mem_of_lookup looked (List.mem_of_find?_eq_some clash))
          · cases blocked
        · cases blocked
  | member type =>
      simp only [meetsAt] at blocked
      split at blocked
      · rename_i id clash
        cases blocked
        exact mentions_of_mem_declaredIn (List.mem_of_find?_eq_some clash)
      · cases blocked
  | foreign => cases blocked
  | path => cases blocked

/-- What the new name would hide carries that name. -/
theorem mentions_of_meetsAt [bound.outline.Registered] {site : Lookup} {hidden : List DeclarationId}
    {id : DeclarationId}
    (met : bound.meetsAt target renamed newName site = .ok hidden) (member : id ∈ hidden) :
    bound.Mentions newName (bound.positionOf id) := by
  cases site with
  | lexical scope =>
      simp only [meetsAt] at met
      split at met
      · cases met
        cases member
      · rename_i hit declarations looked
        split at met
        · split at met
          · cases met
          · cases met
            cases member
        · cases met
          exact mentions_of_mem_declaredIn (bound.outline.mem_of_lookup looked member)
  | member type =>
      simp only [meetsAt] at met
      split at met
      · cases met
      · cases met
        cases member
  | foreign =>
      cases met
      cases member
  | path =>
      cases met
      cases member

variable
  (spelled : ∀ reference ∈ bound.references.toList, ∀ id ∈ reference.resolution.candidates,
    ∃ declaration, bound.outline.declaration? id = some declaration ∧ declaration.name = reference.name)

include spelled

/-- A captured use carries the new name, and so does whatever it denotes. -/
theorem mentions_of_captured? {reference : Reference} (used : reference ∈ bound.references.toList) {position : Nat}
    (captured : bound.captured? renamed newName reference = some position) : bound.Mentions newName position := by
  unfold captured? at captured
  split at captured
  · cases captured
  · rename_i concerned
    rw [Bool.not_eq_true, Bool.or_eq_false_iff] at concerned
    have named : reference.name = newName := bne_eq_false_iff_eq.mp concerned.1
    have here : bound.Mentions newName reference.position := Or.inr ⟨reference, used, named, rfl⟩
    have denoted {id : DeclarationId} (candidate : id ∈ reference.resolution.candidates) :
        bound.Mentions newName (bound.positionOf id) := by
      obtain ⟨declaration, declared, same⟩ := spelled reference used id candidate
      exact mentions_positionOf declared (same.trans named)
    split at captured
    · split at captured
      · cases captured
        exact here
      · cases captured
    · cases captured
    · cases captured
    · split at captured
      · cases captured
      · split at captured
        · cases captured
        · split at captured
          · rename_i id resolved
            split at captured
            · cases captured
              exact denoted (by rw [resolved]; exact List.mem_cons_self)
            · cases captured
          · rename_i candidates several
            obtain ⟨id, chosen, same⟩ := Option.map_eq_some_iff.mp captured
            rw [← same]
            exact denoted (by rw [several]; exact List.mem_of_find?_eq_some chosen)
          · cases captured
            exact here
          · cases captured
            exact here

/-- Whatever stands in the way of a new name carries it. -/
theorem mentions_of_verdict [bound.outline.Registered] {strict : Bool} {position : Nat}
    (refused : bound.verdict strict target renamed newName = .error position) : bound.Mentions newName position := by
  unfold verdict at refused
  rcases bind_eq_error.mp refused with blocked | ⟨hidden, met, judged⟩
  · obtain ⟨site, _, here⟩ := step_of_mapM_eq_error blocked
    exact mentions_of_meetsAt_error here
  · split at judged
    · rename_i place captures
      cases judged
      obtain ⟨reference, used, captured⟩ := List.exists_of_findSome?_eq_some captures
      exact mentions_of_captured? spelled used captured
    · split at judged
      · cases judged
      · rename_i first rest shadowed
        split at judged
        · cases judged
          have chosen : first ∈ bound.outline.declarationIds.filter (hidden.flatten.contains ·) :=
            shadowed ▸ List.mem_cons_self
          obtain ⟨part, listed, member⟩ :=
            List.mem_flatten.mp (List.contains_iff_mem.mp (List.mem_filter.mp chosen).2)
          obtain ⟨site, _, answered⟩ := step_of_mapM_eq_ok met part listed
          exact mentions_of_meetsAt answered member
        · cases judged

end BoundOutline

/-! ### Refusals -/

namespace Analysis

def Spells (analysis : Analysis) (name : String) (span : Span) : Prop :=
  ∃ token ∈ analysis.tokens, token.span = span ∧ token.isIdentifier = true ∧ token.text = name

def Doubts (target : DeclarationId) (reference : Reference) : Prop :=
  ∃ candidates, reference.resolution = .ambiguous candidates ∧ target ∈ candidates

/-- What the places of a refusal have to be, where the new name is a valid one. -/
def Backs (analysis : Analysis) (locator : Locator) (newName : String) : Refusal Span → Prop
  | .ambiguousReference spans =>
    spans ≠ [] ∧ (spans.Pairwise fun left right => left.start < right.start) ∧
      (∃ name, ∀ span ∈ spans, analysis.Spells name span ∧
        ∃ reference ∈ analysis.bound.references.toList, span = analysis.layout.span reference.position) ∧
      ∀ target, analysis.locate locator = .ok target → ∀ span, span ∈ spans ↔
        ∃ reference ∈ analysis.bound.references.toList, Doubts target reference ∧
          span = analysis.layout.span reference.position
  | .ambiguousDeclaration _ spans =>
    ∃ scopes kind name type ids, locator = .path scopes kind name type ∧ 2 ≤ ids.length ∧ ids.Pairwise (· < ·) ∧
      List.Forall₂ (fun id span => ∃ declaration, analysis.bound.outline.declaration? id = some declaration ∧
        declaration.kind = kind ∧ declaration.name = name ∧ span = analysis.layout.span declaration.position) ids spans
  | .nameConflict name span => name = newName ∧ analysis.Spells newName span
  | .notFound _ => True
  | .invalidName .. => False

theorem mem_ambiguousWith {bound : BoundOutline} {target : DeclarationId} {reference : Reference} :
    reference ∈ bound.ambiguousWith target ↔ reference ∈ bound.references.toList ∧ Doubts target reference := by
  unfold BoundOutline.ambiguousWith Doubts
  rw [List.mem_filter]
  cases reference.resolution with
  | ambiguous candidates => simp
  | resolved id => simp
  | external declaration => simp
  | unresolved => simp

variable {source newName : String} {index : ProjectIndex} {analysis : Analysis} {locator : Locator}
  {refusal : Refusal Nat} (analysed : ofText source index = .ok analysis)

include analysed

theorem spells_of_isIdentifier {name : String} {position : Nat}
    (identifier : analysis.code.isIdentifier position = true) (named : name = analysis.code.text position) :
    analysis.Spells name (analysis.layout.span position) := by
  obtain ⟨_, built, _, layout, _, _⟩ := ofText_eq_ok analysed
  obtain ⟨token, inside, place, isIdentifier, text⟩ := Code.identifier_token built identifier
  refine ⟨token, inside, ?_, isIdentifier, text.trans named.symm⟩
  rw [place, layout]

theorem spells_of_reference {reference : Reference} (used : reference ∈ analysis.bound.references.toList) :
    analysis.Spells reference.name (analysis.layout.span reference.position) := by
  obtain ⟨identifier, spelled, _⟩ := reference_spelled analysed used
  exact spells_of_isIdentifier analysed identifier spelled

theorem spells_of_mentions {name : String} {position : Nat} (mentions : analysis.bound.Mentions name position) :
    analysis.Spells name (analysis.layout.span position) := by
  rcases mentions with ⟨id, declaration, declared, named, here⟩ | ⟨reference, used, named, here⟩
  · obtain ⟨identifier, spelled⟩ := declaration_spelled analysed declared
    rw [← here, ← named]
    exact spells_of_isIdentifier analysed identifier spelled
  · rw [← here, ← named]
    exact spells_of_reference analysed used

theorem candidate_spelled {reference : Reference} (used : reference ∈ analysis.bound.references.toList)
    {id : DeclarationId} (candidate : id ∈ reference.resolution.candidates) :
    ∃ declaration, analysis.bound.outline.declaration? id = some declaration ∧ declaration.name = reference.name := by
  obtain ⟨_, _, _, _, bound, _⟩ := ofText_eq_ok analysed
  rw [bound] at used ⊢
  exact analysis.code.name_of_mem_candidates _ index used candidate

theorem starts_ordered {uses : List Reference} (among : uses.Sublist analysis.bound.references.toList) :
    (uses.map fun reference => analysis.layout.span reference.position).Pairwise
      fun left right => left.start < right.start := by
  have := layout_ordered analysed
  exact List.pairwise_map.mpr (((references_ordered analysed).sublist among).imp Layout.start_lt_start.mpr)

/-- The uses that may denote a located target are spelled like it and stand in the order of the text. -/
theorem backs_of_ambiguousWith {target : DeclarationId} {renamed : Declaration}
    (located : analysis.locate locator = .ok target)
    (found : analysis.bound.outline.declaration? target = some renamed)
    (some : analysis.bound.ambiguousWith target ≠ []) :
    analysis.Backs locator newName (.ambiguousReference
      ((analysis.bound.ambiguousWith target).map fun reference => analysis.layout.span reference.position)) := by
  refine ⟨List.map_eq_nil_iff.not.mpr some, starts_ordered analysed List.filter_sublist, ⟨renamed.name, ?_⟩, ?_⟩
  · intro span member
    obtain ⟨reference, doubtful, same⟩ := List.mem_map.mp member
    obtain ⟨used, candidates, ambiguous, candidate⟩ := mem_ambiguousWith.mp doubtful
    have doubted : target ∈ reference.resolution.candidates := by
      rw [ambiguous]
      exact candidate
    obtain ⟨declaration, declared, named⟩ := candidate_spelled analysed used doubted
    rw [found] at declared
    cases declared
    rw [← same, named]
    exact ⟨spells_of_reference analysed used, reference, used, rfl⟩
  · intro other again span
    rw [located] at again
    cases again
    simp only [List.mem_map, mem_ambiguousWith]
    constructor
    · rintro ⟨reference, ⟨used, doubtful⟩, same⟩
      exact ⟨reference, used, doubtful, same.symm⟩
    · rintro ⟨reference, used, doubtful, same⟩
      exact ⟨reference, ⟨used, doubtful⟩, same.symm⟩

/-- A refusal of a located target points at every use that may denote it, or at a word with the new name. -/
theorem backs_of_planFor {strict : Bool} {target : DeclarationId} (valid : Name.fault? newName = none)
    (located : analysis.locate locator = .ok target)
    (refused : analysis.bound.planFor strict target newName = .error refusal) :
    analysis.Backs locator newName (refusal.map analysis.layout.span) := by
  have := Analysis.registered analysed
  unfold BoundOutline.planFor at refused
  rw [valid] at refused
  dsimp only at refused
  split at refused
  · cases refused
    trivial
  · rename_i renamed found
    split at refused
    · rename_i first rest several
      cases refused
      have listed : (first :: rest).map analysis.layout.span =
          (analysis.bound.ambiguousWith target).map fun reference => analysis.layout.span reference.position := by
        rw [← several, List.map_map]
        rfl
      simp only [Refusal.map]
      rw [listed]
      refine backs_of_ambiguousWith analysed located found fun none => ?_
      rw [none] at several
      cases several
    · split at refused
      · cases refused
      · split at refused
        · cases refused
        · rename_i position judged
          cases refused
          exact ⟨rfl, spells_of_mentions analysed
            (BoundOutline.mentions_of_verdict (fun _ used _ => candidate_spelled analysed used) judged)⟩

omit analysed in
theorem matching_declared {scopes : List String} {kind : DeclarationKind} {name : String} {type : Option String}
    {id : DeclarationId} (member : id ∈ analysis.bound.matching scopes kind name type) :
    ∃ declaration, analysis.bound.outline.declaration? id = some declaration ∧ declaration.kind = kind ∧
      declaration.name = name ∧
      analysis.layout.span (analysis.bound.positionOf id) = analysis.layout.span declaration.position := by
  obtain ⟨declaration, found, fits⟩ := (Option.any_eq_true _ _).mp (List.mem_filter.mp member).2
  simp only [Bool.and_eq_true, beq_iff_eq] at fits
  exact ⟨declaration, found, fits.1.1.1, fits.1.1.2, by rw [BoundOutline.positionOf_eq found]⟩

/-- A locator that fails points at the one doubtful use it is on, or at the declarations it leaves open. -/
theorem backs_of_locate (lost : analysis.bound.locate analysis.layout locator = .error refusal) :
    analysis.Backs locator newName (refusal.map analysis.layout.span) := by
  have nowhere (target : DeclarationId) : analysis.locate locator ≠ .ok target := by
    intro located
    rw [mapError_eq_ok.mp located] at lost
    cases lost
  cases locator with
  | offset offset =>
      simp only [BoundOutline.locate] at lost
      split at lost
      · cases lost
      · split at lost
        · cases lost
          trivial
        · rename_i reference found
          rw [referenceAt?_eq_find? analysed] at found
          have used := List.mem_of_find?_eq_some found
          split at lost
          · cases lost
          · cases lost
            refine ⟨List.cons_ne_nil _ _, List.pairwise_singleton _ _, ⟨reference.name, ?_⟩, ?_⟩
            · intro span member
              rw [List.mem_singleton.mp member]
              exact ⟨spells_of_reference analysed used, reference, used, rfl⟩
            · intro target located
              exact absurd located (nowhere target)
          · cases lost
            trivial
          · cases lost
            trivial
  | path scopes kind name type =>
      simp only [BoundOutline.locate] at lost
      have ordered : (analysis.bound.matching scopes kind name type).Pairwise (· < ·) :=
        List.pairwise_lt_range.filter _
      cases matched : analysis.bound.matching scopes kind name type with
      | nil =>
          rw [matched] at lost
          cases lost
          trivial
      | cons first rest =>
          cases rest with
          | nil =>
              rw [matched] at lost
              cases lost
          | cons second others =>
              rw [matched] at lost ordered
              cases lost
              refine ⟨scopes, kind, name, type, first :: second :: others, rfl, Nat.le_add_left 2 _, ordered, ?_⟩
              rw [List.map_map, List.forall₂_map_right_iff, List.forall₂_same]
              exact fun id member => matching_declared (matched ▸ member)

end Analysis

/-- What the places of an error have to be, where a run on a text with a valid new name was not called off. -/
def RenameContext.Accounts (context : RenameContext) (source : String) (locator : Locator) (newName : String) :
    RenameError → Prop
  | .lex error => error.offset < source.utf8ByteSize
  | .structural fault => fault.place < source.utf8ByteSize
  | .refused refusal => ∃ analysis, context.analyze source = .ok analysis ∧ analysis.Backs locator newName refusal
  | .stalePlan _ | .cancelled _ | .crash => False

theorem Analysis.accounts_of_ofText {context : RenameContext} {source newName : String} {index : ProjectIndex}
    {locator : Locator} {error : RenameError} (failed : ofText source index = .error error) :
    context.Accounts source locator newName error := by
  unfold ofText at failed
  rcases bind_eq_error.mp failed with unsplit | ⟨tokens, split, later⟩
  · obtain ⟨cause, stopped, rfl⟩ := mapError_eq_error.mp unsplit
    obtain ⟨_, _, _, _, inside, _⟩ := Token.split_of_ofText_error stopped
    exact inside
  · rcases bind_eq_error.mp later with unpaired | ⟨code, _, impossible⟩
    · obtain ⟨cause, stopped, rfl⟩ := mapError_eq_error.mp unpaired
      exact Code.place_lt_of_ofTokens (mapError_eq_ok.mp split) stopped
    · cases impossible

/-- A plan that is refused has its places in the text. -/
theorem Analysis.backs_of_plan {source newName : String} {index : ProjectIndex} {analysis : Analysis}
    {options : RenameOptions} {locator : Locator} {error : RenameError}
    (analysed : ofText source index = .ok analysis) (valid : Name.fault? newName = none)
    (refused : analysis.plan options locator newName = .error error) :
    ∃ refusal, error = .refused refusal ∧ analysis.Backs locator newName refusal := by
  unfold Analysis.plan placed at refused
  split at refused
  · cases refused
  · rename_i refusal cause
    cases refused
    refine ⟨_, rfl, ?_⟩
    unfold BoundOutline.plan at cause
    rw [valid] at cause
    rcases bind_eq_error.mp cause with lost | ⟨target, located, blocked⟩
    · exact backs_of_locate analysed lost
    · exact backs_of_planFor analysed valid (mapError_eq_ok.mpr located) blocked

/-- Whatever a run fails with that was not called off and has a valid new name: a text that cannot be read fails below
its length; doubtful uses are listed in order, alike in spelling, and are all those that may denote a located target;
declarations left open are two or more of the kind and name asked for; and a conflict is at an identifier spelled like
the new name. -/
theorem error_points_at_cause {context : RenameContext} {source newName : String} {locator : Locator}
    {error : RenameError} (going : context.cancelled = false) (valid : Name.fault? newName = none)
    (failed : context.run source locator newName = .error error) : context.Accounts source locator newName error := by
  have passes (stage : Stage) : context.checkpoint stage = .ok () := by
    unfold RenameContext.checkpoint
    rw [going]
    rfl
  unfold RenameContext.run at failed
  rcases bind_eq_error.mp failed with unread | ⟨analysis, analysed, later⟩
  · unfold RenameContext.analyze at unread
    rw [passes] at unread
    exact Analysis.accounts_of_ofText unread
  · have read := analysed
    unfold RenameContext.analyze at read
    rw [passes] at read
    rcases bind_eq_error.mp later with unplanned | ⟨plan, planned, applied⟩
    · unfold RenameContext.plan at unplanned
      rw [passes] at unplanned
      obtain ⟨refusal, rfl, backed⟩ := Analysis.backs_of_plan read valid unplanned
      exact ⟨analysis, analysed, backed⟩
    · -- an accepted plan is carried out
      unfold RenameContext.plan at planned
      rw [passes] at planned
      obtain ⟨target, accepted⟩ := Analysis.plan_eq_ok planned
      rw [Analysis.apply_eq_ok read accepted] at applied
      cases applied

/-- A parameter cannot take the name of a field used beside it, and a method cannot be renamed while two calls also fit
another one. -/
theorem error_points_at_cause_overloads :
    (∃ analysis, ({} : RenameContext).run "class A { int x; int f(int y) { return x + y; } }" (.offset 27) "x" =
        .error (.refused (.nameConflict "x" ⟨14, 15⟩)) ∧
      ({} : RenameContext).analyze "class A { int x; int f(int y) { return x + y; } }" = .ok analysis ∧
      analysis.Spells "x" ⟨14, 15⟩) ∧
    ∃ analysis name, ({} : RenameContext).run
        "class A { void f(int... a) { } void f(int a) { } void g() { f(1); f(2); } }" (.offset 15) "h" =
        .error (.refused (.ambiguousReference [⟨60, 61⟩, ⟨66, 67⟩])) ∧
      ({} : RenameContext).analyze "class A { void f(int... a) { } void f(int a) { } void g() { f(1); f(2); } }" =
        .ok analysis ∧
      analysis.Spells name ⟨60, 61⟩ ∧ analysis.Spells name ⟨66, 67⟩ := by
  have conflicts : ({} : RenameContext).run "class A { int x; int f(int y) { return x + y; } }" (.offset 27) "x" =
      .error (.refused (.nameConflict "x" ⟨14, 15⟩)) := by
    decide +kernel
  have doubted : ({} : RenameContext).run
      "class A { void f(int... a) { } void f(int a) { } void g() { f(1); f(2); } }" (.offset 15) "h" =
      .error (.refused (.ambiguousReference [⟨60, 61⟩, ⟨66, 67⟩])) := by
    decide +kernel
  obtain ⟨first, firstRead, _, word⟩ := error_points_at_cause rfl (by decide +kernel) conflicts
  obtain ⟨second, secondRead, _, _, ⟨name, words⟩, _⟩ := error_points_at_cause rfl (by decide +kernel) doubted
  exact ⟨⟨first, conflicts, firstRead, word⟩, second, name, doubted, secondRead,
    (words _ List.mem_cons_self).1, (words _ (List.mem_cons_of_mem _ List.mem_cons_self)).1⟩

end ScopedRename
