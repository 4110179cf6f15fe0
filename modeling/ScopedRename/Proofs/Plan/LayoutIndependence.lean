import ScopedRename.Proofs.Code.Pairing
import ScopedRename.Proofs.Plan.Respelling

/-!
Layout independence: blanks and comments between the words of a source decide only where in the text the words stand.
Scopes are recorded by token, names are visible from bytes on, and a plan lists spans of bytes in order; but all of them
are those of words, and in two texts with the same words these stand in the same order. Main statement: sources with the
same words are analysed alike, and every rename of one corresponds to that of the other, word by word.
-/

namespace ScopedRename

/-! ### Spans of words -/

namespace Layout

variable {layout : Layout} [ordered : layout.Ordered] {position other : Nat}

theorem span_inj : layout.span position = layout.span other ↔ position = other :=
  ⟨fun same => ordered.strictMono.injective (congrArg Span.start same), congrArg layout.span⟩

theorem le_span_iff : (layout.span position).le (layout.span other) = true ↔ position ≤ other := by
  unfold Span.le
  rw [Bool.or_eq_true, Bool.and_eq_true, decide_eq_true_eq, decide_eq_true_eq, beq_iff_eq, start_lt_start]
  refine (or_congr Iff.rfl ?_).trans Nat.le_iff_lt_or_eq.symm
  constructor
  · rintro ⟨same, _⟩
    exact ordered.strictMono.injective same
  · rintro rfl
    exact ⟨rfl, Nat.le_refl _⟩

end Layout

/-! ### Places are words -/

namespace BoundOutline

variable {bound : BoundOutline} {inside : Nat → Prop}
  (declared : ∀ id declaration, bound.outline.declaration? id = some declaration → inside declaration.position)
  (used : ∀ reference ∈ bound.references.toList, inside reference.position)

include declared

theorem positionOf_inside {id : DeclarationId} (found : (bound.outline.declaration? id).isSome = true) :
    inside (bound.positionOf id) := by
  obtain ⟨declaration, here⟩ := Option.isSome_iff_exists.mp found
  unfold positionOf
  rw [here]
  exact declared id declaration here

theorem meetsAt_inside [bound.outline.Registered] {target : DeclarationId} {renamed : Declaration} {newName : String}
    {site : Lookup}
    {position : Nat} (met : bound.meetsAt target renamed newName site = .error position) : inside position := by
  have known {scope : ScopeId} {space : NameSpace} {id : DeclarationId}
      (member : id ∈ bound.outline.declaredIn scope newName space) : inside (bound.positionOf id) := by
    obtain ⟨declaration, found, _⟩ := bound.outline.mem_declaredIn.mp member
    exact positionOf_inside declared (found ▸ rfl)
  cases site with
  | lexical scope =>
      simp only [meetsAt] at met
      split at met
      · cases met
      · rename_i looked
        split at met
        · split at met
          · rename_i clash
            cases met
            exact known (bound.outline.mem_of_lookup looked (List.mem_of_find?_eq_some clash))
          · cases met
        · cases met
  | member type =>
      simp only [meetsAt] at met
      split at met
      · rename_i clash
        cases met
        exact known (List.mem_of_find?_eq_some clash)
      · cases met
  | foreign => cases met
  | path => cases met

include used

theorem captured?_inside {renamed : Declaration} {newName : String} {reference : Reference}
    (member : reference ∈ bound.references.toList) {position : Nat}
    (captured : bound.captured? renamed newName reference = some position) : inside position := by
  have outside {id : DeclarationId} (found : bound.isOutside renamed id = true) : inside (bound.positionOf id) := by
    apply positionOf_inside declared
    unfold isOutside at found
    cases declaration : bound.outline.declaration? id with
    | none =>
        rw [declaration] at found
        cases found
    | some declaration => rfl
  have here := used reference member
  unfold captured? at captured
  split at captured
  · cases captured
  · split at captured
    · split at captured
      · cases captured
        exact here
      · cases captured
    · cases captured
    · cases captured
    · split at captured
      · cases captured
      · split at captured
        · cases captured
        · split at captured
          · split at captured
            · rename_i found
              cases captured
              exact outside found
            · cases captured
          · obtain ⟨id, found, same⟩ := Option.map_eq_some_iff.mp captured
            rw [← same]
            exact outside (List.find?_some found)
          · cases captured
            exact here
          · cases captured
            exact here

/-- A new name conflicts with a declared name or with a use. -/
theorem verdict_inside [bound.outline.Registered] {strict : Bool} {target : DeclarationId} {renamed : Declaration}
    {newName : String}
    {position : Nat} (judged : bound.verdict strict target renamed newName = .error position) : inside position := by
  unfold verdict at judged
  cases met : (bound.sites target renamed).mapM (bound.meetsAt target renamed newName) with
  | error found =>
      rw [met] at judged
      cases judged
      obtain ⟨site, _, here⟩ := step_of_mapM_eq_error met
      exact meetsAt_inside declared here
  | ok hidden =>
      rw [met] at judged
      dsimp only [bind, Except.bind] at judged
      split at judged
      · rename_i captured
        cases judged
        obtain ⟨reference, member, here⟩ := List.exists_of_findSome?_eq_some captured
        exact captured?_inside declared used member here
      · split at judged
        · cases judged
        · rename_i first rest hides
          split at judged
          · cases judged
            have listed : first ∈ bound.outline.declarationIds := by
              have member : first ∈ first :: rest := List.mem_cons_self
              rw [← hides] at member
              exact List.mem_of_mem_filter member
            exact positionOf_inside declared (bound.outline.mem_declarationIds.mp listed)
          · cases judged

/-- Whatever a refusal points at is a word. -/
theorem planFor_places [bound.outline.Registered] {strict : Bool} {target : DeclarationId} {newName : String}
    {refusal : Refusal Nat}
    (refused : bound.planFor strict target newName = .error refusal) :
    ∀ position ∈ refusal.places, inside position := by
  unfold planFor at refused
  split at refused
  · cases refused
    intro position impossible
    cases impossible
  · split at refused
    · cases refused
      intro position impossible
      cases impossible
    · split at refused
      · rename_i first rest ambiguous
        cases refused
        intro position member
        have listed : position ∈ (bound.ambiguousWith target).map (·.position) := by
          rw [ambiguous]
          exact member
        obtain ⟨reference, uncertain, here⟩ := List.mem_map.mp listed
        rw [← here]
        exact used reference (List.mem_of_mem_filter uncertain)
      · dsimp only at refused
        split at refused
        · cases refused
        · split at refused
          · cases refused
          · rename_i conflict judged
            cases refused
            intro position member
            rw [List.mem_singleton.mp member]
            exact verdict_inside declared used judged

theorem planFor_sites {strict : Bool} {target : DeclarationId} {newName : String} {accepted : Renaming}
    (planned : bound.planFor strict target newName = .ok accepted) : ∀ position ∈ accepted.sites, inside position := by
  obtain ⟨_, _, renamed, found, shape, _⟩ := planFor_eq_ok planned
  rw [shape]
  intro position site
  rcases mem_renameSites.mp site with here | ⟨reference, resolves, here⟩
  · rw [here]
    exact declared target renamed found
  · rw [← here]
    exact used reference (mem_referencesTo.mp resolves).1

end BoundOutline

/-! ### Corresponding answers -/

inductive Refusal.Rel {left right : Type} (related : left → right → Prop) : Refusal left → Refusal right → Prop where
  | invalidName (name : String) (fault : NameFault) : Rel related (.invalidName name fault) (.invalidName name fault)
  | notFound (locator : String) : Rel related (.notFound locator) (.notFound locator)
  | ambiguousReference {places : List left} {others : List right} (alike : List.Forall₂ related places others) :
      Rel related (.ambiguousReference places) (.ambiguousReference others)
  | ambiguousDeclaration (locator : String) {places : List left} {others : List right}
      (alike : List.Forall₂ related places others) :
      Rel related (.ambiguousDeclaration locator places) (.ambiguousDeclaration locator others)
  | nameConflict (name : String) {conflict : left} {other : right} (alike : related conflict other) :
      Rel related (.nameConflict name conflict) (.nameConflict name other)

structure RenamePlan.Rel (related : Span → Span → Prop) (plan other : RenamePlan) : Prop where
  target : plan.target = other.target
  kind : plan.kind = other.kind
  oldName : plan.oldName = other.oldName
  newName : plan.newName = other.newName
  verdict : plan.verdict = other.verdict
  spans : List.Forall₂ related plan.spans other.spans

inductive SameAnswer (related : Span → Span → Prop) :
    Except RenameError RenamePlan → Except RenameError RenamePlan → Prop where
  | planned {plan other : RenamePlan} (alike : plan.Rel related other) : SameAnswer related (.ok plan) (.ok other)
  | refused {refusal other : Refusal Span} (alike : refusal.Rel related other) :
      SameAnswer related (.error (.refused refusal)) (.error (.refused other))

theorem Refusal.rel_map {place left right : Type} {related : left → right → Prop} {toLeft : place → left}
    {toRight : place → right} (refusal : Refusal place)
    (alike : ∀ place ∈ refusal.places, related (toLeft place) (toRight place)) :
    (refusal.map toLeft).Rel related (refusal.map toRight) := by
  have lists {places : List place} (each : ∀ place ∈ places, related (toLeft place) (toRight place)) :
      List.Forall₂ related (places.map toLeft) (places.map toRight) := by
    rw [List.forall₂_map_left_iff, List.forall₂_map_right_iff, List.forall₂_same]
    exact each
  cases refusal with
  | invalidName name fault => exact .invalidName name fault
  | notFound locator => exact .notFound locator
  | ambiguousReference places => exact .ambiguousReference (lists alike)
  | ambiguousDeclaration locator places => exact .ambiguousDeclaration locator (lists alike)
  | nameConflict name conflict => exact .nameConflict name (alike conflict (List.mem_singleton.mpr rfl))

/-- The spans of one word in two layouts, which spells and classifies the same in both. -/
def Layout.SameWord (left right : Layout) (span other : Span) : Prop :=
  ∃ position leftToken rightToken, left.token? position = some leftToken ∧ right.token? position = some rightToken ∧
    leftToken.toLexeme = rightToken.toLexeme ∧ leftToken.span = span ∧ rightToken.span = other

theorem Layout.SameWord.agree {left right : Layout} [left.Ordered] [right.Ordered] {span other again more : Span}
    (first : left.SameWord right span again) (second : left.SameWord right other more) :
    (span = other ↔ again = more) ∧ (span.le other = true ↔ again.le more = true) := by
  obtain ⟨position, leftToken, rightToken, leftFound, rightFound, _, rfl, rfl⟩ := first
  obtain ⟨place, leftOther, rightOther, leftFoundOther, rightFoundOther, _, rfl, rfl⟩ := second
  rw [← span_of_token? leftFound, ← span_of_token? rightFound, ← span_of_token? leftFoundOther,
    ← span_of_token? rightFoundOther, span_inj, span_inj, le_span_iff, le_span_iff]
  exact ⟨Iff.rfl, Iff.rfl⟩

/-- The analyses differ in layout only. Word by word they have the same tokens, which belong to the same scopes and
play the same part; the scopes and their children, the declarations and their lists, and the uses are the same; from
the byte where a word starts the same declarations can be seen; and any rename asked of both is answered alike. -/
structure Analysis.LaidOutLike (left right : Analysis) : Prop where
  words : ∀ position,
    (left.layout.token? position).map (·.toLexeme) = (right.layout.token? position).map (·.toLexeme)
  scopes : left.bound.outline.scopes = right.bound.outline.scopes
  children : left.bound.outline.children = right.bound.outline.children
  declarations : left.bound.outline.declarations = right.bound.outline.declarations
  symbols : left.bound.outline.symbols = right.bound.outline.symbols
  references : left.bound.references = right.bound.references
  named : ∀ position, left.bound.outline.declarationAt? position = right.bound.outline.declarationAt? position
  typeWords : ∀ position, left.bound.outline.isTypeWord position = right.bound.outline.isTypeWord position
  pathWords : ∀ position, left.bound.outline.isPathWord position = right.bound.outline.isPathWord position
  declared : ∀ declaration ∈ left.bound.outline.declarations,
    left.layout.SameWord right.layout (left.layout.span declaration.position) (right.layout.span declaration.position)
  used : ∀ reference ∈ left.bound.references,
    left.layout.SameWord right.layout (left.layout.span reference.position) (right.layout.span reference.position)
  homes : ∀ position, (left.layout.token? position).isSome = true →
    left.bound.outline.scopesOfTokens[left.layout.tokenIndex position]? =
      right.bound.outline.scopesOfTokens[right.layout.tokenIndex position]?
  visible : ∀ position, (left.layout.token? position).isSome = true → ∀ scope name space,
    left.bound.outline.lookup scope name space (some (left.layout.span position).start) =
      right.bound.outline.lookup scope name space (some (right.layout.span position).start)
  answers : ∀ options target newName, SameAnswer (left.layout.SameWord right.layout)
    (left.planFor options target newName) (right.planFor options target newName)

namespace Analysis

variable {source other : String} {index : ProjectIndex} {left right : Analysis}
  (analysed : ofText source index = .ok left) (analysedOther : ofText other index = .ok right)

theorem identifier_isSome {position : Nat} (identifier : left.code.isIdentifier position = true) :
    (left.layout.token? position).isSome = true := by
  obtain ⟨token, found⟩ := Layout.exists_token? (left.code.isIdentifier_lt_size identifier)
  exact Option.isSome_iff_exists.mpr ⟨token, found⟩

include analysed

theorem outline_ordered : left.bound.outline.layout.Ordered := by
  have : left.code.layout.Ordered := layout_ordered analysed
  obtain ⟨_, _, _, _, bound, _⟩ := ofText_eq_ok analysed
  rw [bound]
  exact Outline.ofCode_ordered

include analysedOther

section Words

variable (words : Token.words left.tokens = Token.words right.tokens)

include words

theorem token?_alike (position : Nat) :
    (left.layout.token? position).map (·.toLexeme) = (right.layout.token? position).map (·.toLexeme) := by
  obtain ⟨_, _, _, leftLayout, _, _⟩ := ofText_eq_ok analysed
  obtain ⟨_, _, _, rightLayout, _, _⟩ := ofText_eq_ok analysedOther
  rw [leftLayout, rightLayout, Layout.token?_ofTokens, Layout.token?_ofTokens, ← List.getElem?_map, ← List.getElem?_map]
  exact congrArg (·[position]?) words

theorem sameWord {position : Nat} (word : (left.layout.token? position).isSome = true) :
    left.layout.SameWord right.layout (left.layout.span position) (right.layout.span position) := by
  have alike := token?_alike analysed analysedOther words position
  obtain ⟨leftToken, leftFound⟩ := Option.isSome_iff_exists.mp word
  rw [leftFound, Option.map_some] at alike
  obtain ⟨rightToken, rightFound, same⟩ := Option.map_eq_some_iff.mp alike.symm
  exact ⟨position, leftToken, rightToken, leftFound, rightFound, same.symm, (Layout.span_of_token? leftFound).symm,
    (Layout.span_of_token? rightFound).symm⟩

end Words

variable (same : left.code.respell id = right.code.respell id)

include same

theorem bound_alike : left.bound.respell id = right.bound.respell id := by
  obtain ⟨_, _, _, _, leftBound, _⟩ := ofText_eq_ok analysed
  obtain ⟨_, _, _, _, rightBound, _⟩ := ofText_eq_ok analysedOther
  have : left.code.layout.Ordered := layout_ordered analysed
  have : right.code.layout.Ordered := layout_ordered analysedOther
  have bound := congrArg (BoundOutline.ofCode · index) same
  rw [BoundOutline.ofCode_respell_id, BoundOutline.ofCode_respell_id] at bound
  rw [leftBound, rightBound]
  exact bound

theorem recordsLike : left.bound.outline.RecordsLike right.bound.outline id := by
  have := registered analysed
  have := registered analysedOther
  exact Outline.recordsLike_of_respell (congrArg BoundOutline.outline (bound_alike analysed analysedOther same))
    fun _ _ _ _ names => names

theorem references_alike : left.bound.references = right.bound.references := by
  have references :
      left.bound.references.map (Reference.respell id) = right.bound.references.map (Reference.respell id) :=
    congrArg BoundOutline.references (bound_alike analysed analysedOther same)
  have unchanged : Reference.respell id = id := rfl
  rwa [unchanged, Array.map_id, Array.map_id] at references

/-- What can be seen from the start of a word is the same in both texts. -/
theorem lookup_alike (position : Nat) (scope : ScopeId) (name : String) (space : NameSpace) :
    left.bound.outline.lookup scope name space (some (left.layout.span position).start) =
      right.bound.outline.lookup scope name space (some (right.layout.span position).start) := by
  have := registered analysed
  have := registered analysedOther
  have := outline_ordered analysed
  have := outline_ordered analysedOther
  have outlines : left.bound.outline.respell id = right.bound.outline.respell id :=
    congrArg BoundOutline.outline (bound_alike analysed analysedOther same)
  rw [← startOf_eq analysed, ← startOf_eq analysedOther,
    ← left.bound.outline.keptApart_id.lookup_startOf (Set.mem_univ name), outlines,
    right.bound.outline.keptApart_id.lookup_startOf (Set.mem_univ name)]

theorem home_alike {position : Nat} (inside : position < left.code.size) :
    left.bound.outline.scopesOfTokens[left.layout.tokenIndex position]? =
      right.bound.outline.scopesOfTokens[right.layout.tokenIndex position]? := by
  obtain ⟨_, _, _, _, leftBound, _⟩ := ofText_eq_ok analysed
  obtain ⟨_, _, _, _, rightBound, _⟩ := ofText_eq_ok analysedOther
  have homes := (recordsLike analysed analysedOther same).homes position
  have sizes : left.code.size = right.code.size :=
    Code.eq_of_respell Code.size (fun code spell => code.respell_size spell) same
  rw [leftBound, rightBound] at homes ⊢
  have found := Outline.getElem?_scopesOfTokens_ofCode inside
  have foundOther := Outline.getElem?_scopesOfTokens_ofCode (sizes ▸ inside)
  exact found.trans ((congrArg (fun home => some (home.getD 0)) homes).trans foundOther.symm)

variable (words : Token.words left.tokens = Token.words right.tokens)

include words

/-- The planner speaks of words, and a word has its place in each layout. -/
theorem planFor_alike (options : RenameOptions) (target : DeclarationId) (newName : String) :
    SameAnswer (left.layout.SameWord right.layout) (left.planFor options target newName)
      (right.planFor options target newName) := by
  have := registered analysed
  have := registered analysedOther
  have := outline_ordered analysed
  have := outline_ordered analysedOther
  have := layout_ordered analysed
  have := layout_ordered analysedOther
  have declared : ∀ id declaration, left.bound.outline.declaration? id = some declaration →
      (left.layout.token? declaration.position).isSome = true := by
    intro id declaration found
    exact identifier_isSome (declaration_spelled analysed found).1
  have used : ∀ reference ∈ left.bound.references.toList, (left.layout.token? reference.position).isSome = true := by
    intro reference member
    exact identifier_isSome (reference_spelled analysed member).1
  have plans : right.bound.planFor = left.bound.planFor := by
    rw [← BoundOutline.planFor_respell_id, ← bound_alike analysed analysedOther same, BoundOutline.planFor_respell_id]
  unfold planFor
  rw [plans]
  cases planned : left.bound.planFor options.strictShadowing target newName with
  | error refusal =>
      have places : ∀ position ∈ refusal.places, (left.layout.token? position).isSome = true :=
        BoundOutline.planFor_places declared used planned
      refine .refused (Refusal.rel_map refusal ?_)
      intro position listed
      exact sameWord analysed analysedOther words (places position listed)
  | ok accepted =>
      have sites : ∀ position ∈ accepted.sites, (left.layout.token? position).isSome = true :=
        BoundOutline.planFor_sites declared used planned
      refine .planned ⟨rfl, rfl, rfl, rfl, rfl, Span.sort_forall₂ Layout.SameWord.agree ?_⟩
      rw [List.forall₂_map_left_iff, List.forall₂_map_right_iff, List.forall₂_same]
      intro position site
      exact sameWord analysed analysedOther words (sites position site)

theorem laidOutLike : left.LaidOutLike right := by
  have records := recordsLike analysed analysedOther same
  have scopes := records.scopes
  have declarations := records.declarations
  have symbols := records.symbols
  rw [map_scope_respell_id] at scopes
  rw [map_declaration_respell_id] at declarations
  have references := references_alike analysed analysedOther same
  refine ⟨token?_alike analysed analysedOther words, scopes, records.children, declarations, ?_, references,
    records.named, records.typeWords, records.pathWords, ?_, ?_, ?_, ?_,
    planFor_alike analysed analysedOther same words⟩
  · exact symbols.trans (List.map_id _)
  · intro declaration member
    obtain ⟨id, found⟩ := Array.mem_iff_getElem?.mp member
    exact sameWord analysed analysedOther words (identifier_isSome (declaration_spelled analysed found).1)
  · intro reference member
    have listed := Array.mem_toList_iff.mpr member
    exact sameWord analysed analysedOther words (identifier_isSome (reference_spelled analysed listed).1)
  · intro position word
    refine home_alike analysed analysedOther same (Layout.isSome_word?.mp ?_)
    rw [Layout.word?, Option.isSome_map]
    exact word
  · intro position _
    exact lookup_alike analysed analysedOther same position

end Analysis

/-- Blanks and comments do not matter. Take two texts whose tokens are the same words, whatever stands between them.
Either the delimiters of both fail to pair in the same way at the same word, or both can be analysed and the analyses
differ in layout only. -/
theorem layout_independent {source other : String} {tokens otherTokens : List Token}
    (read : Token.ofText source = .ok tokens) (readOther : Token.ofText other = .ok otherTokens)
    (words : Token.words tokens = Token.words otherTokens) (index : ProjectIndex) :
    (∃ fault : BracketFault, fault.place < (Token.words tokens).length ∧
      Analysis.ofText source index =
        .error (.structural (fault.relocate fun position => ((Layout.ofTokens tokens).span position).start)) ∧
      Analysis.ofText other index =
        .error (.structural (fault.relocate fun position => ((Layout.ofTokens otherTokens).span position).start))) ∨
    ∃ left right, Analysis.ofText source index = .ok left ∧ Analysis.ofText other index = .ok right ∧
      left.LaidOutLike right := by
  have failed {text : String} {tokens : List Token} {fault : BracketFault} (read : Token.ofText text = .ok tokens)
      (unpaired : Code.ofTokens tokens = .error fault) : Analysis.ofText text index = .error (.structural fault) := by
    unfold Analysis.ofText
    rw [read]
    dsimp only [Except.mapError, bind, Except.bind]
    rw [unpaired]
  have respelled : (Token.words tokens).map (Lexeme.respell id) = (Token.words otherTokens).map (Lexeme.respell id) :=
    congrArg _ words
  rcases Code.ofTokens_of_respell respelled with
    ⟨fault, unpaired, fails, failsOther⟩ | ⟨code, otherCode, built, builtOther, same⟩
  · refine Or.inl ⟨fault, ?_, failed read fails, failed readOther failsOther⟩
    obtain ⟨word, found⟩ := (Code.ofLayout_eq_error_iff.mp unpaired).place
    rw [Layout.words_ofTokens] at found
    exact (List.getElem?_eq_some_iff.mp found).1
  · obtain ⟨left, analysed, leftTokens, leftCode⟩ := Analysis.ofText_of_stages read built index
    obtain ⟨right, analysedOther, rightTokens, rightCode⟩ := Analysis.ofText_of_stages readOther builtOther index
    refine Or.inr ⟨left, right, analysed, analysedOther, Analysis.laidOutLike analysed analysedOther ?_ ?_⟩
    · rw [leftCode, rightCode, same]
    · rw [leftTokens, rightTokens, words]

/-- A class written on one line, and with blanks and comments between its words. -/
theorem layout_independent_class :
    ∃ left right plan other,
      Analysis.ofText "class A{int x;int f(){return x;}}" ProjectIndex.empty = .ok left ∧
      Analysis.ofText "class A { int x; /* x */ int f() { return /* x */ x; } }" ProjectIndex.empty = .ok right ∧
      left.LaidOutLike right ∧
      left.planFor {} 1 "size" = .ok plan ∧ plan.spans = [⟨12, 13⟩, ⟨29, 30⟩] ∧
      right.planFor {} 1 "size" = .ok other ∧ other.spans = [⟨14, 15⟩, ⟨50, 51⟩] := by
  have computed :
      ((Token.ofText "class A{int x;int f(){return x;}}").toOption.any fun tokens =>
        (Token.ofText "class A { int x; /* x */ int f() { return /* x */ x; } }").toOption.any fun otherTokens =>
          Token.words tokens == Token.words otherTokens) = true := by
    decide +kernel
  have planned :
      ((Analysis.ofText "class A{int x;int f(){return x;}}" ProjectIndex.empty).toOption.any fun left =>
        (left.planFor {} 1 "size").toOption.any fun plan => plan.spans == [⟨12, 13⟩, ⟨29, 30⟩]) = true := by
    decide +kernel
  have plannedOther :
      ((Analysis.ofText "class A { int x; /* x */ int f() { return /* x */ x; } }"
          ProjectIndex.empty).toOption.any fun right =>
        (right.planFor {} 1 "size").toOption.any fun other => other.spans == [⟨14, 15⟩, ⟨50, 51⟩]) = true := by
    decide +kernel
  obtain ⟨tokens, read, further⟩ := exists_ok_of_any computed
  obtain ⟨otherTokens, readOther, words⟩ := exists_ok_of_any further
  obtain ⟨left, analysed, leftPlanned⟩ := exists_ok_of_any planned
  obtain ⟨right, analysedOther, rightPlanned⟩ := exists_ok_of_any plannedOther
  obtain ⟨plan, accepted, spans⟩ := exists_ok_of_any leftPlanned
  obtain ⟨other, acceptedOther, otherSpans⟩ := exists_ok_of_any rightPlanned
  rcases layout_independent read readOther (beq_iff_eq.mp words) ProjectIndex.empty with
    ⟨fault, _, failed, _⟩ | ⟨same, sameOther, again, againOther, like⟩
  · rw [analysed] at failed
    cases failed
  · rw [analysed] at again
    rw [analysedOther] at againOther
    cases again
    cases againOther
    exact ⟨left, right, plan, other, analysed, analysedOther, like, accepted, beq_iff_eq.mp spans, acceptedOther,
      beq_iff_eq.mp otherSpans⟩

end ScopedRename
