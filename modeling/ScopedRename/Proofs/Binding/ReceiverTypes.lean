import ScopedRename.Proofs.Binding.Nearest
import ScopedRename.Proofs.Binding.ScopingRules
import ScopedRename.Proofs.Outline.Spelling

/-!
Receivers of declared type, as `shape` in `shape.size` after `Shape shape`. The type is found twice: the word `Shape` is
bound where it stands, with the qualifier in front of it, while the receiver looks its text up from the scope of the
declaration. Main statement: the two agree exactly if the word is looked up where the scope around the receiver's type
is the nearest with a type of that name, and no value is taken for it.
-/

namespace ScopedRename

namespace Code

variable {code : Code} {position : Nat}

theorem isKeyword_of_kind_ne {word : Lexeme} (here : code.word? position = some word) (other : word.kind ≠ .keyword)
    (text : String) : code.isKeyword position text = false := by
  unfold isKeyword Lexeme.isKeyword
  rw [here, Option.any_some, beq_eq_false_iff_ne.mpr other]
  rfl

theorem isKeyword_of_isIdentifier (identifier : code.isIdentifier position = true) (text : String) :
    code.isKeyword position text = false := by
  obtain ⟨word, here, kind⟩ := (Option.any_eq_true _ _).mp identifier
  refine isKeyword_of_kind_ne here ?_ text
  rw [beq_iff_eq.mp kind]
  decide

theorem kind_of_isPunctuation {mark : String} (marked : code.isPunctuation position mark = true) :
    ∃ word, code.word? position = some word ∧ word.kind = .punctuation := by
  obtain ⟨word, here, punctuation⟩ := (Option.any_eq_true _ _).mp marked
  exact ⟨word, here, beq_iff_eq.mp (Bool.and_eq_true_iff.mp punctuation).1⟩

end Code

namespace Outline

variable {outline : Outline}

/-- A receiver's type is the only one of its name in the scope around its body, which is the nearest with that name. -/
theorem type_of_receiverOfType [outline.Registered]
    (embodied : ∀ declaration ∈ outline.declarations, outline.Embodies declaration)
    {type : DeclaredType} {scope body : ScopeId} (receiver : outline.receiverOfType type scope = .localType body) :
    ∃ only declaration, outline.declaration? only = some declaration ∧ declaration.kind = .type ∧
      declaration.body = some body ∧ outline.parent? body = some declaration.scope ∧
      outline.declaredIn declaration.scope type.base .type = [only] ∧
      outline.Nearest (.lexical scope) declaration.scope type.base .type := by
  unfold receiverOfType at receiver
  split at receiver
  · cases receiver
  · split at receiver
    · rename_i hit only looked
      obtain ⟨_, _, _, _, shown, _⟩ := outline.lookup_eq_some_iff.mp looked
      have nearest : outline.Nearest (.lexical scope) hit type.base .type := by
        refine ⟨outline.mem_ancestors_of_lookup looked, ?_⟩
        intro between member inside
        by_contra declares
        rw [← visibleIn_none] at declares
        exact absurd (outline.le_of_lookup looked member declares) (Nat.not_le.mpr inside)
      rw [visibleIn_none] at shown
      obtain ⟨declaration, declared, placed, _, space⟩ := outline.mem_declaredIn.mp (shown ▸ List.mem_cons_self)
      rw [declared, Option.bind_some] at receiver
      cases recorded : declaration.body with
      | none =>
          rw [recorded] at receiver
          cases receiver
      | some opened =>
          rw [recorded] at receiver
          cases receiver
          obtain ⟨entry, found, _, _, parent⟩ := embodied declaration (Array.mem_of_getElem? declared) body recorded
          refine ⟨only, declaration, declared, DeclarationKind.space_eq_type.mp space, recorded, ?_, ?_, ?_⟩
          · unfold parent?
            rw [found, Option.bind_some, parent]
          · rw [placed, shown]
          · rw [placed]
            exact nearest
    · cases receiver
    · cases receiver

end Outline

namespace Analysis

inductive Evaluates (analysis : Analysis) (position : Nat) (declaration : Declaration) : Prop where
  | name {use : Reference} {id : DeclarationId} (used : use ∈ analysis.bound.references.toList)
      (here : use.position = position) (resolved : use.resolution = .resolved id)
      (declared : analysis.bound.outline.declaration? id = some declaration) (value : declaration.kind.space = .value)
  | call {use : Reference} {id : DeclarationId} (used : use ∈ analysis.bound.references.toList)
      (closes : analysis.code.isPunctuation position ")" = true)
      (opens : analysis.code.partner? position = some (use.position + 1)) (resolved : use.resolution = .resolved id)
      (declared : analysis.bound.outline.declaration? id = some declaration) (method : declaration.kind = .method)

/-- The type of a declaration is read off a word: the simple name of the type in front of its own name or, for a further
variable of a statement, in front of an earlier one's. -/
inductive Supplies (analysis : Analysis) (declaration : Declaration) (word : Nat) : Prop where
  | written {run : TypeRun} (before : analysis.code.typeBefore? declaration.position = some run)
      (simple : run.simple = some word)
  | continued {first : Declaration} {run : TypeRun} (bare : analysis.code.typeBefore? declaration.position = none)
      (earlier : first ∈ analysis.bound.outline.declarations) (together : first.scope = declaration.scope)
      (ordered : first.position < declaration.position)
      (shared : first.declaredType.map (·.base) = declaration.declaredType.map (·.base))
      (before : analysis.code.typeBefore? first.position = some run) (simple : run.simple = some word)

def DenotesBody (analysis : Analysis) (word : Nat) (body : ScopeId) : Prop :=
  ∃ use ∈ analysis.bound.references.toList, use.position = word ∧
    ∃ id declaration, use.resolution = .resolved id ∧ analysis.bound.outline.declaration? id = some declaration ∧
      declaration.kind = .type ∧ declaration.body = some body

/-- The word is a use of a type's name that the scope around the body is the nearest to have, and no value has. -/
def LeadsToBody (analysis : Analysis) (word : Nat) (body : ScopeId) : Prop :=
  ∃ use ∈ analysis.bound.references.toList, use.position = word ∧ use.space ≠ .method ∧
    (use.space = .value →
      analysis.bound.outline.found use.lookup use.name .value (analysis.bound.outline.startOf use.position) = []) ∧
    ∃ outer, analysis.bound.outline.parent? body = some outer ∧
      analysis.bound.outline.Nearest use.lookup outer use.name .type

variable {source : String} {index : ProjectIndex} {analysis : Analysis}
  (analysed : ofText source index = .ok analysis)

include analysed

theorem Supplies.text {declaration : Declaration} {word : Nat} (supplied : analysis.Supplies declaration word)
    (member : declaration ∈ analysis.bound.outline.declarations) {type : DeclaredType}
    (typed : declaration.declaredType = some type) : analysis.code.text word = type.base := by
  obtain ⟨_, _, _, _, bound, _⟩ := ofText_eq_ok analysed
  have written {declaration : Declaration} (member : declaration ∈ analysis.bound.outline.declarations)
      {run : TypeRun} (before : analysis.code.typeBefore? declaration.position = some run)
      (simple : run.simple = some word) {type : DeclaredType} (typed : declaration.declaredType = some type) :
      analysis.code.text word = type.base := by
    rw [bound] at member
    rcases (Walk.run_spelled analysis.code).typed declaration member type typed with
      ⟨again, beforeAgain, base⟩ | ⟨bare, _⟩
    · rw [before] at beforeAgain
      cases beforeAgain
      rw [base, simple, Option.getD_some]
    · rw [before] at bare
      cases bare
  cases supplied with
  | written before simple => exact written member before simple typed
  | continued bare earlier together ordered shared before simple =>
      rw [typed, Option.map_some, Option.map_eq_some_iff] at shared
      obtain ⟨firstType, firstTyped, same⟩ := shared
      rw [← same]
      exact written earlier before simple firstTyped

theorem reference_bound {reference : Reference} (used : reference ∈ analysis.bound.references.toList) :
    analysis.code.isReference analysis.bound.outline reference.position = true ∧
      reference.space = (analysis.code.usageAt analysis.bound.outline reference.position).space ∧
      analysis.code.bindingAt analysis.bound.outline index reference.position =
        (reference.lookup, reference.resolution) := by
  obtain ⟨_, _, _, _, bound, _⟩ := ofText_eq_ok analysed
  rw [bound] at used ⊢
  obtain ⟨isReference, same⟩ :=
    (analysis.code.referenceAt?_eq_some _ index).mp ((analysis.code.mem_references _ index).mp used)
  exact ⟨isReference, congrArg Reference.space same,
    Prod.ext (congrArg Reference.lookup same).symm (congrArg Reference.resolution same).symm⟩

theorem receiver_of_member {reference : Reference} (used : reference ∈ analysis.bound.references.toList)
    {type : ScopeId} (site : reference.lookup = .member type) :
    analysis.code.receiverAt analysis.bound.outline index (reference.position - 2) = .localType type := by
  obtain ⟨_, _, bound⟩ := reference_bound analysed used
  have place := congrArg Prod.fst bound
  rw [Code.bindingAt, site] at place
  split at place
  · cases place
  · dsimp only at place
    split at place
    · have isLocal := congrArg Lookup.isLocal place
      obtain ⟨owner, receiver, same⟩ := analysis.bound.outline.bindMember_isLocal index isLocal
      rw [same] at place
      cases place
      exact receiver
    · cases place

omit analysed in
theorem Evaluates.member {position : Nat} {declaration : Declaration}
    (evaluates : analysis.Evaluates position declaration) : declaration ∈ analysis.bound.outline.declarations := by
  cases evaluates with
  | name used here resolved declared value => exact Array.mem_of_getElem? declared
  | call used closes opens resolved declared method => exact Array.mem_of_getElem? declared

theorem Evaluates.receiver {position : Nat} {declaration : Declaration}
    (evaluates : analysis.Evaluates position declaration) {type : ScopeId}
    (receiver : analysis.code.receiverAt analysis.bound.outline index position = .localType type) :
    ∃ written, declaration.declaredType = some written ∧
      analysis.bound.outline.receiverOfType written declaration.scope = .localType type := by
  have ofDeclared (typed : declaration.declaredType.elim Receiver.unknown
      (analysis.bound.outline.receiverOfType · declaration.scope) = .localType type) :
      ∃ written, declaration.declaredType = some written ∧
        analysis.bound.outline.receiverOfType written declaration.scope = .localType type := by
    cases written : declaration.declaredType with
    | none =>
        rw [written] at typed
        cases typed
    | some written' =>
        rw [written] at typed
        exact ⟨written', rfl, typed⟩
  apply ofDeclared
  rw [Code.receiverAt] at receiver
  cases evaluates with
  | name used here resolved declared value =>
      obtain ⟨isReference, _, bound⟩ := reference_bound analysed used
      have word := (reference_spelled analysed used).1
      rw [here] at isReference bound word
      have noKeyword := Code.isKeyword_of_isIdentifier word
      rw [noKeyword, noKeyword, isReference, bound, resolved] at receiver
      simp only [Bool.false_eq_true, if_false, if_true, Outline.receiverOfName, declared] at receiver
      cases kind : declaration.kind with
      | type =>
          rw [kind] at value
          cases value
      | method =>
          rw [kind] at value
          cases value
      | field =>
          rw [kind] at receiver
          exact receiver
      | parameter =>
          rw [kind] at receiver
          exact receiver
      | localVariable =>
          rw [kind] at receiver
          exact receiver
  -- the parenthesis is no name itself, so the callee is looked up in front of its partner
  | call used closes opens resolved declared method =>
      obtain ⟨isReference, _, bound⟩ := reference_bound analysed used
      obtain ⟨word, here, punctuation⟩ := Code.kind_of_isPunctuation closes
      have noKeyword := Code.isKeyword_of_kind_ne here (by rw [punctuation]; decide)
      have noName : analysis.code.isReference analysis.bound.outline position = false := by
        unfold Code.isReference Code.isIdentifier Lexeme.isIdentifier
        rw [here, Option.any_some, punctuation]
        rfl
      rw [noKeyword, noKeyword, noName, closes, opens] at receiver
      simp only [Bool.false_eq_true, if_false, if_true] at receiver
      split at receiver
      · rw [bound, resolved] at receiver
        simp only [if_true, Outline.receiverOfCall, declared, method] at receiver
        exact receiver
      · cases receiver

theorem resolved_iff_candidates {use : Reference} (used : use ∈ analysis.bound.references.toList) {id : DeclarationId} :
    use.resolution = .resolved id ↔ use.resolution.candidates = [id] := by
  constructor
  · intro resolved
    rw [resolved]
    rfl
  · intro alone
    have follows := (reference_follows analysed used).1
    cases denoted : use.resolution with
    | resolved other =>
        rw [denoted] at alone
        rw [(List.cons.inj alone).1]
    | ambiguous candidates =>
        have two := (follows.several denoted).1
        rw [denoted] at alone
        rw [show candidates = [id] from alone] at two
        exact absurd two (Nat.lt_irrefl 1)
    | external declaration =>
        rw [denoted] at alone
        cases alone
    | unresolved =>
        rw [denoted] at alone
        cases alone

omit analysed in
theorem isLocal_of_finds {site : Lookup} {name : String} {space : NameSpace} {offset : Nat}
    {candidates : List DeclarationId} (finds : analysis.Finds site name space offset candidates) :
    site.isLocal = true := by
  obtain ⟨_, _, place⟩ := finds
  cases site with
  | lexical scope => rfl
  | member type => rfl
  | foreign => cases place
  | path => cases place

omit analysed in
theorem Finds.space {site : Lookup} {name : String} {space : NameSpace} {offset : Nat}
    {candidates : List DeclarationId} (finds : analysis.Finds site name space offset candidates) {id : DeclarationId}
    (member : id ∈ candidates) {declaration : Declaration}
    (declared : analysis.bound.outline.declaration? id = some declaration) : declaration.kind.space = space := by
  have declares : ∃ scope, analysis.Declares scope name space id := by
    obtain ⟨_, _, place⟩ := finds
    cases site with
    | lexical scope =>
        obtain ⟨_, hit, _, _, _, shown⟩ := place
        exact ⟨hit, ((shown id).mp member).1⟩
    | member type => exact ⟨type, (place id).mp member⟩
    | foreign => cases place
    | path => cases place
  obtain ⟨_, again, declaredAgain, _, _, same⟩ := declares
  rw [declared] at declaredAgain
  cases declaredAgain
  exact same

omit analysed in
theorem Narrows.mem {arguments : Option Nat} {candidates : List DeclarationId} {resolution : Resolution}
    (narrows : analysis.Narrows arguments candidates resolution) {id : DeclarationId}
    (resolved : resolution = .resolved id) : id ∈ candidates := by
  cases narrows with
  | single alone =>
      cases resolved
      rw [alone]
      exact List.mem_cons_self
  | taken several known member only =>
      cases resolved
      exact member
  | uncounted several unknown => cases resolved
  | overloaded several known ordered exactly => cases resolved
  | rejected several known none => cases resolved

/-- What a use in type position may denote is what is found where it was looked up. -/
theorem candidates_of_type_use {use : Reference} (used : use ∈ analysis.bound.references.toList)
    (space : use.space = .type) :
    use.resolution.candidates =
      analysis.bound.outline.found use.lookup use.name .type (analysis.bound.outline.startOf use.position) := by
  by_cases site : use.lookup.isLocal = true
  · have explained : analysis.bound.outline.Explains use.space
        (analysis.bound.outline.found use.lookup use.name use.space (analysis.bound.outline.startOf use.position))
        use.resolution := by
      obtain ⟨_, _, _, _, bound, _⟩ := ofText_eq_ok analysed
      rw [bound] at used ⊢
      exact analysis.code.reference_explained _ index used site (by rw [space]; decide)
    rw [space] at explained
    rcases explained with ⟨_, same⟩ | ⟨nothing, unbound | ⟨value, _⟩⟩
    · exact same
    · rw [nothing, Resolution.candidates_of_not_isBound unbound]
    · cases value
  · -- nothing of this file is denoted where nothing is looked up
    cases (reference_follows analysed used).1 with
    | direct finds narrows => exact absurd (isLocal_of_finds finds) site
    | type value misses finds narrows => exact absurd (isLocal_of_finds finds) site
    | elsewhere misses missesTypes unbound =>
        rw [Resolution.candidates_of_not_isBound unbound]
        cases place : use.lookup with
        | lexical scope =>
            rw [place] at site
            exact absurd rfl site
        | member type =>
            rw [place] at site
            exact absurd rfl site
        | foreign => rfl
        | path => rfl

theorem resolved_type_iff {use : Reference} (used : use ∈ analysis.bound.references.toList) {id : DeclarationId}
    {declaration : Declaration} (declared : analysis.bound.outline.declaration? id = some declaration)
    (type : declaration.kind = .type) :
    use.resolution = .resolved id ↔
      use.space ≠ .method ∧
        (use.space = .value →
          analysis.bound.outline.found use.lookup use.name .value (analysis.bound.outline.startOf use.position) = []) ∧
        analysis.bound.outline.found use.lookup use.name .type (analysis.bound.outline.startOf use.position) = [id] := by
  have := Analysis.registered analysed
  cases space : use.space with
  | type =>
      rw [resolved_iff_candidates analysed used, candidates_of_type_use analysed used space]
      constructor
      · intro found
        refine ⟨by decide, ?_, found⟩
        intro impossible
        cases impossible
      · intro facts
        exact facts.2.2
  | value =>
      have searched : use.resolution.candidates =
          analysis.bound.outline.searched use.lookup use.name (analysis.bound.outline.startOf use.position) := by
        obtain ⟨_, _, _, _, bound, _⟩ := ofText_eq_ok analysed
        rw [bound] at used ⊢
        exact analysis.code.reference_searched _ index used space
      rw [resolved_iff_candidates analysed used, searched,
        analysis.bound.outline.searched_eq_type_iff declared type]
      constructor
      · intro both
        exact ⟨by decide, fun _ => both.1, both.2⟩
      · intro facts
        exact ⟨facts.2.1 rfl, facts.2.2⟩
  | method =>
      -- a method name never denotes a type, whichever rule it was bound by
      refine iff_of_false ?_ (fun facts => facts.1 rfl)
      intro resolved
      cases (reference_follows analysed used).1 with
      | direct finds narrows =>
          have method := finds.space (narrows.mem resolved) declared
          rw [type, space] at method
          cases method
      | type value =>
          rw [space] at value
          cases value
      | elsewhere misses missesTypes unbound =>
          rw [resolved] at unbound
          cases unbound

section Receivers

variable {reference : Reference} (used : reference ∈ analysis.bound.references.toList) {body : ScopeId}
  (site : reference.lookup = .member body) {declaration : Declaration}
  (evaluates : analysis.Evaluates (reference.position - 2) declaration) {word : Nat}
  (supplied : analysis.Supplies declaration word)

include analysed used site evaluates supplied

/-- The type that a receiver is given, and how the word it was read off is spelled. -/
theorem type_of_receiver :
    ∃ only type base, analysis.bound.outline.declaration? only = some type ∧ type.kind = .type ∧
      type.body = some body ∧ analysis.bound.outline.parent? body = some type.scope ∧
      analysis.bound.outline.declaredIn type.scope base .type = [only] ∧
      analysis.bound.outline.Nearest (.lexical declaration.scope) type.scope base .type ∧
      ∀ use ∈ analysis.bound.references.toList, use.position = word → use.name = base := by
  have := Analysis.registered analysed
  obtain ⟨_, _, _, _, bound, _⟩ := ofText_eq_ok analysed
  have embodied : ∀ declaration ∈ analysis.bound.outline.declarations,
      analysis.bound.outline.Embodies declaration := by
    rw [bound]
    exact Outline.ofCode_embodies analysis.code
  obtain ⟨written, typed, receiver⟩ := evaluates.receiver analysed (receiver_of_member analysed used site)
  obtain ⟨only, type, declared, kind, recorded, parent, alone, nearest⟩ :=
    Outline.type_of_receiverOfType embodied receiver
  refine ⟨only, type, written.base, declared, kind, recorded, parent, alone, nearest, ?_⟩
  intro use worded here
  rw [← supplied.text analysed evaluates.member typed, ← here]
  exact (reference_spelled analysed worded).2.1

/-- A word that stands bare in type position leads where the receiver goes, if it belongs to the declaration's scope. -/
theorem leadsToBody_of_scope {use : Reference} (worded : use ∈ analysis.bound.references.toList)
    (here : use.position = word) (typeWord : use.space = .type) (place : use.lookup = .lexical declaration.scope) :
    analysis.LeadsToBody word body := by
  obtain ⟨_, type, base, _, _, _, parent, _, nearest, named⟩ :=
    type_of_receiver analysed used site evaluates supplied
  refine ⟨use, worded, here, ?_, ?_, type.scope, parent, ?_⟩
  · rw [typeWord]
    decide
  · intro value
    rw [typeWord] at value
    cases value
  · rw [place, named use worded here]
    exact nearest

end Receivers

end Analysis

/-- Take a member looked up in a type of this file, whose receiver is a variable or call of declared type, and the word
that this type was read off. The word denotes the type with that body exactly if it is a use that leads there itself. -/
theorem receiver_type_denoted_iff {source : String} {index : ProjectIndex} {analysis : Analysis}
    (analysed : Analysis.ofText source index = .ok analysis) {reference : Reference}
    (used : reference ∈ analysis.bound.references.toList) {body : ScopeId} (site : reference.lookup = .member body)
    {declaration : Declaration} (evaluates : analysis.Evaluates (reference.position - 2) declaration)
    {word : Nat} (supplied : analysis.Supplies declaration word) :
    analysis.DenotesBody word body ↔ analysis.LeadsToBody word body := by
  have := Analysis.registered analysed
  obtain ⟨only, type, base, declared, kind, recorded, parent, alone, _, named⟩ :=
    Analysis.type_of_receiver analysed used site evaluates supplied
  constructor
  · rintro ⟨use, worded, here, id, other, resolved, declaredOther, kindOther, recordedOther⟩
    obtain ⟨noMethod, noValue, found⟩ :=
      (Analysis.resolved_type_iff analysed worded declaredOther kindOther).mp resolved
    refine ⟨use, worded, here, noMethod, noValue, type.scope, parent, ?_⟩
    have together : other.scope = type.scope := by
      -- a body lies in one scope
      obtain ⟨_, _, _, _, bound, _⟩ := Analysis.ofText_eq_ok analysed
      have member : other ∈ (Outline.ofCode analysis.code).declarations := by
        rw [bound] at declaredOther
        exact Array.mem_of_getElem? declaredOther
      obtain ⟨entry, opened, _, _, around⟩ := Outline.ofCode_embodies analysis.code other member body recordedOther
      rw [bound] at parent
      unfold Outline.parent? at parent
      rw [opened, Option.bind_some, around] at parent
      exact Option.some.inj parent
    rw [← together]
    exact Outline.nearest_of_mem_found (by decide) (found ▸ List.mem_cons_self) declaredOther
  · rintro ⟨use, worded, here, noMethod, noValue, outer, around, nearest⟩
    rw [parent] at around
    cases around
    refine ⟨use, worded, here, only, type, ?_, declared, kind, recorded⟩
    refine (Analysis.resolved_type_iff analysed worded declared kind).mpr ⟨noMethod, noValue, ?_⟩
    rw [named use worded here] at nearest ⊢
    exact (Outline.found_eq_singleton_iff (by decide) declared alone).mpr nearest

/-- Two fields of one statement and a method, all of the same type: the second field and a call of the method. -/
theorem receiver_type_denoted_iff_members :
    ∃ analysis,
      Analysis.ofText "class Foo { int m; } class K { Foo x, y; Foo get() { return x; } void f() { y.m = get().m; } }"
        ProjectIndex.empty = .ok analysis ∧
      (∃ member ∈ analysis.bound.references.toList, member.position = 31 ∧ member.lookup = .member 1) ∧
      analysis.DenotesBody 10 1 ∧
      (∃ member ∈ analysis.bound.references.toList, member.position = 37 ∧ member.lookup = .member 1) ∧
      analysis.DenotesBody 15 1 := by
  have computed :
      ((Analysis.ofText "class Foo { int m; } class K { Foo x, y; Foo get() { return x; } void f() { y.m = get().m; } }"
          ProjectIndex.empty).toOption.any fun analysis =>
        ((analysis.bound.references.toList.any fun use => use.position == 31 && use.lookup == .member 1)
            && (analysis.bound.references.toList.any fun use => use.position == 29 && use.resolution == .resolved 4)
            && (analysis.bound.references.toList.any fun use =>
              use.position == 10 && use.space == .type && use.lookup == .lexical 2)
            && (analysis.bound.outline.declaration? 3).any (fun first =>
              first.scope == 2 && first.position == 11 && first.declaredType.map (·.base) == some "Foo")
            && (analysis.bound.outline.declaration? 4).any (fun second =>
              second.kind == .field && second.scope == 2 && second.position == 13
                && second.declaredType.map (·.base) == some "Foo")
            && analysis.code.typeBefore? 13 == none && analysis.code.typeBefore? 11 == some ⟨10, [10], some 10, false⟩)
          && ((analysis.bound.references.toList.any fun use => use.position == 37 && use.lookup == .member 1)
            && (analysis.bound.references.toList.any fun use => use.position == 33 && use.resolution == .resolved 5)
            && (analysis.bound.references.toList.any fun use =>
              use.position == 15 && use.space == .type && use.lookup == .lexical 2)
            && (analysis.bound.outline.declaration? 5).any (fun method =>
              method.kind == .method && method.scope == 2 && method.position == 16)
            && analysis.code.isPunctuation 35 ")" && analysis.code.partner? 35 == some 34
            && analysis.code.typeBefore? 16 == some ⟨15, [15], some 15, false⟩)) = true := by
    decide +kernel
  obtain ⟨analysis, analysed, facts⟩ := exists_ok_of_any computed
  simp only [Bool.and_eq_true, beq_iff_eq, List.any_eq_true, and_assoc] at facts
  obtain ⟨⟨member, used, placed, site⟩, ⟨receiver, received, atReceiver, resolved⟩, ⟨word, worded, atWord, typed, home⟩,
    opening, further, bare, before, ⟨called, calledUsed, calledPlaced, calledSite⟩,
    ⟨callee, calleeUsed, atCallee, calleeResolved⟩, ⟨result, resultUsed, atResult, resultTyped, resultHome⟩, returning,
    closes, opens, resultBefore⟩ := facts
  obtain ⟨first, declaredFirst, firstFacts⟩ := (Option.any_eq_true _ _).mp opening
  obtain ⟨second, declaredSecond, secondFacts⟩ := (Option.any_eq_true _ _).mp further
  obtain ⟨method, declaredMethod, methodFacts⟩ := (Option.any_eq_true _ _).mp returning
  simp only [Bool.and_eq_true, beq_iff_eq] at firstFacts secondFacts methodFacts
  obtain ⟨⟨firstScope, firstPosition⟩, firstType⟩ := firstFacts
  obtain ⟨⟨⟨field, secondScope⟩, secondPosition⟩, secondType⟩ := secondFacts
  obtain ⟨⟨isMethod, methodScope⟩, methodPosition⟩ := methodFacts
  have name : analysis.Evaluates (member.position - 2) second := by
    refine .name received ?_ resolved declaredSecond ?_
    · rw [atReceiver, placed]
    · rw [field]
      rfl
  have continued : analysis.Supplies second 10 := by
    refine .continued (secondPosition ▸ bare) (Array.mem_of_getElem? declaredFirst) (firstScope.trans secondScope.symm)
      ?_ (firstType.trans secondType.symm) (firstPosition ▸ before) rfl
    rw [firstPosition, secondPosition]
    decide
  have call : analysis.Evaluates (called.position - 2) method := by
    refine .call calleeUsed ?_ ?_ calleeResolved declaredMethod isMethod
    · rw [calledPlaced]
      exact closes
    · rw [calledPlaced, atCallee]
      exact opens
  have written : analysis.Supplies method 15 := .written (methodPosition ▸ resultBefore) rfl
  refine ⟨analysis, analysed, ⟨member, used, placed, site⟩, ?_, ⟨called, calledUsed, calledPlaced, calledSite⟩, ?_⟩
  · exact (receiver_type_denoted_iff analysed used site name continued).mpr
      (Analysis.leadsToBody_of_scope analysed used site name continued worded atWord typed (secondScope ▸ home))
  · exact (receiver_type_denoted_iff analysed calledUsed calledSite call written).mpr
      (Analysis.leadsToBody_of_scope analysed calledUsed calledSite call written resultUsed atResult resultTyped
        (methodScope ▸ resultHome))

/-- A field of a type of another package, named like a type of this file: the member is looked up in the type of this
file, although the word that names the field's type is known not to mean it. -/
theorem receiver_type_guessed :
    ∃ analysis member field,
      Analysis.ofText "class Foo { int m; } class K { other.Foo x; void f() { x.m = 1; } }" ProjectIndex.empty =
        .ok analysis ∧
      member ∈ analysis.bound.references.toList ∧ member.lookup = .member 1 ∧ member.resolution = .resolved 1 ∧
      analysis.Evaluates (member.position - 2) field ∧ field.kind = .field ∧ analysis.Supplies field 12 ∧
      ¬ analysis.DenotesBody 12 1 ∧
      analysis.bound.references.toList.map (fun use => (use.name, use.resolution)) =
        [("other", .unresolved), ("Foo", .unresolved), ("x", .resolved 3), ("m", .resolved 1)] := by
  have computed :
      ((Analysis.ofText "class Foo { int m; } class K { other.Foo x; void f() { x.m = 1; } }"
          ProjectIndex.empty).toOption.any fun analysis =>
        (analysis.bound.references.toList.any fun use =>
          use.position == 22 && use.lookup == .member 1 && use.resolution == .resolved 1)
          && (analysis.bound.references.toList.any fun use => use.position == 20 && use.resolution == .resolved 3)
          && (analysis.bound.references.toList.all fun use => use.position != 12 || use.resolution == .unresolved)
          && (analysis.bound.outline.declaration? 3).any (fun field => field.kind == .field && field.position == 13)
          && analysis.code.typeBefore? 13 == some ⟨10, [10, 12], some 12, false⟩
          && analysis.bound.references.toList.map (fun use => (use.name, use.resolution)) ==
            [("other", .unresolved), ("Foo", .unresolved), ("x", .resolved 3), ("m", .resolved 1)]) = true := by
    decide +kernel
  obtain ⟨analysis, analysed, facts⟩ := exists_ok_of_any computed
  simp only [Bool.and_eq_true, beq_iff_eq, List.any_eq_true, List.all_eq_true, Bool.or_eq_true, bne_iff_ne, and_assoc]
    at facts
  obtain ⟨⟨member, used, placed, site, denotes⟩, ⟨receiver, received, atReceiver, resolved⟩, unresolved, declared, before,
    all⟩ := facts
  obtain ⟨field, found, fieldFacts⟩ := (Option.any_eq_true _ _).mp declared
  simp only [Bool.and_eq_true, beq_iff_eq] at fieldFacts
  obtain ⟨kind, position⟩ := fieldFacts
  refine ⟨analysis, member, field, analysed, used, site, denotes, ?_, kind, .written (position ▸ before) rfl, ?_, all⟩
  · refine .name received ?_ resolved found ?_
    · rw [atReceiver, placed]
    · rw [kind]
      rfl
  · rintro ⟨use, worded, here, id, _, resolvedWord, _⟩
    rcases unresolved use worded with elsewhere | unbound
    · exact elsewhere here
    · rw [resolvedWord] at unbound
      cases unbound

end ScopedRename
