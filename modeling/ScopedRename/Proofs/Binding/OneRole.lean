import ScopedRename.Proofs.Binding.ScopingRules
import ScopedRename.Proofs.Outline.Roles
import ScopedRename.Proofs.Outline.WellFormed

/-!
The roles of the identifiers of a text. Each names a declaration or is a use, and uses in the place of a type are marked.
Main statement: every identifier has exactly one role if and only if drawing up the outline never gives a word a second.
-/

namespace ScopedRename

namespace Layout

theorem exists_tokenIndex {tokens : List Token} {code : Code} (paired : Code.ofTokens tokens = .ok code) {i : Nat}
    {token : Token} (found : tokens[i]? = some token) (identifier : token.isIdentifier = true) :
    ∃ position, code.isIdentifier position = true ∧ (ofTokens tokens).tokenIndex position = i := by
  have listed : i ∈ ((tokens.zipIdx.filter fun token => !token.1.kind.isTrivia).map (·.2)) := by
    refine List.mem_map.mpr ⟨(token, i), List.mem_filter.mpr ⟨List.mk_mem_zipIdx_iff_getElem?.mpr found, ?_⟩, rfl⟩
    dsimp only
    rw [beq_iff_eq.mp identifier]
    rfl
  obtain ⟨position, place⟩ := List.mem_iff_getElem?.mp listed
  have index : (ofTokens tokens).indices[position]? = some i := by
    unfold ofTokens
    rw [List.getElem?_toArray]
    exact place
  refine ⟨position, ?_, ?_⟩
  · unfold Code.isIdentifier
    rw [Code.word?_ofTokens paired]
    unfold token?
    rw [index, Option.bind_some]
    have here : (ofTokens tokens).tokens[i]? = some token := by
      unfold ofTokens
      rw [List.getElem?_toArray, found]
    rw [here]
    exact identifier
  · unfold tokenIndex
    rw [Array.getD_eq_getD_getElem?, index, Option.getD_some]

end Layout

namespace Analysis

section

variable (analysis : Analysis)

def Names (id : DeclarationId) (i : Nat) : Prop :=
  ∃ declaration, analysis.bound.outline.declaration? id = some declaration ∧
    analysis.layout.tokenIndex declaration.position = i

def Uses (reference : Reference) (i : Nat) : Prop :=
  reference ∈ analysis.bound.references.toList ∧ analysis.layout.tokenIndex reference.position = i

/-- Every identifier of the text has exactly one role. -/
structure OneRole : Prop where
  /-- No two declarations share their name's token. -/
  names : ∀ id other i, analysis.Names id i → analysis.Names other i → id = other
  /-- No token in the place of a type names a declaration. -/
  types : ∀ id position, analysis.bound.outline.isTypeWord position = true →
    ¬analysis.Names id (analysis.layout.tokenIndex position)
  /-- An identifier names one declaration or is one use, and never both. -/
  identifiers : ∀ i token, analysis.tokens[i]? = some token → token.isIdentifier = true →
    (∃! id, analysis.Names id i) ∧ (∀ reference, ¬analysis.Uses reference i) ∨
      (∀ id, ¬analysis.Names id i) ∧ ∃! reference, analysis.Uses reference i

end

variable {source : String} {index : ProjectIndex} {analysis : Analysis}
  (analysed : ofText source index = .ok analysis)

include analysed

theorem tokenIndex_injective {left right : Nat} (leftWord : analysis.code.isIdentifier left = true)
    (rightWord : analysis.code.isIdentifier right = true)
    (same : analysis.layout.tokenIndex left = analysis.layout.tokenIndex right) : left = right := by
  obtain ⟨_, built, _, layout, _, _⟩ := ofText_eq_ok analysed
  obtain ⟨token, found, _, _, span⟩ := Code.token_of_isIdentifier built leftWord
  obtain ⟨other, otherFound, _, _, otherSpan⟩ := Code.token_of_isIdentifier built rightWord
  rw [layout] at same
  rw [same, otherFound] at found
  cases found
  refine position_eq_of_span_eq analysed leftWord rightWord ?_
  rw [layout, ← span, ← otherSpan]

theorem names_isIdentifier {name : Nat} (named : name ∈ analysis.bound.outline.names) :
    analysis.code.isIdentifier name = true := by
  obtain ⟨_, _, _, _, bound, _⟩ := ofText_eq_ok analysed
  obtain ⟨declaration, member, rfl⟩ := List.mem_map.mp named
  rw [bound] at member
  exact (Walk.ofCode_named analysis.code declaration (Array.mem_toList_iff.mp member)).1

theorem typeWord_isIdentifier {word : Nat} (marked : analysis.bound.outline.isTypeWord word = true) :
    analysis.code.isIdentifier word = true := by
  obtain ⟨_, _, _, _, bound, _⟩ := ofText_eq_ok analysed
  rw [bound] at marked
  exact (Walk.run_marksIdentifiers analysis.code).isIdentifier (Or.inl marked)

omit analysed in
theorem names_iff {id : DeclarationId} {i : Nat} :
    analysis.Names id i ↔
      ∃ name, analysis.bound.outline.names[id]? = some name ∧ analysis.layout.tokenIndex name = i := by
  unfold Names Outline.names Outline.declaration?
  simp only [List.getElem?_map, Array.getElem?_toList, Option.map_eq_some_iff]
  constructor
  · rintro ⟨declaration, found, here⟩
    exact ⟨_, ⟨declaration, found, rfl⟩, here⟩
  · rintro ⟨_, ⟨declaration, found, rfl⟩, here⟩
    exact ⟨declaration, found, here⟩

theorem names_word {position : Nat} (word : analysis.code.isIdentifier position = true) {id : DeclarationId} :
    analysis.Names id (analysis.layout.tokenIndex position) ↔ analysis.bound.outline.names[id]? = some position := by
  rw [names_iff]
  constructor
  · rintro ⟨name, found, same⟩
    rw [← tokenIndex_injective analysed (names_isIdentifier analysed (List.mem_of_getElem? found)) word same]
    exact found
  · intro found
    exact ⟨position, found, rfl⟩

theorem not_uses_of_named {position : Nat} (named : position ∈ analysis.bound.outline.names) (reference : Reference) :
    ¬analysis.Uses reference (analysis.layout.tokenIndex position) := by
  have := Analysis.registered analysed
  rintro ⟨used, same⟩
  obtain ⟨identifier, _, undeclared⟩ := reference_spelled analysed used
  rw [tokenIndex_injective analysed identifier (names_isIdentifier analysed named) same] at undeclared
  obtain ⟨declaration, member, here⟩ := List.mem_map.mp named
  obtain ⟨id, found⟩ := List.mem_iff_getElem?.mp member
  exact Outline.declarationAt?_ne_none _ (Array.getElem?_toList.symm.trans found) here undeclared

/-- A word that names none is one use. -/
theorem uses_once {position : Nat} (word : analysis.code.isIdentifier position = true)
    (unnamed : position ∉ analysis.bound.outline.names) :
    ∃! reference, analysis.Uses reference (analysis.layout.tokenIndex position) := by
  obtain ⟨_, built, _, layout, _, _⟩ := ofText_eq_ok analysed
  obtain ⟨token, found, kind, text, span⟩ := Code.token_of_isIdentifier built word
  rw [← layout] at span
  obtain ⟨reference, ⟨used, here, _⟩, only⟩ :=
    exists_unique_reference analysed (List.mem_of_getElem? found) (beq_iff_eq.mpr kind) (by
      intro declaration member same
      have named : declaration.position ∈ analysis.bound.outline.names :=
        List.mem_map.mpr ⟨declaration, Array.mem_toList_iff.mpr member, rfl⟩
      apply unnamed
      rw [← position_eq_of_span_eq analysed (names_isIdentifier analysed named) word (same.trans span)]
      exact named)
  have place := position_eq_of_span_eq analysed (reference_spelled analysed used).1 word (here.trans span)
  refine ⟨reference, ⟨used, by rw [place]⟩, ?_⟩
  rintro other ⟨otherUsed, same⟩
  obtain ⟨identifier, named, _⟩ := reference_spelled analysed otherUsed
  have otherPlace := tokenIndex_injective analysed identifier word same
  refine only other ⟨otherUsed, ?_, ?_⟩
  · rw [otherPlace, span]
  · rw [named, otherPlace, text]

/-- An identifier names declarations or is one use, and never both. -/
theorem named_or_used {i : Nat} {token : Token} (found : analysis.tokens[i]? = some token)
    (identifier : token.isIdentifier = true) :
    (∃ id, analysis.Names id i) ∧ (∀ reference, ¬analysis.Uses reference i) ∨
      (∀ id, ¬analysis.Names id i) ∧ ∃! reference, analysis.Uses reference i := by
  obtain ⟨_, built, _, layout, _, _⟩ := ofText_eq_ok analysed
  obtain ⟨position, word, rfl⟩ := Layout.exists_tokenIndex built found identifier
  rw [← layout]
  by_cases named : position ∈ analysis.bound.outline.names
  · obtain ⟨id, here⟩ := List.mem_iff_getElem?.mp named
    exact Or.inl ⟨⟨id, (names_word analysed word).mpr here⟩, not_uses_of_named analysed named⟩
  · refine Or.inr ⟨?_, uses_once analysed word named⟩
    intro id also
    exact named (List.mem_of_getElem? ((names_word analysed word).mp also))

/-- The tokens of a text have one role each if and only if its words do. -/
theorem oneRole_iff : analysis.OneRole ↔ analysis.bound.outline.Exclusive := by
  constructor
  · rintro ⟨names, types, _⟩
    refine ⟨List.nodup_iff_getElem?_ne_getElem?.mpr ?_, ?_⟩
    · intro id other before inside same
      obtain ⟨name, found⟩ : ∃ name, analysis.bound.outline.names[other]? = some name :=
        ⟨_, List.getElem?_eq_getElem inside⟩
      have equal := names id other _ (names_iff.mpr ⟨name, same.trans found, rfl⟩) (names_iff.mpr ⟨name, found, rfl⟩)
      exact Nat.ne_of_lt before equal
    · intro name named
      obtain ⟨id, found⟩ := List.mem_iff_getElem?.mp named
      rw [Bool.eq_false_iff]
      intro marked
      exact types id name marked (names_iff.mpr ⟨name, found, rfl⟩)
  · intro exclusive
    have names : ∀ id other i, analysis.Names id i → analysis.Names other i → id = other := by
      intro id other i first second
      obtain ⟨name, found, here⟩ := names_iff.mp first
      have word := names_isIdentifier analysed (List.mem_of_getElem? found)
      rw [← here, names_word analysed word] at second
      exact (List.getElem?_inj (List.getElem?_eq_some_iff.mp found).1 exclusive.distinct).mp (found.trans second.symm)
    refine ⟨names, ?_, ?_⟩
    · intro id position marked named
      rw [names_word analysed (typeWord_isIdentifier analysed marked)] at named
      rw [exclusive.untyped position (List.mem_of_getElem? named)] at marked
      cases marked
    · intro i token found identifier
      refine (named_or_used analysed found identifier).imp_left ?_
      rintro ⟨⟨id, named⟩, unused⟩
      exact ⟨⟨id, named, fun other also => names other id i also named⟩, unused⟩

end Analysis

/-- An identifier names declarations or is one use, and never both; and every identifier has exactly one role if and only
if drawing up the outline never gives a word a second one. -/
theorem roles_exclusive_iff {source : String} {index : ProjectIndex} {analysis : Analysis}
    (analysed : Analysis.ofText source index = .ok analysis) :
    (∀ i token, analysis.tokens[i]? = some token → token.isIdentifier = true →
      (∃ id, analysis.Names id i) ∧ (∀ reference, ¬analysis.Uses reference i) ∨
        (∀ id, ¬analysis.Names id i) ∧ ∃! reference, analysis.Uses reference i) ∧
    (analysis.OneRole ↔
      ∀ state position, Walk.Visits analysis.code (Walk.start analysis.code.layout) 0 state position →
        ¬Walk.Reuses analysis.code state position) := by
  obtain ⟨_, built, _, _, bound, _⟩ := Analysis.ofText_eq_ok analysed
  refine ⟨fun i token found identifier => Analysis.named_or_used analysed found identifier, ?_⟩
  rw [Analysis.oneRole_iff analysed, bound]
  exact Walk.exclusive_iff (Code.ofTokens_balanced built)

/-- A generic method with an annotated parameter, and further variables. -/
theorem roles_exclusive_iff_class :
    ∃ analysis,
      Analysis.ofText "class A<T> { List<A> a, b; <U> U f(@N T x, int y) { return new A<U>().g(z -> x); } }"
        ProjectIndex.empty = .ok analysis ∧
      analysis.bound.outline.declarations.toList.map (·.name) = ["A", "T", "a", "b", "f", "U", "x", "y", "z"] ∧
      analysis.OneRole ∧
      ∀ state position, Walk.Visits analysis.code (Walk.start analysis.code.layout) 0 state position →
        ¬Walk.Reuses analysis.code state position := by
  have computed :
      ((Analysis.ofText "class A<T> { List<A> a, b; <U> U f(@N T x, int y) { return new A<U>().g(z -> x); } }"
        ProjectIndex.empty).toOption.any fun analysis =>
          decide (analysis.bound.outline.declarations.toList.map (·.name) =
            ["A", "T", "a", "b", "f", "U", "x", "y", "z"] ∧ analysis.bound.outline.Exclusive)) = true := by
    decide +kernel
  obtain ⟨analysis, analysed, read⟩ := exists_ok_of_any computed
  obtain ⟨names, exclusive⟩ := of_decide_eq_true read
  have oneRole := (Analysis.oneRole_iff analysed).mpr exclusive
  exact ⟨analysis, analysed, names, oneRole, (roles_exclusive_iff analysed).2.mp oneRole⟩

/-- A comma inside the type arguments of an initializer adds a variable, whose name is marked as a type. -/
theorem roles_shared :
    ∃ analysis, Analysis.ofText "class K { Foo m = new Foo<A, B, C>(); }" ProjectIndex.empty = .ok analysis ∧
      analysis.bound.outline.declarations.toList.map (·.name) = ["K", "m", "B"] ∧ ¬analysis.OneRole := by
  have computed :
      ((Analysis.ofText "class K { Foo m = new Foo<A, B, C>(); }" ProjectIndex.empty).toOption.any fun analysis =>
        decide (analysis.bound.outline.declarations.toList.map (·.name) = ["K", "m", "B"] ∧
          ¬analysis.bound.outline.Exclusive)) = true := by
    decide +kernel
  obtain ⟨analysis, analysed, read⟩ := exists_ok_of_any computed
  obtain ⟨names, shared⟩ := of_decide_eq_true read
  exact ⟨analysis, analysed, names, fun oneRole => shared ((Analysis.oneRole_iff analysed).mp oneRole)⟩

end ScopedRename
