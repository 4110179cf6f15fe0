import Mathlib.Data.List.Perm.Subperm
import ScopedRename.Proofs.Binding.Candidates
import ScopedRename.Proofs.Outline.Effect
import ScopedRename.Proofs.Outline.Structure
import ScopedRename.Proofs.Outline.Texts
import ScopedRename.Proofs.Token.Lossless

/-!
The representation invariant of an outline. Its scopes form a tree numbered from the file down, every word has a scope,
every declaration stands at an identifier with its name and is listed once, and all numbers that are stored lead
somewhere. Main statement: the outline of every text that splits into balanced tokens has the invariant, and for texts
below 4 GiB the numbers fit into 32 bits.
-/

namespace ScopedRename

namespace Walk

variable {code : Code} {walk after : Walk} {position next : Nat}

/-! ### Runs -/

theorem Visits.inside {state : Walk} {word : Nat} (visits : Visits code walk position state word) :
    word < code.size := by
  induction visits with
  | here inside => exact inside
  | later _ _ ih => exact ih

/-- What holds at the start and is kept by every step of a run, also by those made in states the run comes to only,
holds at its end, which is behind the last word. -/
theorem run_visited {origin : Walk} {first : Nat} (invariant : Nat → Walk → Prop)
    (step : ∀ walk position, Visits code origin first (walk.arrive position) position → invariant position walk →
      invariant ((walk.arrive position).step code position).2 ((walk.arrive position).step code position).1)
    (start : invariant first origin) : ∃ stop, code.size ≤ stop ∧ invariant stop (run code origin first) := by
  by_cases inside : first < code.size
  · have ahead := step_advances (origin.arrive first) inside
    have same : max (first + 1) ((origin.arrive first).step code first).2 =
        ((origin.arrive first).step code first).2 := by
      omega
    rw [run_step origin inside, same]
    refine run_visited invariant ?_ (step origin first (.here inside) start)
    intro walk position visits kept
    refine step walk position (.later inside ?_) kept
    rw [same]
    exact visits
  · rw [run.eq_def, if_neg inside]
    exact ⟨first, by omega, start⟩
termination_by code.size - first

/-! ### Counting declarations -/

/-- Every declaration has a word of its own among those read: its name or, for a type parameter of a method, the mark
in front of it, which no later list of type parameters takes in because a parenthesis follows. -/
def Counted (code : Code) (position : Nat) (walk : Walk) : Prop :=
  ∃ words : List Nat, words.length = walk.declarations.size ∧ words.Nodup ∧ ∀ word ∈ words,
    word < position ∧ (code.isIdentifier word = true ∨
      ∃ parenthesis, word < parenthesis ∧ parenthesis < position ∧ code.isPunctuation parenthesis "(" = true)

theorem Counted.extend (counted : Counted code position walk) (ahead : position ≤ next) {fresh : List Nat}
    (count : after.declarations.size = walk.declarations.size + fresh.length) (distinct : fresh.Nodup)
    (owned : ∀ word ∈ fresh, word < next ∧ (code.isIdentifier word = true ∨
      ∃ parenthesis, word < parenthesis ∧ parenthesis < next ∧ code.isPunctuation parenthesis "(" = true))
    (new : ∀ word ∈ fresh, position ≤ word ∨ code.isIdentifier word = false ∧
      ∀ parenthesis, word < parenthesis → parenthesis < position → code.isPunctuation parenthesis "(" = false) :
    Counted code next after := by
  obtain ⟨words, length, nodup, facts⟩ := counted
  refine ⟨words ++ fresh, ?_, ?_, ?_⟩
  · rw [List.length_append, length, count]
  · refine List.nodup_append.mpr ⟨nodup, distinct, ?_⟩
    rintro word former other member rfl
    obtain ⟨before, kind⟩ := facts word former
    rcases new word member with later | ⟨noIdentifier, noParenthesis⟩
    · omega
    · rcases kind with identifier | ⟨parenthesis, behind, read, opens⟩
      · rw [identifier] at noIdentifier
        cases noIdentifier
      · rw [noParenthesis parenthesis behind read] at opens
        cases opens
  · intro word member
    rcases List.mem_append.mp member with former | latter
    · obtain ⟨before, kind⟩ := facts word former
      refine ⟨by omega, kind.imp id ?_⟩
      rintro ⟨parenthesis, behind, read, opens⟩
      exact ⟨parenthesis, behind, by omega, opens⟩
    · exact owned word latter

theorem Counted.size_le (counted : Counted code position walk) : walk.declarations.size ≤ code.size := by
  obtain ⟨words, length, nodup, facts⟩ := counted
  have inside : words ⊆ List.range code.size := by
    intro word member
    rw [List.mem_range]
    rcases (facts word member).2 with identifier | ⟨parenthesis, behind, _, opens⟩
    · exact code.isIdentifier_lt_size identifier
    · exact Nat.lt_trans behind (code.isPunctuation_lt_size opens)
  have bound := (List.subperm_of_subset nodup inside).length_le
  rw [List.length_range, length] at bound
  exact bound

theorem nodup_positions {declarations : List Declaration}
    (ascending : declarations.Pairwise fun left right => left.position < right.position) :
    (declarations.map (·.position)).Nodup :=
  List.pairwise_map.mpr (ascending.imp fun before => Nat.ne_of_lt before)

private theorem size_of_toList_eq {added : List Declaration}
    (list : after.declarations.toList = walk.declarations.toList ++ added) :
    after.declarations.size = walk.declarations.size + added.length := by
  rw [← Array.length_toList, list, List.length_append, Array.length_toList]

private theorem mark_of_startsTypeParameter {name : Nat} (starts : code.startsTypeParameter name = true) :
    1 ≤ name ∧ code.isIdentifier (name - 1) = false := by
  obtain ⟨_, follows⟩ := Bool.and_eq_true_iff.mp starts
  cases name with
  | zero => cases follows
  | succ mark =>
      refine ⟨Nat.succ_pos _, ?_⟩
      rw [Bool.eq_false_iff]
      intro identifier
      rw [Nat.add_sub_cancel] at identifier
      have noMark (text : String) : code.followsPunctuation (mark + 1) text = false :=
        code.isPunctuation_of_isIdentifier identifier text
      rw [noMark, noMark] at follows
      cases follows

/-- The mark in front of a type parameter listed before a method's name: no parenthesis stands between the two. -/
private theorem mark_of_listed {start middle : Nat} {extent : Extent}
    (opens : Opens code walk position start middle next extent) {name : Nat}
    (starts : code.startsTypeParameter name = true) (low : start < name) (high : name < position) :
    name - 1 < position ∧ code.isIdentifier (name - 1) = false ∧
      (∀ parenthesis, name - 1 < parenthesis → parenthesis < position →
        code.isPunctuation parenthesis "(" = false) ∧
      code.isPunctuation (position + 1) "(" = true ∧ position + 1 < next := by
  obtain ⟨parts, opener, read, _⟩ := opens.listed (by omega)
  obtain ⟨positive, noIdentifier⟩ := mark_of_startsTypeParameter starts
  refine ⟨by omega, noIdentifier, ?_, opener, read⟩
  intro parenthesis behind before
  have part := parts parenthesis (by omega) before
  rw [Bool.eq_false_iff]
  intro here
  rw [code.isTypePart_of_isPunctuation here] at part
  exact absurd part (by decide)

theorem Counted.filled {scope : ScopeId} {words : Nat → Prop} (counted : Counted code position walk)
    (ahead : position < next)
    (fills : Fills scope words (fun name => code.isIdentifier name = true ∧ position ≤ name ∧ name < next) walk after) :
    Counted code next after := by
  obtain ⟨added, list, ascending, facts⟩ := fills.declared
  have count := size_of_toList_eq list
  rw [← List.length_map Declaration.position] at count
  refine counted.extend (Nat.le_of_lt ahead) count (nodup_positions ascending) ?_ ?_
  · intro word member
    obtain ⟨declaration, inside, rfl⟩ := List.mem_map.mp member
    exact ⟨(facts declaration inside).2.2.2, Or.inl (facts declaration inside).2.1⟩
  · intro word member
    obtain ⟨declaration, inside, rfl⟩ := List.mem_map.mp member
    exact Or.inl (facts declaration inside).2.2.1

theorem Counted.opened {start middle : Nat} {extent : Extent} (counted : Counted code position walk)
    (opens : Opens code walk position start middle next extent)
    (opening : Opening code position start middle next extent walk after) : Counted code next after := by
  have ordered := opens.ordered
  obtain ⟨outer, listed, inner, list, ⟨outerAscending, outerFacts⟩, ⟨listedAscending, listedFacts⟩,
    ⟨innerAscending, innerFacts⟩⟩ := opening.declared
  -- names stand for themselves, but a listed type parameter was read before, so its mark stands for it
  have count : after.declarations.size = walk.declarations.size +
      (outer.map Declaration.position ++ listed.map (fun declaration : Declaration => declaration.position - 1) ++
        inner.map Declaration.position).length := by
    rw [size_of_toList_eq list]
    simp only [List.length_append, List.length_map]
  have outerPlaces : ∀ word ∈ outer.map Declaration.position,
      code.isIdentifier word = true ∧ position ≤ word ∧ word < middle := by
    intro word member
    obtain ⟨declaration, inside, rfl⟩ := List.mem_map.mp member
    exact (outerFacts declaration inside).2
  have innerPlaces : ∀ word ∈ inner.map Declaration.position,
      code.isIdentifier word = true ∧ middle ≤ word ∧ word < next := by
    intro word member
    obtain ⟨declaration, inside, rfl⟩ := List.mem_map.mp member
    exact (innerFacts declaration inside).2
  have marks : ∀ word ∈ listed.map (fun declaration : Declaration => declaration.position - 1),
      word < position ∧ code.isIdentifier word = false ∧
      (∀ parenthesis, word < parenthesis → parenthesis < position →
        code.isPunctuation parenthesis "(" = false) ∧
      code.isPunctuation (position + 1) "(" = true ∧ position + 1 < next := by
    intro word member
    obtain ⟨declaration, inside, rfl⟩ := List.mem_map.mp member
    obtain ⟨_, starts, low, high⟩ := listedFacts declaration inside
    exact mark_of_listed opens starts low high
  refine counted.extend (by omega) count ?_ ?_ ?_
  · refine List.nodup_append.mpr ⟨List.nodup_append.mpr ⟨nodup_positions outerAscending, ?_, ?_⟩,
      nodup_positions innerAscending, ?_⟩
    · refine List.pairwise_map.mpr (listedAscending.imp_of_mem ?_)
      intro left right leftMember rightMember before
      have leftMark := mark_of_startsTypeParameter (listedFacts left leftMember).2.1
      omega
    · intro one outside other list same
      have := (outerPlaces one outside).2.1
      have := (marks other list).1
      omega
    · intro one earlier other inside same
      have := (innerPlaces other inside).2.1
      rcases List.mem_append.mp earlier with outside | list
      · have := (outerPlaces one outside).2.2
        omega
      · have := (marks one list).1
        omega
  · intro word member
    rcases List.mem_append.mp member with earlier | inside
    · rcases List.mem_append.mp earlier with outside | list
      · have place := outerPlaces word outside
        exact ⟨by omega, Or.inl place.1⟩
      · obtain ⟨before, _, _, opener, read⟩ := marks word list
        exact ⟨by omega, Or.inr ⟨position + 1, by omega, read, opener⟩⟩
    · have place := innerPlaces word inside
      exact ⟨place.2.2, Or.inl place.1⟩
  · intro word member
    rcases List.mem_append.mp member with earlier | inside
    · rcases List.mem_append.mp earlier with outside | list
      · exact Or.inl (outerPlaces word outside).2.1
      · exact Or.inr ⟨(marks word list).2.1, (marks word list).2.2.1⟩
    · have place := innerPlaces word inside
      exact Or.inl (by omega)

theorem Counted.step (counted : Counted code position walk) (effect : Effect code walk position (after, next)) :
    Counted code next after := by
  cases effect with
  | stays stays fills => exact counted.filled stays.ahead fills
  | opens opens opening => exact counted.opened opens opening

/-! ### What a walk keeps -/

/-- Scopes form a tree numbered from the file down, and the words before the position have homes in it. -/
structure Formed (code : Code) (position : Nat) (walk : Walk) : Prop where
  sound : Sound code walk
  file : ∀ scope, walk.scopes[0]? = some scope → scope.parent = none ∧ scope.kind = .file ∧ scope.extent = none
  parents : ∀ scope entry, walk.scopes[scope]? = some entry → 0 < scope →
    ∃ parent, entry.parent = some parent ∧ parent < scope
  kinds : ∀ scope entry, walk.scopes[scope]? = some entry → 0 < scope → entry.kind ≠ .file
  count : walk.scopes.size ≤ min position code.size + 1
  homes : ∀ word, word < position → word < code.size →
    ∃ scope, walk.homeAt? word = some scope ∧ scope < walk.scopes.size
  placed : ∀ declaration ∈ walk.declarations, declaration.scope < walk.scopes.size
  counted : Counted code position walk
  registered : walk.Registered

theorem Formed.start (code : Code) : Formed code 0 (start code.layout) where
  sound := Sound.start code
  file scope found := by
    cases found
    exact ⟨rfl, rfl, rfl⟩
  parents scope entry found later := by
    have inside : scope < 1 := (Array.getElem?_eq_some_iff.mp found).1
    omega
  kinds scope entry found later := by
    have inside : scope < 1 := (Array.getElem?_eq_some_iff.mp found).1
    omega
  count := Nat.succ_le_succ (Nat.zero_le _)
  homes word impossible := absurd impossible (Nat.not_lt_zero _)
  placed declaration impossible := absurd impossible (Array.not_mem_empty declaration)
  counted := by
    refine ⟨[], rfl, List.nodup_nil, ?_⟩
    intro word impossible
    cases impossible
  registered := start_registered code.layout

theorem arrive_home (position : Nat) (sound : Sound code walk) {word : Nat} (inside : word < code.size) :
    (walk.arrive position).homeAt? word =
      if position = word then some (walk.arrive position).frame.scope else walk.homeAt? word := by
  have within : word < walk.layout.size := sound.layout ▸ inside
  rw [homeAt?_arrive]
  simp only [within, and_true]

/-- Every word up to the next position has a home after a step. -/
private theorem Formed.homes_step (formed : Formed code position walk)
    (effect : Effect code (walk.arrive position) position (after, next)) {word : Nat} (before : word < next)
    (inCode : word < code.size) :
    ∃ scope, after.homeAt? word = some scope ∧ scope < after.scopes.size := by
  have current : (walk.arrive position).frame.scope < after.scopes.size :=
    Nat.lt_of_lt_of_le (formed.sound.arrive position).frame effect.size_bounds.1
  have rehomed (moved : Rehomed (walk.arrive position) after word) :
      ∃ scope, after.homeAt? word = some scope ∧ scope < after.scopes.size := by
    obtain ⟨scope, same, place⟩ := moved
    refine ⟨scope, same, ?_⟩
    rcases place with here | ⟨opened, room⟩
    · rw [here]
      exact current
    · rw [opened]
      exact room
  by_cases behind : position < word
  · exact rehomed (effect.rehomed behind before inCode ((formed.sound.arrive position).layout ▸ inCode))
  · rcases effect.kept_or_rehomed word with kept | moved
    · rw [kept, arrive_home position formed.sound inCode]
      split
      · exact ⟨_, rfl, current⟩
      · obtain ⟨scope, found, room⟩ := formed.homes word (by omega) inCode
        exact ⟨scope, found, Nat.lt_of_lt_of_le room effect.size_bounds.1⟩
    · exact rehomed moved

theorem Formed.step (formed : Formed code position walk) (inside : position < code.size) :
    Formed code ((walk.arrive position).step code position).2 ((walk.arrive position).step code position).1 := by
  have sound := (formed.sound.arrive position).step position
  have current := (formed.sound.arrive position).frame
  have effect := step_effect (walk.arrive position) inside
  have registered : ((walk.arrive position).step code position).1.Registered :=
    step_registered (arrive_registered formed.registered position) position
  generalize (walk.arrive position).step code position = stepped at sound effect registered ⊢
  obtain ⟨after, next⟩ := stepped
  have ahead := effect.ahead
  have counted : Counted code position (walk.arrive position) := formed.counted
  have sizes : walk.scopes.size ≤ after.scopes.size ∧ after.scopes.size ≤ walk.scopes.size + 1 := effect.size_bounds
  exact
    { sound
      file := by
        intro scope found
        rcases effect.entry_cases found with former | ⟨impossible, _⟩
        · exact formed.file scope former
        · exact absurd impossible (Nat.ne_of_lt formed.sound.file)
      parents := by
        intro scope entry found later
        rcases effect.entry_cases found with former | ⟨here, parent, _⟩
        · exact formed.parents scope entry former later
        · exact ⟨_, parent, here ▸ current⟩
      kinds := by
        intro scope entry found later
        rcases effect.entry_cases found with former | ⟨_, _, noFile⟩
        · exact formed.kinds scope entry former later
        · exact noFile
      count := by
        have := formed.count
        change after.scopes.size ≤ min next code.size + 1
        omega
      homes := fun word before inCode => formed.homes_step effect before inCode
      placed := by
        intro declaration member
        rcases effect.placed member with former | here | ⟨opened, room⟩
        · exact Nat.lt_of_lt_of_le (formed.placed declaration former) sizes.1
        · rw [here]
          exact Nat.lt_of_lt_of_le current sizes.1
        · rw [opened]
          exact room
      counted := counted.step effect
      registered }

theorem run_formed (code : Code) : ∃ stop, code.size ≤ stop ∧ Formed code stop (run code (start code.layout) 0) :=
  run_visited (Formed code) (fun _ _ visits formed => formed.step visits.inside) (Formed.start code)

end Walk

namespace Outline

variable (outline : Outline)

/-! ### Listing declarations -/

section Registers

variable [registered : outline.Registered]

omit registered in
theorem mem_symbolsOf {scope : ScopeId} {name : String} {ids : List DeclarationId} :
    (name, ids) ∈ outline.symbolsOf scope ↔ ((scope, name), ids) ∈ outline.symbols := by
  unfold symbolsOf
  simp

theorem symbols_keys_nodup : (outline.symbols.map Prod.fst).Nodup := by
  rw [registered.symbols]
  exact Register.keys_ofEntries_nodup _

theorem symbolsOf_names_nodup (scope : ScopeId) : ((outline.symbolsOf scope).map (·.1)).Nodup := by
  unfold symbolsOf
  rw [List.map_filterMap]
  refine List.pairwise_filterMap.mpr ((List.pairwise_map.mp outline.symbols_keys_nodup).imp ?_)
  rintro ⟨⟨owner, name⟩, ids⟩ ⟨⟨otherOwner, otherName⟩, otherIds⟩ apart left here right there same
  simp only [Option.map_eq_some_iff, Option.ite_none_right_eq_some, Option.some.injEq] at here there
  obtain ⟨_, ⟨placed, rfl⟩, rfl⟩ := here
  obtain ⟨_, ⟨otherPlaced, rfl⟩, rfl⟩ := there
  exact apart (Prod.ext (placed.trans otherPlaced.symm) same)

/-- A declaration is listed for its own scope and name and nowhere else. -/
theorem mem_symbolsOf_iff {scope : ScopeId} {name : String} {id : DeclarationId} :
    (∃ ids, (name, ids) ∈ outline.symbolsOf scope ∧ id ∈ ids) ↔
      ∃ declaration, outline.declaration? id = some declaration ∧ declaration.scope = scope ∧
        declaration.name = name := by
  simp only [mem_symbolsOf]
  rw [← Register.mem_listed_iff outline.symbols_keys_nodup, listed_symbols, List.mem_filter, mem_declarationIds]
  cases outline.declaration? id with
  | none => simp
  | some declaration => simp

theorem symbolsOf_ascending {scope : ScopeId} {entry : String × List DeclarationId}
    (listed : entry ∈ outline.symbolsOf scope) : entry.2.Pairwise (· < ·) := by
  have same := Register.listed_of_mem outline.symbols_keys_nodup (outline.mem_symbolsOf.mp listed)
  rw [← same, listed_symbols]
  exact List.pairwise_lt_range.filter _

theorem declaration?_of_declarationAt? {position : Nat} {id : DeclarationId}
    (found : outline.declarationAt? position = some id) :
    ∃ declaration, outline.declaration? id = some declaration ∧ declaration.position = position := by
  rw [declarationAt?_eq] at found
  have here := List.find?_some found
  obtain ⟨declaration, declared, same⟩ := (Option.any_eq_true _ _).mp here
  exact ⟨declaration, declared, beq_iff_eq.mp same⟩

theorem declaration?_of_mem_named {entry : Nat × DeclarationId} (member : entry ∈ outline.named) :
    ∃ declaration, outline.declaration? entry.2 = some declaration ∧
      outline.layout.tokenIndex declaration.position = entry.1 := by
  rw [registered.named, List.mem_reverse] at member
  obtain ⟨declaration, declared, rfl⟩ := List.mem_map.mp member
  obtain ⟨id, found⟩ := Array.mem_iff_getElem?.mp (Array.mem_toList_iff.mp declared)
  refine ⟨declaration, ?_, rfl⟩
  rw [registered.declarationId id declaration found]
  exact found

theorem mem_childrenOf_iff {scope inner : ScopeId} :
    inner ∈ outline.childrenOf scope ↔ outline.parent? inner = some scope := by
  rw [childrenOf_eq]
  unfold scopeIds
  rw [List.mem_filter, List.mem_range, beq_iff_eq, and_iff_right_iff_imp]
  intro parent
  obtain ⟨entry, found, _⟩ := Option.bind_eq_some_iff.mp parent
  exact (Array.getElem?_eq_some_iff.mp found).1

theorem childrenOf_ascending (scope : ScopeId) : (outline.childrenOf scope).Pairwise (· < ·) := by
  rw [childrenOf_eq]
  exact List.pairwise_lt_range.filter _

end Registers

/-! ### The invariant -/

/-- The representation invariant of the outline of a token list. -/
structure WellFormed (tokens : List Token) (outline : Outline) : Prop where
  layout : outline.layout = Layout.ofTokens tokens
  /-- All numbers of scopes and declarations fit into 32 bits. -/
  numbers : outline.scopes.size ≤ UInt32.size ∧ outline.declarations.size ≤ UInt32.size
  /-- Scopes and declarations are numbered by their places, so there are no gaps. -/
  dense : (∀ id scope, outline.scope? id = some scope → scope.id = id) ∧
    ∀ id declaration, outline.declaration? id = some declaration → declaration.id = id
  file : 0 < outline.scopes.size ∧ outline.parent? 0 = none
  parents : ∀ scope, 0 < scope → scope < outline.scopes.size → ∃ parent < scope, outline.parent? scope = some parent
  children : ∀ scope, (outline.childrenOf scope).Pairwise (· < ·) ∧
    ∀ inner, inner ∈ outline.childrenOf scope ↔ outline.parent? inner = some scope
  ancestors : ∀ scope < outline.scopes.size, (outline.ancestors scope).getLast? = some 0
  /-- Every word was assigned to a scope. -/
  homes : ∀ position < (Token.words tokens).length,
    ∃ scope < outline.scopes.size, outline.homeAt? position = some scope
  tokenHomes : outline.scopesOfTokens.length = tokens.length ∧
    ∀ scope ∈ outline.scopesOfTokens, scope < outline.scopes.size
  declared : ∀ declaration ∈ outline.declarations, declaration.scope < outline.scopes.size ∧
    ∃ token, tokens[(Layout.ofTokens tokens).tokenIndex declaration.position]? = some token ∧
      token.kind = .identifier ∧ token.text = declaration.name ∧
      token.span = (Layout.ofTokens tokens).span declaration.position
  /-- A declaration is listed once, for its name in its scope. -/
  symbols : ∀ scope, ((outline.symbolsOf scope).map (·.1)).Nodup ∧
    (∀ entry ∈ outline.symbolsOf scope, entry.2.Pairwise (· < ·)) ∧
    ∀ name id, (∃ ids, (name, ids) ∈ outline.symbolsOf scope ∧ id ∈ ids) ↔
      ∃ declaration, outline.declaration? id = some declaration ∧ declaration.scope = scope ∧ declaration.name = name
  bodies : ∀ declaration ∈ outline.declarations, outline.Embodies declaration
  named : ∀ entry ∈ outline.named, ∃ declaration, outline.declaration? entry.2 = some declaration ∧
    outline.layout.tokenIndex declaration.position = entry.1
  /-- The word of a declared name leads to a declaration of that word, and every other word to none. -/
  names : ∀ position, (∀ id, outline.declarationAt? position = some id →
      ∃ declaration, outline.declaration? id = some declaration ∧ declaration.position = position) ∧
    ∀ declaration ∈ outline.declarations, declaration.position = position → outline.declarationAt? position ≠ none
  marks : ∀ index, index ∈ outline.typeTokens ∨ index ∈ outline.pathTokens →
    ∃ token, tokens[index]? = some token ∧ token.kind = .identifier

theorem ancestors_getLast? {outline : Outline} (file : outline.parent? 0 = none)
    (parents : ∀ scope, 0 < scope → scope < outline.scopes.size → ∃ parent < scope, outline.parent? scope = some parent)
    {scope : ScopeId} (inside : scope < outline.scopes.size) : (outline.ancestors scope).getLast? = some 0 := by
  induction scope using Nat.strongRecOn with
  | ind scope smaller =>
      rw [ancestors]
      by_cases first : scope = 0
      · rw [first, file]
        rfl
      · obtain ⟨parent, before, found⟩ := parents scope (Nat.pos_of_ne_zero first) inside
        have further := smaller parent before (Nat.lt_trans before inside)
        rw [found]
        dsimp only
        rw [if_pos before, List.getLast?_cons, further]
        rfl

end Outline

theorem Layout.getElem?_tokenIndex {tokens : List Token} {position : Nat} {token : Token}
    (found : (ofTokens tokens).token? position = some token) :
    tokens[(ofTokens tokens).tokenIndex position]? = some token := by
  obtain ⟨i, listed, here⟩ := Option.bind_eq_some_iff.mp found
  have index : (ofTokens tokens).tokenIndex position = i := by
    unfold tokenIndex
    rw [Array.getD_eq_getD_getElem?, listed, Option.getD_some]
  rw [index, ← here]
  exact List.getElem?_toArray.symm

theorem Code.token_of_isIdentifier {tokens : List Token} {code : Code} (paired : Code.ofTokens tokens = .ok code)
    {position : Nat} (identifier : code.isIdentifier position = true) :
    ∃ token, tokens[(Layout.ofTokens tokens).tokenIndex position]? = some token ∧ token.kind = .identifier ∧
      token.text = code.text position ∧ token.span = (Layout.ofTokens tokens).span position := by
  unfold isIdentifier at identifier
  unfold text
  rw [Code.word?_ofTokens paired] at identifier ⊢
  cases found : (Layout.ofTokens tokens).token? position with
  | none =>
      rw [found] at identifier
      cases identifier
  | some token =>
      rw [found] at identifier
      exact ⟨token, Layout.getElem?_tokenIndex found, beq_iff_eq.mp identifier, rfl,
        (Layout.span_of_token? found).symm⟩

/-- Words are at home in the outline, and nothing else is. -/
theorem Outline.homeAt?_ofCode (code : Code) (position : Nat) :
    (ofCode code).homeAt? position = if position < code.size then some ((ofCode code).home position) else none := by
  split
  · rename_i inside
    obtain ⟨stop, passed, formed⟩ := Walk.run_formed code
    obtain ⟨scope, found, _⟩ := formed.homes position (Nat.lt_of_lt_of_le inside passed) inside
    unfold home
    rw [show (ofCode code).homeAt? position = some scope from found, Option.getD_some]
  · rename_i outside
    rw [Option.eq_none_iff_forall_ne_some]
    intro scope found
    have inside := lt_size_of_homeAt? _ found
    rw [ofCode_layout] at inside
    exact outside inside

theorem Outline.getElem?_scopesOfTokens_ofCode {code : Code} {position : Nat} (inside : position < code.size) :
    (ofCode code).scopesOfTokens[code.layout.tokenIndex position]? = some ((ofCode code).home position) := by
  have found := (homeAt?_ofCode code position).trans (if_pos inside)
  have layout := ofCode_layout code
  exact layout ▸ getElem?_scopesOfTokens _ (layout ▸ inside) found

/-- No token is empty, so there are no more tokens than bytes. -/
theorem Token.length_le_of_ofText {source : String} {tokens : List Token} (split : Token.ofText source = .ok tokens) :
    tokens.length ≤ source.utf8ByteSize := by
  have covers := Token.ofText_covers split
  have tiled := Token.ofText_tiled split
  have room : ∀ i, ∀ inside : i < tokens.length, i + 1 ≤ (tokens[i]).span.stop := by
    intro i
    induction i with
    | zero =>
        intro inside
        exact Nat.lt_of_le_of_lt (Nat.zero_le _) (tiled.proper _ (List.getElem_mem inside))
    | succ i ih =>
        intro inside
        have before := ih (Nat.lt_of_succ_lt inside)
        have apart := List.pairwise_iff_getElem.mp tiled.ordered i (i + 1) (Nat.lt_of_succ_lt inside) inside
          (Nat.lt_succ_self i)
        have proper := tiled.proper _ (List.getElem_mem inside)
        omega
  cases last : tokens.getLast? with
  | none =>
      rw [List.getLast?_eq_none_iff.mp last]
      exact Nat.zero_le _
  | some token =>
      have ends := covers.ends
      rw [last] at ends
      rw [List.getLast?_eq_getElem?] at last
      obtain ⟨inside, same⟩ := List.getElem?_eq_some_iff.mp last
      have bound := room _ inside
      rw [same] at bound
      dsimp only [Option.elim] at ends
      omega

/-- The outline of a text that splits into balanced tokens has the invariant, and drawing it up goes forward with every
step. -/
theorem outline_wellFormed {source : String} {tokens : List Token} {code : Code}
    (short : source.utf8ByteSize < UInt32.size) (split : Token.ofText source = .ok tokens)
    (paired : Code.ofTokens tokens = .ok code) :
    (∀ (walk : Walk) (position : Nat), position < code.size → position < (walk.step code position).2) ∧
      Outline.WellFormed tokens (Outline.ofCode code) := by
  refine ⟨fun walk position inside => Walk.step_advances walk inside, ?_⟩
  have size : (Token.words tokens).length = code.size := by
    rw [Code.size_ofTokens paired, Token.words_eq_significant, List.length_map]
  have words : code.size ≤ source.utf8ByteSize := by
    rw [Code.size_ofTokens paired]
    exact Nat.le_trans (List.length_filter_le _ _) (Token.length_le_of_ofText split)
  obtain ⟨stop, passed, formed⟩ := Walk.run_formed code
  have registered : (Outline.ofCode code).Registered := formed.registered
  have parent {scope : ScopeId} {entry : Scope} (found : (Outline.ofCode code).scopes[scope]? = some entry) :
      (Outline.ofCode code).parent? scope = entry.parent := by
    unfold Outline.parent? Outline.scope?
    rw [found, Option.bind_some]
  have first := Array.getElem?_eq_getElem formed.sound.file
  have file : (Outline.ofCode code).parent? 0 = none := (parent first).trans (formed.file _ first).1
  have parents : ∀ scope, 0 < scope → scope < (Outline.ofCode code).scopes.size →
      ∃ parent < scope, (Outline.ofCode code).parent? scope = some parent := by
    intro scope later inside
    have found := Array.getElem?_eq_getElem inside
    obtain ⟨outer, recorded, before⟩ := formed.parents scope _ found later
    exact ⟨outer, before, (parent found).trans recorded⟩
  have homes : ∀ position < code.size, ∃ scope < (Outline.ofCode code).scopes.size,
      (Outline.ofCode code).homeAt? position = some scope := by
    intro position inside
    obtain ⟨scope, found, room⟩ := formed.homes position (by omega) inside
    exact ⟨scope, room, found⟩
  have scopeCount : (Outline.ofCode code).scopes.size ≤ min stop code.size + 1 := formed.count
  have declarationCount : (Outline.ofCode code).declarations.size ≤ code.size := formed.counted.size_le
  have layout : (Outline.ofCode code).layout = Layout.ofTokens tokens :=
    formed.sound.layout.trans (Code.ofTokens_layout paired)
  have layoutSize : (Outline.ofCode code).layout.size = code.size := congrArg Layout.size formed.sound.layout
  exact
    { layout
      numbers := ⟨by omega, by omega⟩
      dense := ⟨registered.scopeId, registered.declarationId⟩
      file := ⟨formed.sound.file, file⟩
      parents
      children := fun scope => ⟨Outline.childrenOf_ascending _ scope, fun inner => Outline.mem_childrenOf_iff _⟩
      ancestors := fun scope inside => Outline.ancestors_getLast? file parents inside
      homes := fun position inside => homes position (size ▸ inside)
      tokenHomes := by
        refine ⟨?_, ?_⟩
        · rw [Outline.length_scopesOfTokens, layout]
          exact List.size_toArray
        · intro scope member
          rcases Outline.mem_settled _ member with outermost | ⟨index, found⟩
          · exact outermost ▸ formed.sound.file
          · obtain ⟨position, inside, _, here⟩ := Outline.homeAt?_of_lookup _ found
            obtain ⟨home, room, known⟩ := homes position (layoutSize ▸ inside)
            exact Option.some.inj (known.symm.trans here) ▸ room
      declared := by
        intro declaration member
        obtain ⟨identifier, named⟩ := Walk.ofCode_named code declaration member
        obtain ⟨token, found, kind, text, span⟩ := Code.token_of_isIdentifier paired identifier
        exact ⟨formed.placed declaration member, token, found, kind, text.trans named.symm, span⟩
      symbols := fun scope => ⟨Outline.symbolsOf_names_nodup _ scope, fun entry => Outline.symbolsOf_ascending _,
        fun name id => Outline.mem_symbolsOf_iff _⟩
      bodies := Outline.ofCode_embodies code
      named := fun entry => Outline.declaration?_of_mem_named _
      names := by
        refine fun position => ⟨fun id found => Outline.declaration?_of_declarationAt? _ found, ?_⟩
        intro declaration member here
        obtain ⟨id, found⟩ := Array.mem_iff_getElem?.mp member
        exact Outline.declarationAt?_ne_none _ found here
      marks := by
        intro index marked
        obtain ⟨word, identifier, here⟩ := Walk.run_marksIdentifiers code index marked
        obtain ⟨token, found, kind, _⟩ := Code.token_of_isIdentifier paired identifier
        rw [show (Walk.run code (Walk.start code.layout) 0).layout = Layout.ofTokens tokens from layout] at here
        exact ⟨token, here ▸ found, kind⟩ }

/-- A generic class with a generic method: four scopes, and a type parameter each of the class and the method. -/
theorem outline_wellFormed_generic :
    ∃ tokens code, Token.ofText "class A<T> { <U> U f(T a) { { } return null; } }" = .ok tokens ∧
      Code.ofTokens tokens = .ok code ∧
      ((Outline.ofCode code).scopes.toList.map fun scope => (scope.name, scope.parent)) =
        [(none, none), (some "A", some 0), (some "f", some 1), (none, some 2)] ∧
      ((Outline.ofCode code).declarations.toList.map fun declaration => (declaration.name, declaration.scope)) =
        [("A", 0), ("T", 1), ("f", 1), ("U", 2), ("a", 2)] ∧
      Outline.WellFormed tokens (Outline.ofCode code) := by
  have computed :
      ((Token.ofText "class A<T> { <U> U f(T a) { { } return null; } }").toOption.any fun tokens =>
        (Code.ofTokens tokens).toOption.any fun code =>
          decide (((Outline.ofCode code).scopes.toList.map fun scope => (scope.name, scope.parent)) =
            [(none, none), (some "A", some 0), (some "f", some 1), (none, some 2)] ∧
          ((Outline.ofCode code).declarations.toList.map fun declaration => (declaration.name, declaration.scope)) =
            [("A", 0), ("T", 1), ("f", 1), ("U", 2), ("a", 2)])) = true := by
    decide +kernel
  obtain ⟨tokens, split, further⟩ := exists_ok_of_any computed
  obtain ⟨code, paired, read⟩ := exists_ok_of_any further
  obtain ⟨scopes, declarations⟩ := of_decide_eq_true read
  exact ⟨tokens, code, split, paired, scopes, declarations, (outline_wellFormed (by decide) split paired).2⟩

end ScopedRename
