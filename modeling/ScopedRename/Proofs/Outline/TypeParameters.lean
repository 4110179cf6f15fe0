import ScopedRename.Proofs.Outline.Methods

/-!
Lists of type parameters. The header of a type declares the names at the first level of its list. A method looks back at
the list in front of its type and declares every name behind an angle bracket or a comma, at any level. Main statement:
the two rules agree on a method exactly if no name inside a bound of its list stands where a type parameter could start,
and all of them were known as types before.
-/

namespace ScopedRename

namespace Code

variable (code : Code)

def angleStep (depth word : Nat) : Nat :=
  if code.isPunctuation word "<" then depth + 1
  else if code.isPunctuation word ">" then depth - 1
  else depth

def angleDepthFrom (depth start position : Nat) : Nat :=
  (List.range' start (position - start)).foldl code.angleStep depth

/-- The level of a position in the list that opens at `start`: one for the list's own. -/
def angleDepth (start position : Nat) : Nat := code.angleDepthFrom 0 start position

/-- A type parameter of the list that opens at `start`: a name directly behind its bracket or a comma of its own. -/
def isListed (start word : Nat) : Bool := code.startsTypeParameter word && code.angleDepth start word == 1

variable {code} {depth start position word : Nat}

theorem angleDepthFrom_self (depth position : Nat) : code.angleDepthFrom depth position position = depth := by
  unfold angleDepthFrom
  rw [Nat.sub_self]
  rfl

theorem angleDepthFrom_of_lt (before : start < position) :
    code.angleDepthFrom depth start position = code.angleDepthFrom (code.angleStep depth start) (start + 1) position := by
  have size : position - start = position - (start + 1) + 1 := by omega
  unfold angleDepthFrom
  rw [size, List.range'_succ, List.foldl_cons]

theorem angleDepth_succ (ordered : start ≤ position) :
    code.angleDepth start (position + 1) = code.angleStep (code.angleDepth start position) position := by
  have size : position + 1 - start = position - start + 1 := by omega
  have last : start + (position - start) = position := by omega
  unfold angleDepth angleDepthFrom
  rw [size, List.range'_1_concat, List.foldl_append, last]
  rfl

private theorem not_startsTypeParameter {mark : String} (here : code.isPunctuation word mark = true) :
    code.startsTypeParameter word = false := by
  rw [Bool.eq_false_iff]
  intro starts
  rw [code.isPunctuation_of_isIdentifier (Bool.and_eq_true_iff.mp starts).1] at here
  cases here

/-- The header of a type lists the names at the first level of its list. -/
theorem mem_typeParametersFrom_iff {close : Nat} :
    word ∈ code.typeParametersFrom close depth position ↔
      (position ≤ word ∧ word ≤ close) ∧ code.startsTypeParameter word = true ∧
        code.angleDepthFrom depth position word = 1 := by
  -- the first word is a parameter, or the words behind it decide
  have split {depth position : Nat} (inside : position ≤ close) :
      (position ≤ word ∧ word ≤ close) ∧ code.startsTypeParameter word = true ∧
          code.angleDepthFrom depth position word = 1 ↔
        word = position ∧ code.startsTypeParameter position = true ∧ depth = 1 ∨
          (position + 1 ≤ word ∧ word ≤ close) ∧ code.startsTypeParameter word = true ∧
            code.angleDepthFrom (code.angleStep depth position) (position + 1) word = 1 := by
    rcases Nat.lt_trichotomy word position with before | rfl | behind
    · exact iff_of_false (by omega) (by omega)
    · rw [angleDepthFrom_self]
      simp [inside]
    · rw [angleDepthFrom_of_lt behind, or_iff_right (by omega)]
      refine and_congr_left fun _ => ?_
      omega
  fun_induction code.typeParametersFrom close depth position with
  | case1 depth position inside opens ih =>
      have step : code.angleStep depth position = depth + 1 := if_pos opens
      rw [split inside, not_startsTypeParameter opens, step]
      simpa using ih
  | case2 depth position inside noOpen closes ih =>
      have step : code.angleStep depth position = depth - 1 := (if_neg noOpen).trans (if_pos closes)
      rw [split inside, not_startsTypeParameter closes, step]
      simpa using ih
  | case3 depth position inside noOpen noClose starts ih =>
      have step : code.angleStep depth position = depth := (if_neg noOpen).trans (if_neg noClose)
      rw [Bool.and_eq_true, beq_iff_eq] at starts
      rw [split inside, step, List.mem_cons]
      exact or_congr ⟨fun here => ⟨here, starts.2, starts.1⟩, And.left⟩ ih
  | case4 depth position inside noOpen noClose noStart ih =>
      have step : code.angleStep depth position = depth := (if_neg noOpen).trans (if_neg noClose)
      rw [Bool.and_eq_true, beq_iff_eq] at noStart
      rw [split inside, step, or_iff_right fun here => noStart ⟨here.2.2, here.2.1⟩]
      exact ih
  | case5 depth position outside => exact iff_of_false List.not_mem_nil (by omega)

/-- From an opening bracket up to the one that closes it, at least that bracket is open. -/
theorem angleOpenFrom_depth (pending : 0 < depth) (found : code.angleOpenFrom depth position = some start) :
    code.angleDepth start (position + 1) = depth ∧
      ∀ word, start < word → word ≤ position → 0 < code.angleDepth start word := by
  -- the word at the position is stepped over, with `inner` brackets open in front of it
  have passes {position inner : Nat} (low : start ≤ position) (positive : 0 < inner)
      (ih : code.angleDepth start (position + 1) = inner ∧
        ∀ word, start < word → word ≤ position → 0 < code.angleDepth start word) :
      code.angleDepth start (position + 2) = code.angleStep inner (position + 1) ∧
        ∀ word, start < word → word ≤ position + 1 → 0 < code.angleDepth start word := by
    refine ⟨by rw [angleDepth_succ (by omega), ih.1], fun word behind before => ?_⟩
    rcases Nat.eq_or_lt_of_le before with rfl | earlier
    · rw [ih.1]
      exact positive
    · exact ih.2 word behind (by omega)
  have opened {start : Nat} (opens : code.isPunctuation start "<" = true) : code.angleDepth start (start + 1) = 1 := by
    rw [angleDepth_succ (Nat.le_refl _)]
    unfold angleDepth angleStep
    rw [if_pos opens, angleDepthFrom_self]
  have low := (code.angleOpenFrom_opens found).1
  fun_induction code.angleOpenFrom depth position with
  | case1 depth opens =>
      cases found
      rw [Bool.and_eq_true, beq_iff_eq] at opens
      exact ⟨(opened opens.1).trans opens.2.symm, by omega⟩
  | case2 => cases found
  | case3 => cases found
  | case4 depth position part closes ih =>
      have before := (code.angleOpenFrom_opens found).1
      have step : code.angleStep (depth + 1) (position + 1) = depth := by
        unfold angleStep
        rw [code.isPunctuation_of_ne closes (by decide), if_neg Bool.false_ne_true, if_pos closes]
        omega
      have passed := passes before (Nat.succ_pos depth) (ih (Nat.succ_pos depth) found before)
      rw [step] at passed
      exact passed
  | case5 depth position part noClose opens last =>
      cases found
      rw [beq_iff_eq] at last
      exact ⟨(opened opens).trans last.symm, by omega⟩
  | case6 depth position part noClose opens notLast ih =>
      rw [beq_iff_eq] at notLast
      have before := (code.angleOpenFrom_opens found).1
      have step : code.angleStep (depth - 1) (position + 1) = depth := by
        unfold angleStep
        rw [if_pos opens]
        omega
      have passed := passes before (by omega) (ih (by omega) found before)
      rw [step] at passed
      exact passed
  | case7 depth position part noClose noOpen ih =>
      have before := (code.angleOpenFrom_opens found).1
      have step : code.angleStep depth (position + 1) = depth := (if_neg noOpen).trans (if_neg noClose)
      have passed := passes before pending (ih pending found before)
      rw [step] at passed
      exact passed

theorem methodTypeParameters?_brackets {run : TypeRun} {stop : Nat}
    (list : code.methodTypeParameters? run = some (start, stop)) :
    code.isPunctuation start "<" = true ∧ code.isPunctuation stop ">" = true ∧ code.angleOpen? stop = some start := by
  unfold methodTypeParameters? at list
  split at list
  · cases list
  · split at list
    · rename_i closes
      obtain ⟨opened, found, same⟩ := Option.map_eq_some_iff.mp list
      cases same
      exact ⟨(code.angleOpenFrom_opens found).2, closes, found⟩
    · cases list

theorem methodTypeParameters?_depth {run : TypeRun} {stop : Nat}
    (list : code.methodTypeParameters? run = some (start, stop)) :
    ∀ word, start < word → word < stop → 0 < code.angleDepth start word := by
  intro word behind before
  obtain ⟨_, closes, found⟩ := methodTypeParameters?_brackets list
  obtain ⟨last, rfl⟩ : ∃ last, stop = last + 1 := ⟨stop - 1, by omega⟩
  unfold angleOpen? angleOpenFrom at found
  rw [if_pos closes] at found
  split at found
  · cases found
  · exact (angleOpenFrom_depth Nat.one_pos found).2 word behind (by omega)

theorem mem_listedParameters {run : TypeRun} {stop : Nat} (list : code.methodTypeParameters? run = some (start, stop)) :
    word ∈ code.listedParameters run ↔ (start < word ∧ word < stop) ∧ code.startsTypeParameter word = true := by
  unfold listedParameters
  rw [list, Option.elim_some, List.mem_filter, code.mem_identifiersIn]
  constructor
  · rintro ⟨⟨bounds, _⟩, starts⟩
    exact ⟨bounds, starts⟩
  · rintro ⟨bounds, starts⟩
    exact ⟨⟨bounds, (Bool.and_eq_true_iff.mp starts).1⟩, starts⟩

/-- The header of a type with this list would declare the names at its first level. -/
theorem mem_typeParametersFrom_list {run : TypeRun} {stop : Nat}
    (list : code.methodTypeParameters? run = some (start, stop)) :
    word ∈ code.typeParametersFrom stop 0 start ↔ (start < word ∧ word < stop) ∧ code.isListed start word = true := by
  obtain ⟨opens, closes, _⟩ := methodTypeParameters?_brackets list
  unfold isListed angleDepth
  rw [mem_typeParametersFrom_iff, Bool.and_eq_true, beq_iff_eq]
  refine and_congr_left fun ⟨starts, _⟩ => ⟨fun bounds => ⟨?_, ?_⟩, fun bounds => ⟨by omega, by omega⟩⟩
  · refine Nat.lt_of_le_of_ne bounds.1 ?_
    rintro rfl
    rw [not_startsTypeParameter opens] at starts
    cases starts
  · refine Nat.lt_of_le_of_ne bounds.2 ?_
    rintro rfl
    rw [not_startsTypeParameter closes] at starts
    cases starts

end Code

namespace Outline

/-- The outline has the type parameters of the list from `start` to `stop` in front of the method named at `position`:
it declares the names at the first level of the list in the method's scope, and the names inside bounds are types. -/
structure HasParameters (code : Code) (outline : Outline) (scope : ScopeId) (start stop position : Nat) : Prop where
  declares : ∀ word < position,
    (∃ declaration ∈ outline.declarations,
        declaration.kind = .type ∧ declaration.scope = scope ∧ declaration.position = word) ↔
      (start < word ∧ word < stop) ∧ code.isListed start word = true
  refers : ∀ word, start < word → word < stop → code.isIdentifier word = true → 1 < code.angleDepth start word →
    outline.isTypeWord word = true ∧ word ∉ outline.names

end Outline

namespace Walk

variable {code : Code} {position start stop word close : Nat} {run : TypeRun} {later : position + 1 < close}

/-- What a method does to the words of the list in front of its type: it declares those that start a type parameter, and
leaves the others as they were. -/
theorem methodDeclaration_list (state : Walk) (typed : code.typeBefore? position = some run)
    (closed : code.close? (position + 1) = some ⟨close, later⟩)
    (list : code.methodTypeParameters? run = some (start, stop)) (behind : start < word) (before : word < stop) :
    ((state.methodDeclaration code position (some run)).1.isTypeWord word = true ↔
        code.startsTypeParameter word = false ∧ state.isTypeWord word = true) ∧
      (word ∈ (state.methodDeclaration code position (some run)).1.names ↔
        code.startsTypeParameter word = true ∨ word ∈ state.names) := by
  have casts := methodDeclaration_casts code state typed closed
  have stops := code.methodTypeParameters?_stop list
  have bounds := code.methodTypeParameters?_bounds typed list
  have listed : word ∈ code.listedParameters run ↔ code.startsTypeParameter word = true := by
    rw [Code.mem_listedParameters list, and_iff_right ⟨behind, before⟩]
  have untyped : word ∉ (code.methodHeader false (close + 1)).1 ++ run.identifiers ++
      code.parameterTypes (position + 1) := by
    intro member
    rcases List.mem_append.mp member with early | parameter
    · rcases List.mem_append.mp early with thrown | type
      · have := code.mem_methodHeader thrown
        omega
      · have := code.typeBefore?_identifiers typed type
        omega
    · have := Code.lt_parameterTypes parameter
      omega
  have unnamed : word ∉ code.parameterNames (position + 1) := by
    intro member
    have := Code.lt_parameterNames member
    omega
  constructor
  · rw [casts.marked, listed, Bool.not_eq_true, or_iff_left fun typed => untyped typed.1]
  · rw [casts.declared, List.mem_append, List.mem_cons, List.mem_append, listed]
    have other : word ≠ position := by omega
    simp [other, unnamed, or_comm]

end Walk

/-- The type parameters of a method are those that the header of a type with the same list declares if and only if no name
inside a bound stands where a type parameter could start, and all of them were known as types and not as names before. -/
theorem type_parameters_agree_iff {tokens : List Token} {code : Code} {state : Walk} {position start stop : Nat}
    {run : TypeRun} (paired : Code.ofTokens tokens = .ok code)
    (visits : Walk.Visits code (Walk.start code.layout) 0 state position)
    (reads : state.step code position = state.methodDeclaration code position (some run))
    (typed : code.typeBefore? position = some run) (opens : code.isPunctuation (position + 1) "(" = true)
    (list : code.methodTypeParameters? run = some (start, stop)) :
    (∀ word, word ∈ code.typeParametersFrom stop 0 start ↔
        (start < word ∧ word < stop) ∧ code.isListed start word = true) ∧
      (∃ extent, extent.first = start ∧ (Outline.ofCode code).scope? state.scopes.size =
        some ⟨.method, some (code.text position), some state.frame.scope, some extent, [], state.scopes.size⟩) ∧
      ((Outline.ofCode code).HasParameters code state.scopes.size start stop position ↔
        ∀ word, start < word → word < stop → code.isIdentifier word = true → 1 < code.angleDepth start word →
          code.startsTypeParameter word = false ∧ state.isTypeWord word = true ∧ word ∉ state.names) := by
  have balanced := Code.ofTokens_balanced paired
  obtain ⟨close, later, closed⟩ := balanced.close_of_isPunctuation opens (by decide)
  have bounds := code.methodTypeParameters?_bounds typed list
  have body := code.le_methodBody close
  have first : (Walk.methodExtent code position (some run) close).first = start := by
    unfold Walk.methodExtent
    rw [Option.bind_some, list]
    rfl
  have settles (word : Nat) (before : word < position) :
      Walk.Settles word (state.methodDeclaration code position (some run)).1 (Walk.run code (Walk.start code.layout) 0) :=
    visits.settles_method reads closed (.of_isPunctuation opens (by decide) (by omega) (by omega))
  have marks (word : Nat) (behind : start < word) (before : word < stop) :
      (Outline.ofCode code).isTypeWord word = true ∧ word ∉ (Outline.ofCode code).names ↔
        code.startsTypeParameter word = false ∧ state.isTypeWord word = true ∧ word ∉ state.names := by
    have settled := settles word (by omega)
    obtain ⟨marked, named⟩ := Walk.methodDeclaration_list state typed closed list behind before
    unfold Outline.ofCode
    rw [settled.marked, settled.mem_names, marked, named]
    cases code.startsTypeParameter word <;> simp
  have declared (word : Nat) (before : word < position) :
      (.type, state.scopes.size, word) ∈ (Outline.ofCode code).entries ↔ word ∈ code.listedParameters run := by
    refine (settles word before).mem_entries.trans ?_
    rw [(Walk.methodDeclaration_adds state (some run) closed).2, List.mem_append,
      or_iff_right (visits.not_mem_entries .type word)]
    simp
  refine ⟨fun word => Code.mem_typeParametersFrom_list list,
    ⟨_, first, visits.scope_method reads closed⟩,
    ⟨fun has word behind before identifier deep => ?_, fun nested => ⟨?_, ?_⟩⟩⟩
  · exact (marks word behind before).mp (has.refers word behind before identifier deep)
  · intro word before
    have settled := settles word before
    rw [← Outline.mem_entries, declared word before, Code.mem_listedParameters list]
    refine and_congr_right fun inside => ⟨fun starts => ?_, fun listed => (Bool.and_eq_true_iff.mp listed).1⟩
    have level := Code.methodTypeParameters?_depth list word inside.1 inside.2
    have identifier := (Bool.and_eq_true_iff.mp starts).1
    have shallow : ¬1 < code.angleDepth start word := fun deep =>
      absurd (starts.symm.trans (nested word inside.1 inside.2 identifier deep).1) (by decide)
    unfold Code.isListed
    rw [starts, Bool.true_and, beq_iff_eq]
    omega
  · intro word behind before identifier deep
    exact (marks word behind before).mpr (nested word behind before identifier deep)

/-- A list of two type parameters, one of them with two bounds. -/
theorem type_parameters_agree_iff_bounds :
    ∃ tokens code state run start stop,
      Token.ofText "class A { <T extends B & C, U> T f(U x) { } }" = .ok tokens ∧ Code.ofTokens tokens = .ok code ∧
      Walk.Visits code (Walk.start code.layout) 0 state 13 ∧
      state.step code 13 = state.methodDeclaration code 13 (some run) ∧ code.typeBefore? 13 = some run ∧
      code.isPunctuation 14 "(" = true ∧ code.methodTypeParameters? run = some (start, stop) ∧
      (Outline.ofCode code).HasParameters code state.scopes.size start stop 13 := by
  have computed : ((Token.ofText "class A { <T extends B & C, U> T f(U x) { } }").toOption.any fun tokens =>
      (Code.ofTokens tokens).toOption.any fun code => (Walk.visited code (Walk.start code.layout) 0).any fun entry =>
        (code.typeBefore? 13).any fun run => (code.methodTypeParameters? run).any fun list =>
          decide (entry.2 = 13 ∧ entry.1.step code 13 = entry.1.methodDeclaration code 13 (some run) ∧
            code.isPunctuation 14 "(" = true ∧ ∀ word < list.2, ¬1 < code.angleDepth list.1 word)) = true := by
    decide +kernel
  obtain ⟨tokens, split, further⟩ := exists_ok_of_any computed
  obtain ⟨code, paired, walked⟩ := exists_ok_of_any further
  obtain ⟨⟨state, position⟩, member, read⟩ := List.any_eq_true.mp walked
  obtain ⟨run, typed, listed⟩ := (Option.any_eq_true _ _).mp read
  obtain ⟨⟨start, stop⟩, list, facts⟩ := (Option.any_eq_true _ _).mp listed
  obtain ⟨rfl, reads, opens, shallow⟩ := of_decide_eq_true facts
  have visits := Walk.mem_visited.mp member
  refine ⟨tokens, code, state, run, start, stop, split, paired, visits, reads, typed, opens, list, ?_⟩
  refine (type_parameters_agree_iff paired visits reads typed opens list).2.2.mpr ?_
  intro word _ before _ deep
  exact absurd deep (shallow word before)

/-- The argument of a bound is declared as a type parameter of its own. -/
theorem type_argument_declared :
    ∃ tokens code state run start stop,
      Token.ofText "class A { <T extends Comparable<T>> T f(T x) { return x; } }" = .ok tokens ∧
      Code.ofTokens tokens = .ok code ∧ Walk.Visits code (Walk.start code.layout) 0 state 12 ∧
      state.step code 12 = state.methodDeclaration code 12 (some run) ∧ code.typeBefore? 12 = some run ∧
      code.isPunctuation 13 "(" = true ∧ code.methodTypeParameters? run = some (start, stop) ∧
      ¬(Outline.ofCode code).HasParameters code state.scopes.size start stop 12 := by
  have computed :
      ((Token.ofText "class A { <T extends Comparable<T>> T f(T x) { return x; } }").toOption.any fun tokens =>
        (Code.ofTokens tokens).toOption.any fun code => (Walk.visited code (Walk.start code.layout) 0).any fun entry =>
          (code.typeBefore? 12).any fun run => (code.methodTypeParameters? run).any fun list =>
            decide (entry.2 = 12 ∧ entry.1.step code 12 = entry.1.methodDeclaration code 12 (some run) ∧
              code.isPunctuation 13 "(" = true ∧
              (.type, entry.1.scopes.size, 8) ∈ (Outline.ofCode code).entries ∧
              code.isListed list.1 8 = false)) = true := by
    decide +kernel
  obtain ⟨tokens, split, further⟩ := exists_ok_of_any computed
  obtain ⟨code, paired, walked⟩ := exists_ok_of_any further
  obtain ⟨⟨state, position⟩, member, read⟩ := List.any_eq_true.mp walked
  obtain ⟨run, typed, listed⟩ := (Option.any_eq_true _ _).mp read
  obtain ⟨⟨start, stop⟩, list, facts⟩ := (Option.any_eq_true _ _).mp listed
  obtain ⟨rfl, reads, opens, declared, unlisted⟩ := of_decide_eq_true facts
  refine ⟨tokens, code, state, run, start, stop, split, paired, Walk.mem_visited.mp member, reads, typed, opens, list, ?_⟩
  intro has
  have rule := ((has.declares 8 (by decide)).mp (Outline.mem_entries.mp declared)).2
  rw [unlisted] at rule
  cases rule

end ScopedRename
