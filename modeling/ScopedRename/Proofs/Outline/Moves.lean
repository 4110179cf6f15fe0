import ScopedRename.Outline.Build
import ScopedRename.Proofs.Code.Reach
import ScopedRename.Proofs.Code.Statements

/-!
What one step of a walk reads. A step asks for the kind of its word, then for its text, then for what stands around it;
here these questions are taken apart, once. Main statement: every step makes one of the moves, and a move records the
answers that led to it.
-/

namespace ScopedRename

namespace Code

variable (code : Code)

def opensRound (position : Nat) : Bool := code.isPunctuation position "(" || code.isPunctuation position "["

def closesRound (position : Nat) : Bool := code.isPunctuation position ")" || code.isPunctuation position "]"

variable {code} {position : Nat}

theorem opensRound_of_isOpener (other : code.isOpener position = false) : code.opensRound position = false := by
  rw [Bool.eq_false_iff]
  intro opens
  unfold isOpener at other
  rcases Bool.or_eq_true_iff.mp opens with round | square
  · rw [any_of_isPunctuation round] at other
    exact absurd other (by decide)
  · rw [any_of_isPunctuation square] at other
    exact absurd other (by decide)

theorem opensRound_of_isPunctuation {mark : String} (here : code.isPunctuation position mark = true)
    (noRound : mark ≠ "(") (noSquare : mark ≠ "[") : code.opensRound position = false := by
  unfold opensRound
  rw [code.isPunctuation_of_ne here noRound, code.isPunctuation_of_ne here noSquare]
  rfl

theorem closesRound_of_isPunctuation {mark : String} (here : code.isPunctuation position mark = true)
    (noRound : mark ≠ ")") (noSquare : mark ≠ "]") : code.closesRound position = false := by
  unfold closesRound
  rw [code.isPunctuation_of_ne here noRound, code.isPunctuation_of_ne here noSquare]
  rfl

/-- A word that is no mark is no delimiter. -/
theorem delimiters_of_other (other : ∀ mark, code.isPunctuation position mark = false) :
    code.closesRound position = false ∧ code.isOpener position = false := by
  constructor
  · unfold closesRound
    rw [other, other]
    rfl
  · rw [Bool.eq_false_iff]
    intro opens
    unfold isOpener at opens
    obtain ⟨word, found, delimiter⟩ := (Option.any_eq_true _ _).mp opens
    have mark := other word.text
    unfold isPunctuation Lexeme.isPunctuation at mark
    unfold Lexeme.opens? at delimiter
    split at delimiter
    · cases delimiter
    · rename_i kind
      rw [found, Option.any_some, beq_self_eq_true, Bool.and_true] at mark
      rw [bne, mark] at kind
      exact kind rfl

end Code

namespace Walk

variable {code : Code} {walk : Walk} {position : Nat}

theorem step_of_isIdentifier (identifier : code.isIdentifier position = true) :
    walk.step code position = walk.identifier code position := by
  obtain ⟨word, found, kind⟩ := (Option.any_eq_true _ _).mp identifier
  unfold step
  rw [found]
  dsimp only
  rw [beq_iff_eq.mp kind]

theorem step_of_isPunctuation {text : String} (here : code.isPunctuation position text = true) :
    walk.step code position = walk.punctuation code position text := by
  obtain ⟨word, found, same⟩ := (Option.any_eq_true _ _).mp here
  obtain ⟨kind, spelled⟩ := Bool.and_eq_true_iff.mp same
  unfold step
  rw [found]
  dsimp only
  rw [beq_iff_eq.mp kind, beq_iff_eq.mp spelled]

/-- What a step may do, a constructor for each construct, with the tests that the construct has passed. -/
inductive Move (code : Code) (walk : Walk) (position : Nat) : Walk × Nat → Prop where
  /-- The word starts nothing. -/
  | skip (noCloser : code.closesRound position = false) (noOpener : code.isOpener position = false) :
      Move code walk position (walk, position + 1)
  | path {text : String} (keyword : code.isKeyword position text = true)
      (inFile : walk.kindOfScope walk.frame.scope = .file) :
      Move code walk position (walk.importPath code position)
  | type {text : String} (keyword : code.isKeyword position text = true)
      (identifier : code.isIdentifier (position + 1) = true) :
      Move code walk position (walk.typeDeclaration code position)
  | block {text : String} {close : Nat} {later : position + 1 < close} (keyword : code.isKeyword position text = true)
      (header : text ∈ ["for", "catch", "try"]) (closed : code.close? (position + 1) = some ⟨close, later⟩) :
      Move code walk position (walk.headerBlock code position)
  /-- A type is named behind `new`, `instanceof` or an at sign. -/
  | typeName (noCloser : code.closesRound position = false) (noOpener : code.isOpener position = false) :
      Move code walk position (walk.markTypes code (code.typeNameWords (position + 1)), position + 1)
  | bareLambda (identifier : code.isIdentifier position = true)
      (isArrow : code.isPunctuation (position + 1) "->" = true) :
      Move code walk position (walk.lambda code position (position + 1))
  | lambda {close : Nat} {later : position < close} (opens : code.isPunctuation position "(" = true)
      (closed : code.close? position = some ⟨close, later⟩) (isArrow : code.isPunctuation (close + 1) "->" = true) :
      Move code walk position (walk.lambda code position (close + 1))
  /-- A constant of an enum. -/
  | constant (identifier : code.isIdentifier position = true) (among : walk.frame.inConstants = true)
      (behind : code.followsPunctuation position openBrace = true ∨ code.followsPunctuation position "," = true) :
      Move code walk position
        (walk.declare
          { kind := .field, name := code.text position, scope := walk.frame.scope, position
            declaredType := (walk.nameOfScope walk.frame.scope).map (⟨·, false⟩) }, position + 1)
  /-- A method, or without a type a constructor. -/
  | method {type : Option TypeRun} {close : Nat} {later : position + 1 < close}
      (identifier : code.isIdentifier position = true) (opener : code.isPunctuation (position + 1) "(" = true)
      (typed : ∀ run, type = some run → code.typeBefore? position = some run)
      (closed : code.close? (position + 1) = some ⟨close, later⟩) :
      Move code walk position (walk.methodDeclaration code position type)
  | declares {run : TypeRun} (identifier : code.isIdentifier position = true)
      (ends : code.endsDeclarator (position + 1) = true) (typed : code.typeBefore? position = some run) :
      Move code walk position (walk.variableDeclaration code position run, position + 1)
  /-- A further variable of the declaration in progress. -/
  | declarator {list : Declarators} (comma : code.isPunctuation position "," = true)
      (progress : walk.declarators = some list) (identifier : code.isIdentifier (position + 1) = true) :
      Move code walk position
        ((walk.assign (position + 1) walk.frame.scope).declare
          { kind := list.kind, name := code.text (position + 1), scope := walk.frame.scope, position := position + 1
            declaredType := list.declaredType.map (code.withDimensions · (position + 1)) }, position + 2)
  | deeper (opens : code.opensRound position = true) :
      Move code walk position ({ walk with depth := walk.depth + 1 }, position + 1)
  | closeGroup (closes : code.closesRound position = true) : Move code walk position (walk.closeGroup, position + 1)
  /-- A brace that belongs to a scope opened before. -/
  | claimed (brace : code.isPunctuation position openBrace = true) (known : walk.claimed.contains position = true) :
      Move code walk position ({ walk with claimed := walk.claimed.filter (· != position) }, position + 1)
  | brace (here : code.isPunctuation position openBrace = true)
      (unclaimed : walk.claimed.contains position = false) : Move code walk position (walk.brace code position)
  | semicolon (here : code.isPunctuation position ";" = true) :
      Move code walk position (walk.semicolon, position + 1)

private theorem Move.idle (other : ∀ mark, code.isPunctuation position mark = false) :
    Move code walk position (walk, position + 1) :=
  .skip (Code.delimiters_of_other other).1 (Code.delimiters_of_other other).2

/-! ### Keywords -/

private theorem headerBlock_move {text : String} (keyword : code.isKeyword position text = true)
    (header : text ∈ ["for", "catch", "try"]) : Move code walk position (walk.headerBlock code position) := by
  cases closed : code.close? (position + 1) with
  | none =>
      unfold headerBlock
      rw [closed]
      exact .idle (code.isPunctuation_of_isKeyword keyword)
  | some found =>
      obtain ⟨close, later⟩ := found
      exact .block keyword header closed

private theorem keyword_move {text : String} (here : code.isKeyword position text = true) :
    Move code walk position (walk.keyword code position text) := by
  have other := code.isPunctuation_of_isKeyword here
  unfold keyword
  split
  · rename_i path
    exact .path here (beq_iff_eq.mp (Bool.and_eq_true_iff.mp path).2)
  · split
    · rename_i named
      simp only [Bool.and_eq_true] at named
      exact .type here named.1.2
    · split
      · rename_i header
        exact headerBlock_move here (List.contains_iff_mem.mp (Bool.and_eq_true_iff.mp header).1)
      · split
        · exact .typeName (Code.delimiters_of_other other).1 (Code.delimiters_of_other other).2
        · exact .idle other

/-! ### Identifiers -/

private theorem methodDeclaration_move {type : Option TypeRun} (identifier : code.isIdentifier position = true)
    (opener : code.isPunctuation (position + 1) "(" = true)
    (typed : ∀ run, type = some run → code.typeBefore? position = some run) :
    Move code walk position (walk.methodDeclaration code position type) := by
  cases closed : code.close? (position + 1) with
  | none =>
      unfold methodDeclaration
      dsimp only
      rw [closed]
      exact .idle (code.isPunctuation_of_isIdentifier identifier)
  | some found =>
      obtain ⟨close, later⟩ := found
      exact .method identifier opener typed closed

private theorem plainName_move (identifier : code.isIdentifier position = true) :
    Move code walk position (walk.plainName code position) := by
  have idle := @Move.idle code walk position (code.isPunctuation_of_isIdentifier identifier)
  unfold plainName
  split
  · rename_i ends
    split
    · rename_i run typed
      split
      · exact .declares identifier ends typed
      · exact idle
    · exact idle
  · exact idle

private theorem identifier_move (identifier : code.isIdentifier position = true) :
    Move code walk position (walk.identifier code position) := by
  have plain := @plainName_move code walk position identifier
  unfold Walk.identifier
  dsimp only
  split
  · rename_i arrow
    exact .bareLambda identifier (Bool.and_eq_true_iff.mp arrow).1
  · split
    · rename_i constant
      simp only [Bool.and_eq_true, Bool.or_eq_true] at constant
      exact .constant identifier constant.1.1 constant.2
    · split
      · rename_i call
        have opener := (Bool.and_eq_true_iff.mp call).2
        split
        · rename_i run before
          split
          · refine methodDeclaration_move identifier opener ?_
            intro other same
            cases same
            exact before
          · exact plain
        · split
          · refine methodDeclaration_move identifier opener ?_
            intro other impossible
            cases impossible
          · exact plain
      · exact plain

/-! ### Punctuation -/

private theorem comma_move (here : code.isPunctuation position "," = true) :
    Move code walk position (walk.comma code position) := by
  have skip : Move code walk position (walk, position + 1) :=
    .skip (Code.closesRound_of_isPunctuation here (by decide) (by decide))
      (Code.isOpener_of_isPunctuation here (by decide))
  unfold comma
  split
  · exact skip
  · rename_i list progress
    dsimp only
    split
    · rename_i follows
      simp only [Bool.and_eq_true] at follows
      exact .declarator here progress follows.1.2
    · exact skip

private theorem brace_move (here : code.isPunctuation position openBrace = true) :
    Move code walk position (walk.brace code position) := by
  cases claimed : walk.claimed.contains position with
  | true =>
      unfold Walk.brace
      rw [if_pos claimed]
      exact .claimed here claimed
  | false => exact .brace here claimed

private theorem parenthesis_move (here : code.isPunctuation position "(" = true) :
    Move code walk position (walk.punctuation code position "(") := by
  have deeper : Move code walk position ({ walk with depth := walk.depth + 1 }, position + 1) := by
    refine .deeper ?_
    unfold Code.opensRound
    rw [here, Bool.true_or]
  unfold punctuation
  rw [if_pos (beq_self_eq_true "(")]
  split
  · rename_i close later closed
    split
    · rename_i isArrow
      exact .lambda here closed isArrow
    · exact deeper
  · exact deeper

private theorem punctuation_move {text : String} (here : code.isPunctuation position text = true) :
    Move code walk position (walk.punctuation code position text) := by
  by_cases round : text = "("
  · subst round
    exact parenthesis_move here
  · unfold punctuation
    rw [if_neg (mt beq_iff_eq.mp round)]
    split
    · rename_i square
      refine .deeper ?_
      unfold Code.opensRound
      rw [← beq_iff_eq.mp square, here, Bool.or_true]
    · split
      · rename_i closes
        refine .closeGroup ?_
        unfold Code.closesRound
        rcases Bool.or_eq_true_iff.mp closes with round | square
        · rw [← beq_iff_eq.mp round, here, Bool.true_or]
        · rw [← beq_iff_eq.mp square, here, Bool.or_true]
      · split
        · rename_i brace
          exact brace_move (beq_iff_eq.mp brace ▸ here)
        · split
          · rename_i semicolon
            exact .semicolon (beq_iff_eq.mp semicolon ▸ here)
          · rename_i noSquare noCloser noBrace _
            simp only [Bool.or_eq_true, beq_iff_eq, not_or] at noSquare noCloser noBrace
            -- of the marks that are left none opens or closes a group
            have closer := Code.closesRound_of_isPunctuation here noCloser.1 noCloser.2
            have opener : code.isOpener position = false := by
              refine Code.isOpener_of_isPunctuation here ?_
              simp [Lexeme.opens?, round, noSquare, noBrace]
            split
            · split
              · exact .typeName closer opener
              · exact .skip closer opener
            · split
              · rename_i comma
                exact comma_move (beq_iff_eq.mp comma ▸ here)
              · exact .skip closer opener

/-! ### Steps -/

theorem step_move (code : Code) (walk : Walk) (position : Nat) : Move code walk position (walk.step code position) := by
  unfold step
  cases found : code.word? position with
  | none =>
      refine Move.idle fun mark => ?_
      simp [Code.isPunctuation, found]
  | some word =>
      have other (noMark : word.kind ≠ .punctuation) (mark : String) : code.isPunctuation position mark = false := by
        simp [Code.isPunctuation, found, Lexeme.isPunctuation, noMark]
      dsimp only
      cases kind : word.kind <;> dsimp only
      case keyword =>
        refine keyword_move ?_
        simp [Code.isKeyword, found, Lexeme.isKeyword, kind]
      case punctuation =>
        refine punctuation_move ?_
        simp [Code.isPunctuation, found, Lexeme.isPunctuation, kind]
      case identifier =>
        refine identifier_move ?_
        simp [Code.isIdentifier, found, Lexeme.isIdentifier, kind]
      all_goals exact Move.idle (other (by rw [kind]; decide))

end Walk

end ScopedRename
