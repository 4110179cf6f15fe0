import ScopedRename.Proofs.Outline.Framing

/-!
The bookkeeping of a walk: the depth of open parentheses and square brackets, the declaration in progress, and the braces
that belong to a scope opened before. Main statement: every step leaves the books as they are, or changes them in one of
six ways, each tied to the word it reads and to where it goes on.
-/

namespace ScopedRename

namespace Walk

variable {code : Code} {walk after : Walk} {position next : Nat}

def books (walk : Walk) : Nat × Option Declarators × List Nat := (walk.depth, walk.declarators, walk.claimed)

theorem books_foldl {item : Type} {apply : Walk → item → Walk}
    (step : ∀ walk entry, (apply walk entry).books = walk.books) (items : List item) (walk : Walk) :
    (items.foldl apply walk).books = walk.books := by
  induction items generalizing walk with
  | nil => rfl
  | cons entry rest ih => rw [List.foldl_cons, ih, step]

theorem books_assignRange (walk : Walk) (first last : Nat) (scope : ScopeId) :
    (walk.assignRange first last scope).books = walk.books := by
  refine books_foldl ?_ _ walk
  exact fun _ _ => rfl

theorem books_declareParameters (walk : Walk) (scope : ScopeId) (kind : DeclarationKind)
    (segments : List (Nat × Nat)) :
    (segments.foldl (declareParameter code · scope kind) walk).books = walk.books := by
  refine books_foldl (fun walk segment => ?_) segments walk
  unfold declareParameter
  split
  · rfl
  · rfl

theorem typeDeclaration_books : (walk.typeDeclaration code position).1.books = walk.books := by
  have parameters (walk : Walk) (scope : ScopeId) (words : List Nat) :
      (words.foldl (declareTypeParameter code · scope) walk).books = walk.books := by
    refine books_foldl ?_ words walk
    exact fun _ _ => rfl
  cases brace : code.isPunctuation (code.typeBody position) openBrace with
  | true =>
      have result : walk.typeDeclaration code position = (_, code.typeBody position + 1) := if_pos brace
      rw [result]
      exact (books_declareParameters _ _ _ _).trans ((parameters _ _ _).trans (books_assignRange _ _ _ _))
  | false =>
      have result : walk.typeDeclaration code position = (_, position + 2) := if_neg (Bool.eq_false_iff.mp brace)
      rw [result]
      rfl

theorem methodDeclaration_books (type : Option TypeRun) :
    (walk.methodDeclaration code position type).1.books = walk.books := by
  have parameters (walk : Walk) (scope : ScopeId) (words : List Nat) :
      (words.foldl (fun walk parameter => (declareTypeParameter code walk scope parameter).unmarkType parameter)
        walk).books = walk.books := by
    refine books_foldl ?_ words walk
    exact fun _ _ => rfl
  unfold methodDeclaration
  dsimp only
  split
  · rfl
  · dsimp only
    rw [books_declareParameters, books_assignRange]
    split
    · rw [parameters, books_assignRange]
      cases type with
      | none => rfl
      | some run => rfl
    · cases type with
      | none => rfl
      | some run => rfl

theorem lambda_books (arrow : Nat) :
    (walk.lambda code position arrow).1.books =
      (walk.depth, walk.declarators,
        if code.isPunctuation (arrow + 1) openBrace then (arrow + 1) :: walk.claimed else walk.claimed) := by
  have list (walk : Walk) (scope : ScopeId) :
      (if code.isIdentifier position then
        walk.declare { kind := .parameter, name := code.text position, scope, position }
      else (code.segments position true).foldl (declareParameter code · scope .parameter) walk).books = walk.books := by
    split
    · rfl
    · exact books_declareParameters _ _ _ _
  have same := fun (last : Nat) => (list ((walk.openScope .block none ⟨position, last⟩ [] false).assignRange position arrow
    walk.scopes.size) walk.scopes.size).trans (books_assignRange _ _ _ _)
  unfold lambda
  dsimp only
  have claims (walk : Walk) (brace : Nat) :
      (walk.claim brace).books = (walk.books.1, walk.books.2.1, brace :: walk.books.2.2) := rfl
  split
  · rw [claims, same]
    rfl
  · exact same _

theorem headerBlock_books {close : Nat} {later : position + 1 < close}
    (closed : code.close? (position + 1) = some ⟨close, later⟩) :
    (walk.headerBlock code position).1.books =
      (walk.depth, walk.declarators,
        if code.isPunctuation (close + 1) openBrace then (close + 1) :: walk.claimed else walk.claimed) := by
  unfold headerBlock
  rw [closed]
  dsimp only
  split
  · rfl
  · rfl

/-! ### Steps -/

/-- The brace of the body of a scope that is opened: next to be read, or behind a list that is next. -/
inductive Claims (code : Code) (next last brace : Nat) : Prop where
  | here (isNext : next = brace) (opens : code.isPunctuation brace openBrace = true) (ends : code.groupEnd brace = last)
  | behind {close : Nat} {later : next < close} (list : code.close? next = some ⟨close, later⟩)
      (follows : brace = close + 1)
      (opens : code.isPunctuation brace openBrace = true) (ends : code.groupEnd brace = last)

inductive Keeps (code : Code) (walk : Walk) (position : Nat) : Walk × Nat → Prop where
  /-- Nothing, and no scope is opened. -/
  | quiet {after : Walk} {next : Nat} (books : after.books = walk.books) (places : after.places = walk.places)
      (ahead : position < next) (noCloser : code.closesRound position = false)
      (noOpener : code.isOpener (next - 1) = false) : Keeps code walk position (after, next)
  | declares {run : TypeRun} (identifier : code.isIdentifier position = true)
      (typed : code.typeBefore? position = some run) :
      Keeps code walk position (walk.variableDeclaration code position run, position + 1)
  | opening (opens : code.opensRound position = true) :
      Keeps code walk position ({ walk with depth := walk.depth + 1 }, position + 1)
  | closing (closes : code.closesRound position = true) : Keeps code walk position (walk.closeGroup, position + 1)
  | semicolon (here : code.isPunctuation position ";" = true) :
      Keeps code walk position (walk.semicolon, position + 1)
  /-- A brace that belongs to a scope opened before. -/
  | claimed (brace : code.isPunctuation position openBrace = true) (known : position ∈ walk.claimed) :
      Keeps code walk position ({ walk with claimed := walk.claimed.filter (· != position) }, position + 1)
  /-- A scope is opened, which may claim the brace of its body. -/
  | scope {after : Walk} {next last : Nat} (places : after.places = (walk.scopes.size, last) :: walk.places)
      (depth : after.depth = walk.depth) (declarators : after.declarators = walk.declarators)
      (claims : after.claimed = walk.claimed ∨
        ∃ brace, after.claimed = brace :: walk.claimed ∧ Claims code next last brace)
      (ahead : position < next) (noCloser : code.closesRound position = false)
      (noOpener : code.opensRound (next - 1) = false)
      (body : code.isPunctuation (next - 1) openBrace = true → code.groupEnd (next - 1) = last) :
      Keeps code walk position (after, next)

/-- A scope that claims no brace. -/
private theorem Keeps.opened {start middle : Nat} {extent : Extent}
    (opening : Opening code position start middle next extent walk after) (books : after.books = walk.books)
    (ahead : position < next) (noCloser : code.closesRound position = false)
    (noOpener : code.opensRound (next - 1) = false)
    (body : code.isPunctuation (next - 1) openBrace = true → code.groupEnd (next - 1) = extent.last) :
    Keeps code walk position (after, next) :=
  Keeps.scope opening.places (congrArg Prod.fst books) (congrArg (·.2.1) books) (Or.inl (congrArg (·.2.2) books)) ahead
    noCloser noOpener body

private theorem lambda_keeps {arrow : Nat} (ordered : position < arrow) (isArrow : code.isPunctuation arrow "->" = true)
    (list : code.isIdentifier position = false →
      ∃ close, ∃ later : position < close, code.close? position = some ⟨close, later⟩ ∧ close < arrow)
    (noCloser : code.closesRound position = false) :
    Keeps code walk position (walk.lambda code position arrow) := by
  obtain ⟨after, result, opening⟩ := lambda_opening walk ordered isArrow list
  have books := @lambda_books code walk position arrow
  rw [result] at books ⊢
  refine Keeps.scope opening.places (congrArg Prod.fst books) (congrArg (·.2.1) books) ?_ (by omega) noCloser ?_ ?_
  · have claimed : after.claimed = _ := congrArg (·.2.2) books
    dsimp only at claimed
    split at claimed
    · rename_i brace
      exact Or.inr ⟨arrow + 1, claimed, .here rfl brace (if_pos brace).symm⟩
    · exact Or.inl claimed
  · exact Code.opensRound_of_isPunctuation isArrow (by decide) (by decide)
  · intro brace
    rw [Nat.add_sub_cancel, code.isPunctuation_of_ne isArrow (by decide)] at brace
    cases brace

private theorem methodDeclaration_keeps {type : Option TypeRun} {close : Nat} {later : position + 1 < close}
    (identifier : code.isIdentifier position = true) (opener : code.isPunctuation (position + 1) "(" = true)
    (typed : ∀ run, type = some run → code.typeBefore? position = some run)
    (closed : code.close? (position + 1) = some ⟨close, later⟩) :
    Keeps code walk position (walk.methodDeclaration code position type) := by
  have other := code.isPunctuation_of_isIdentifier identifier
  have body := code.le_methodBody close
  obtain ⟨after, result, opening⟩ :=
    methodDeclaration_opening walk identifier closed typed (code.isPunctuation_lt_size opener)
  have books := @methodDeclaration_books code walk position type
  rw [result] at books ⊢
  refine Keeps.opened opening books (by omega) (Code.delimiters_of_other other).1 ?_ ?_
  · rw [Nat.add_sub_cancel]
    rcases @Code.methodHeader_stops code false (close + 1) with outside | brace | semicolon
    · rw [Bool.eq_false_iff]
      intro opens
      have reached : code.methodBody close < code.size := by
        rcases Bool.or_eq_true_iff.mp opens with round | square
        · exact code.isPunctuation_lt_size round
        · exact code.isPunctuation_lt_size square
      exact absurd reached (Nat.not_lt.mpr outside)
    · exact Code.opensRound_of_isPunctuation brace (by decide) (by decide)
    · exact Code.opensRound_of_isPunctuation semicolon (by decide) (by decide)
  · intro brace
    exact (if_pos brace).symm

private theorem headerEnd_of_brace (balanced : code.Balanced) {close : Nat}
    (brace : code.isPunctuation (close + 1) openBrace = true) :
    code.groupEnd (close + 1) = code.headerEnd position close := by
  obtain ⟨closer, later, closed⟩ := balanced.closed (Code.isOpener_of_isBrace brace)
  unfold Code.headerEnd
  rw [Code.groupEnd_eq closed]
  split
  · rw [Code.statementEnd, if_pos (code.isPunctuation_lt_size brace), if_pos brace, closed]
    rfl
  · rw [closed]
    rfl

private theorem headerBlock_keeps (balanced : code.Balanced) {text : String} {close : Nat}
    {later : position + 1 < close}
    (keyword : code.isKeyword position text = true) (closed : code.close? (position + 1) = some ⟨close, later⟩) :
    Keeps code walk position (walk.headerBlock code position) := by
  have other := code.isPunctuation_of_isKeyword keyword
  obtain ⟨after, result, opening⟩ := headerBlock_opening walk closed (code.isKeyword_lt_size keyword)
  have books := @headerBlock_books code walk position close later closed
  rw [result] at books ⊢
  refine Keeps.scope opening.places (congrArg Prod.fst books) (congrArg (·.2.1) books) ?_ (Nat.lt_succ_self _)
    (Code.delimiters_of_other other).1 ?_ ?_
  · have claimed : after.claimed = _ := congrArg (·.2.2) books
    dsimp only at claimed
    split at claimed
    · rename_i brace
      exact Or.inr ⟨close + 1, claimed, .behind closed rfl brace (headerEnd_of_brace balanced brace)⟩
    · exact Or.inl claimed
  · exact Code.opensRound_of_isOpener (Code.delimiters_of_other other).2
  · intro brace
    rw [Nat.add_sub_cancel, other] at brace
    cases brace

private theorem brace_keeps (here : code.isPunctuation position openBrace = true)
    (unclaimed : walk.claimed.contains position = false) : Keeps code walk position (walk.brace code position) := by
  have noCloser := Code.closesRound_of_isPunctuation here (by decide) (by decide)
  obtain ⟨after, result, opening⟩ := brace_opening walk (code.isPunctuation_lt_size here) unclaimed
  have books : (walk.brace code position).1.books = walk.books := by
    unfold Walk.brace
    rw [if_neg (Bool.eq_false_iff.mp unclaimed)]
    dsimp only
    split
    · rfl
    · split
      · rfl
      · rfl
  rw [result] at books ⊢
  refine Keeps.opened opening books (Nat.lt_succ_self _) noCloser ?_ fun _ => rfl
  exact Code.opensRound_of_isPunctuation here (by decide) (by decide)

private theorem typeDeclaration_keeps {text : String} (keyword : code.isKeyword position text = true)
    (identifier : code.isIdentifier (position + 1) = true) :
    Keeps code walk position (walk.typeDeclaration code position) := by
  have noCloser := (Code.delimiters_of_other (code.isPunctuation_of_isKeyword keyword)).1
  have books := @typeDeclaration_books code walk position
  cases brace : code.isPunctuation (code.typeBody position) openBrace with
  | true =>
      obtain ⟨after, result, opening⟩ := typeDeclaration_opening walk identifier brace
      have body := code.le_typeBody position
      rw [result] at books ⊢
      refine Keeps.opened opening books (by omega) noCloser ?_ fun _ => rfl
      exact Code.opensRound_of_isPunctuation brace (by decide) (by decide)
  | false =>
      obtain ⟨after, result, fills⟩ := typeDeclaration_fills walk identifier brace
      rw [result] at books ⊢
      refine Keeps.quiet books fills.places (by omega) noCloser ?_
      exact (Code.delimiters_of_other (code.isPunctuation_of_isIdentifier identifier)).2

private theorem last_noOpener (balanced : code.Balanced) : code.isOpener code.last = false := by
  rw [Bool.eq_false_iff]
  intro opens
  obtain ⟨closer, later, closed⟩ := balanced.closed opens
  have inside := balanced.closer_lt_size closed
  unfold Code.last at later
  omega

private theorem importPath_keeps (balanced : code.Balanced) {text : String}
    (keyword : code.isKeyword position text = true) : Keeps code walk position (walk.importPath code position) := by
  have noCloser := (Code.delimiters_of_other (code.isPunctuation_of_isKeyword keyword)).1
  have inside := code.isKeyword_lt_size keyword
  unfold importPath
  dsimp only
  generalize found : (List.range' position (code.size - position)).find? (code.isPunctuation · ";") = stop
  have places : ∀ last, ((walk.assignRange (position + 1) last walk.frame.scope).markPath code
      (List.range' (position + 1) (last - position))).places = walk.places := fun last =>
    (Fills.assignRange walk (position + 1) last walk.frame.scope).places
  cases stop with
  | none =>
      refine Keeps.quiet (books_assignRange _ _ _ _) (places _) ?_ noCloser (last_noOpener balanced)
      unfold Code.last
      rw [Option.getD_none]
      omega
  | some stop =>
      have member := List.mem_range'_1.mp (List.mem_of_find?_eq_some found)
      refine Keeps.quiet (books_assignRange _ _ _ _) (places _) ?_ noCloser ?_
      · rw [Option.getD_some]
        omega
      · have semicolon := List.find?_some found
        rw [Option.getD_some, Nat.add_sub_cancel]
        exact Code.isOpener_of_isPunctuation semicolon (by decide)

/-- Every step keeps the books in one of these ways. -/
theorem step_keeps (balanced : code.Balanced) (walk : Walk) (position : Nat) :
    Keeps code walk position (walk.step code position) := by
  have move := step_move code walk position
  generalize walk.step code position = stepped at move ⊢
  cases move with
  | skip noCloser noOpener => exact Keeps.quiet rfl rfl (Nat.lt_succ_self _) noCloser noOpener
  | path keyword inFile => exact importPath_keeps balanced keyword
  | type keyword identifier => exact typeDeclaration_keeps keyword identifier
  | block keyword header closed => exact headerBlock_keeps balanced keyword closed
  | typeName noCloser noOpener => exact Keeps.quiet rfl rfl (Nat.lt_succ_self _) noCloser noOpener
  | bareLambda identifier isArrow =>
      refine lambda_keeps (Nat.lt_succ_self _) isArrow ?_
        (Code.delimiters_of_other (code.isPunctuation_of_isIdentifier identifier)).1
      intro other
      rw [identifier] at other
      cases other
  | @lambda close later opens closed isArrow =>
      refine lambda_keeps (by omega) isArrow (fun _ => ⟨close, later, closed, Nat.lt_succ_self _⟩) ?_
      exact Code.closesRound_of_isPunctuation opens (by decide) (by decide)
  | constant identifier among behind =>
      have delimiters := Code.delimiters_of_other (code.isPunctuation_of_isIdentifier identifier)
      exact Keeps.quiet rfl rfl (Nat.lt_succ_self _) delimiters.1 delimiters.2
  | method identifier opener typed closed => exact methodDeclaration_keeps identifier opener typed closed
  | declares identifier ends typed => exact Keeps.declares identifier typed
  | declarator comma progress identifier =>
      exact Keeps.quiet rfl rfl (by omega) (Code.closesRound_of_isPunctuation comma (by decide) (by decide))
        (Code.delimiters_of_other (code.isPunctuation_of_isIdentifier identifier)).2
  | deeper opens => exact Keeps.opening opens
  | closeGroup closes => exact Keeps.closing closes
  | claimed brace known => exact Keeps.claimed brace (List.contains_iff_mem.mp known)
  | brace here unclaimed => exact brace_keeps here unclaimed
  | semicolon here => exact Keeps.semicolon here

end Walk

end ScopedRename
