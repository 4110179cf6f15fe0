import ScopedRename.Code.Statement
import ScopedRename.Proofs.Code.Brackets

/-!
How far the scans for the end of a statement or expression go in balanced code. They step over groups as a whole, so
they never end inside one. Main statement: what they read is a portion of the code, which ends where the code, a
statement, an item of a list or the enclosing group ends.
-/

namespace ScopedRename.Code

variable {code : Code}

/-! ### Words that open no group -/

theorem any_of_isPunctuation {position : Nat} {mark : String} (here : code.isPunctuation position mark = true)
    (test : Lexeme → Bool) : (code.word? position).any test = test ⟨.punctuation, mark⟩ := by
  unfold isPunctuation Lexeme.isPunctuation at here
  obtain ⟨⟨kind, text⟩, found, same⟩ := (Option.any_eq_true _ _).mp here
  rw [Bool.and_eq_true, beq_iff_eq, beq_iff_eq] at same
  obtain ⟨rfl, rfl⟩ := same
  rw [found, Option.any_some]

theorem isOpener_of_isPunctuation {position : Nat} {mark : String} (here : code.isPunctuation position mark = true)
    (noOpener : (⟨.punctuation, mark⟩ : Lexeme).opens? = none) : code.isOpener position = false := by
  unfold isOpener
  rw [any_of_isPunctuation here, noOpener]
  rfl

theorem Balanced.close_of_isPunctuation (balanced : code.Balanced) {position : Nat} {mark : String}
    (here : code.isPunctuation position mark = true) (opens : (⟨.punctuation, mark⟩ : Lexeme).opens?.isSome = true) :
    ∃ close, ∃ later : position < close, code.close? position = some ⟨close, later⟩ := by
  refine balanced.closed ?_
  unfold isOpener
  rw [any_of_isPunctuation here, opens]

theorem isOpener_of_isKeyword {position : Nat} {text : String} (here : code.isKeyword position text = true) :
    code.isOpener position = false := by
  unfold isKeyword Lexeme.isKeyword at here
  unfold isOpener Lexeme.opens?
  cases found : code.word? position with
  | none => rfl
  | some word =>
      rw [found, Option.any_some, Bool.and_eq_true, beq_iff_eq] at here
      rw [Option.any_some, here.1]
      rfl

theorem isOpener_of_isCloser {position : Nat} (closes : code.isCloser position = true) :
    code.isOpener position = false := by
  unfold isCloser at closes
  unfold isOpener
  cases found : code.word? position with
  | none => rfl
  | some word =>
      rw [found, Option.any_some] at closes
      rw [Option.any_some]
      cases opens : word.opens? with
      | none => rfl
      | some delimiter =>
          rw [Lexeme.closes?_of_opens? opens] at closes
          cases closes

theorem isCloser_lt_size {position : Nat} (closes : code.isCloser position = true) : position < code.size := by
  unfold isCloser at closes
  by_contra past
  rw [word?, Layout.word?_of_le (Nat.le_of_not_lt past)] at closes
  cases closes

theorem Balanced.close?_eq_none (balanced : code.Balanced) {position : Nat}
    (noOpener : code.isOpener position = false) : code.close? position = none := by
  cases found : code.close? position with
  | none => rfl
  | some closer =>
      rw [balanced.opens found] at noOpener
      cases noOpener

theorem Balanced.closer_lt_size (balanced : code.Balanced) {opener closer : Nat} {later : opener < closer}
    (found : code.close? opener = some ⟨closer, later⟩) : closer < code.size :=
  isCloser_lt_size (balanced.closes found)

theorem afterGroup?_eq_some {position next : Nat} {later : position < next}
    (found : code.afterGroup? position = some ⟨next, later⟩) :
    ∃ closer, ∃ behind : position < closer, code.close? position = some ⟨closer, behind⟩ ∧ next = closer + 1 := by
  unfold afterGroup? at found
  obtain ⟨⟨closer, behind⟩, closed, same⟩ := Option.map_eq_some_iff.mp found
  cases same
  exact ⟨closer, behind, closed, rfl⟩

theorem afterGroup?_eq_none {position : Nat} (found : code.afterGroup? position = none) :
    code.close? position = none := Option.map_eq_none_iff.mp found

theorem afterParentheses?_eq_some {position next : Nat} {later : position < next}
    (found : code.afterParentheses? position = some ⟨next, later⟩) :
    code.afterGroup? position = some ⟨next, later⟩ := by
  unfold afterParentheses? at found
  split at found
  · exact found
  · cases found

/-! ### Whole groups -/

variable (code) in
/-- Every group that opens from `first` on and before `next` closes before `next`. -/
def Level (first next : Nat) : Prop :=
  ∀ (opener closer : Nat) (later : opener < closer), first ≤ opener → opener < next →
    code.close? opener = some ⟨closer, later⟩ → closer < next

namespace Level

variable {first middle next : Nat}

theorem refl (first : Nat) : code.Level first first := by
  intro opener closer later low high
  omega

theorem trans (left : code.Level first middle) (right : code.Level middle next) (ordered : middle ≤ next) :
    code.Level first next := by
  intro opener closer later low high found
  by_cases before : opener < middle
  · exact Nat.lt_of_lt_of_le (left opener closer later low before found) ordered
  · exact right opener closer later (by omega) high found

theorem mono (level : code.Level first next) (ordered : first ≤ middle) : code.Level middle next :=
  fun opener closer later low => level opener closer later (Nat.le_trans ordered low)

theorem word {position : Nat} (plain : code.close? position = none) : code.Level position (position + 1) := by
  intro opener closer later low high found
  have here : opener = position := by omega
  subst here
  rw [plain] at found
  cases found

theorem group (balanced : code.Balanced) {opener closer : Nat} {later : opener < closer}
    (closed : code.close? opener = some ⟨closer, later⟩) : code.Level opener (closer + 1) := by
  intro inner innerCloser innerLater low high found
  by_cases same : inner = opener
  · subst same
    rw [closed] at found
    cases found
    exact Nat.lt_succ_self _
  · by_cases last : inner = closer
    · subst last
      rw [balanced.close?_eq_none (isOpener_of_isCloser (balanced.closes closed))] at found
      cases found
    · have nested := balanced.nested closed found (by omega) (by omega)
      omega

theorem size (balanced : code.Balanced) (first : Nat) : code.Level first code.size :=
  fun _ _ _ _ _ found => balanced.closer_lt_size found

theorem afterGroup (balanced : code.Balanced) {position next : Nat} {later : position < next}
    (found : code.afterGroup? position = some ⟨next, later⟩) : code.Level position next := by
  obtain ⟨closer, behind, closed, same⟩ := afterGroup?_eq_some found
  subst same
  exact group balanced closed

end Level

/-! ### Portions of code -/

variable (code) in
def isBoundary (position : Nat) : Bool :=
  code.isPunctuation position "," || code.isPunctuation position ";" || code.isCloser position

variable (code) in
def Ends (last : Nat) : Prop :=
  code.size ≤ last + 1 ∨ code.isBoundary last = true ∨ code.isBoundary (last + 1) = true

variable (code) in
/-- The words from `first` to `last`, of whole groups only, up to where reading stops. -/
structure Portion (first last : Nat) : Prop where
  ordered : first ≤ last
  inside : last < code.size
  level : code.Level first (last + 1)
  ends : code.Ends last

theorem isOpener_of_isBoundary {position : Nat} (boundary : code.isBoundary position = true) :
    code.isOpener position = false := by
  unfold isBoundary at boundary
  rw [Bool.or_eq_true, Bool.or_eq_true] at boundary
  rcases boundary with (comma | semicolon) | closer
  · exact isOpener_of_isPunctuation comma (by decide)
  · exact isOpener_of_isPunctuation semicolon (by decide)
  · exact isOpener_of_isCloser closer

theorem isPunctuation_of_isBoundary {position : Nat} (boundary : code.isBoundary position = true) :
    ∃ mark, code.isPunctuation position mark = true := by
  unfold isBoundary at boundary
  rw [Bool.or_eq_true, Bool.or_eq_true] at boundary
  rcases boundary with (comma | semicolon) | closer
  · exact ⟨_, comma⟩
  · exact ⟨_, semicolon⟩
  · unfold isCloser at closer
    obtain ⟨word, found, closes⟩ := (Option.any_eq_true _ _).mp closer
    refine ⟨word.text, ?_⟩
    unfold isPunctuation Lexeme.isPunctuation
    rw [found, Option.any_some, Bool.and_eq_true, beq_self_eq_true]
    refine ⟨?_, rfl⟩
    unfold Lexeme.closes? at closes
    split at closes
    · cases closes
    · rename_i mark
      rw [bne_iff_ne, Decidable.not_not] at mark
      exact beq_iff_eq.mpr mark

namespace Portion

variable {first middle last : Nat}

theorem rest (balanced : code.Balanced) (inside : first < code.size) : code.Portion first code.last := by
  have whole : code.last + 1 = code.size := by
    unfold Code.last
    omega
  refine ⟨by omega, by omega, ?_, Or.inl (by omega)⟩
  rw [whole]
  exact Level.size balanced first

theorem prepend (level : code.Level first middle) (ordered : first ≤ middle) (portion : code.Portion middle last) :
    code.Portion first last where
  ordered := Nat.le_trans ordered portion.ordered
  inside := portion.inside
  level := level.trans portion.level (Nat.le_succ_of_le portion.ordered)
  ends := portion.ends

/-- A portion that is read only if a word is left. -/
theorem prependIf (balanced : code.Balanced) (level : code.Level first middle) (ordered : first ≤ middle)
    (inside : first < code.size) (portion : middle < code.size → code.Portion middle last)
    (otherwise : code.size ≤ middle → last = code.last) : code.Portion first last := by
  by_cases left : middle < code.size
  · exact (portion left).prepend level ordered
  · rw [otherwise (by omega)]
    exact rest balanced inside

theorem close (balanced : code.Balanced) {opener closer : Nat} {later : opener < closer}
    (closed : code.close? opener = some ⟨closer, later⟩) : code.Portion opener closer where
  ordered := Nat.le_of_lt later
  inside := balanced.closer_lt_size closed
  level := Level.group balanced closed
  ends := by
    right
    left
    unfold isBoundary
    rw [balanced.closes closed, Bool.or_true]

theorem boundary (balanced : code.Balanced) (inside : first < code.size) (here : code.isBoundary first = true) :
    code.Portion first first where
  ordered := Nat.le_refl _
  inside := inside
  level := Level.word (balanced.close?_eq_none (isOpener_of_isBoundary here))
  ends := Or.inr (Or.inl here)

end Portion

/-! ### The scans -/

theorem semicolonFrom_portion (balanced : code.Balanced) {start position : Nat} (inside : start < code.size)
    (ordered : start ≤ position) (read : code.Level start position) :
    code.Portion start (code.semicolonFrom start position) := by
  fun_induction code.semicolonFrom start position with
  | case1 position here semicolon =>
      have boundary : code.isBoundary position = true := by
        unfold isBoundary
        rw [semicolon, Bool.or_true, Bool.true_or]
      exact (Portion.boundary balanced here boundary).prepend read ordered
  | case2 position here _ next later group ih =>
      exact ih (by omega) (read.trans (Level.afterGroup balanced group) (Nat.le_of_lt later))
  | case3 position here _ noGroup closer =>
      have boundary : code.isBoundary position = true := by
        unfold isBoundary
        rw [closer, Bool.or_true]
      rcases Nat.eq_or_lt_of_le ordered with same | before
      · subst same
        rw [Nat.max_eq_right (Nat.sub_le _ _)]
        exact Portion.boundary balanced inside boundary
      · have last : max (position - 1) start + 1 = position := by omega
        refine ⟨by omega, by omega, ?_, ?_⟩
        · rw [last]
          exact read
        · unfold Ends
          rw [last]
          exact Or.inr (Or.inr boundary)
  | case4 position here _ noGroup _ ih =>
      exact ih (by omega) (read.trans (Level.word (afterGroup?_eq_none noGroup)) (Nat.le_succ _))
  | case5 => exact Portion.rest balanced inside

theorem semicolonFrom_of_size_le {start position : Nat} (outside : code.size ≤ position) :
    code.semicolonFrom start position = code.last := by
  rw [semicolonFrom, if_neg (by omega)]

theorem statementEnd_of_size_le {position : Nat} (outside : code.size ≤ position) :
    code.statementEnd position = code.last := by
  rw [statementEnd, if_neg (by omega)]

private theorem level_head (balanced : code.Balanced) {position next : Nat} {later : position + 1 < next}
    (keyword : code.isOpener position = false) (list : code.afterParentheses? (position + 1) = some ⟨next, later⟩) :
    code.Level position next :=
  (Level.word (balanced.close?_eq_none keyword)).trans
    (Level.afterGroup balanced (afterParentheses?_eq_some list)) (Nat.le_of_lt later)

private theorem isOpener_of_isLoopHead {position : Nat} (loop : code.isLoopHead position = true) :
    code.isOpener position = false := by
  unfold isLoopHead at loop
  rw [Bool.or_eq_true, Bool.or_eq_true] at loop
  rcases loop with (head | head) | head
  · exact isOpener_of_isKeyword head
  · exact isOpener_of_isKeyword head
  · exact isOpener_of_isKeyword head

mutual

theorem statementEnd_portion (balanced : code.Balanced) {position : Nat} (inside : position < code.size) :
    code.Portion position (code.statementEnd position) := by
  have plain := semicolonFrom_portion balanced inside (Nat.le_refl _) (Level.refl position)
  rw [statementEnd, if_pos inside]
  split
  · -- a block ends with its brace
    rename_i brace
    cases closed : code.close? position with
    | none => exact Portion.rest balanced inside
    | some closer => exact Portion.close balanced closed
  split
  · -- a loop ends where its body does
    rename_i loop
    split
    · rename_i body later list
      refine Portion.prependIf balanced (level_head balanced (isOpener_of_isLoopHead loop) list) (by omega) inside ?_
        statementEnd_of_size_le
      exact fun left => statementEnd_portion balanced left
    · exact plain
  split
  · -- `if` ends with its branch, or with the branch behind `else`
    rename_i keyword
    have head := isOpener_of_isKeyword keyword
    split
    · rename_i body later list
      have condition := level_head balanced head list
      dsimp only
      have branch : code.Portion position (code.statementEnd body) := by
        refine Portion.prependIf balanced condition (by omega) inside ?_ statementEnd_of_size_le
        exact fun left => statementEnd_portion balanced left
      split
      · rename_i other
        have next : max (position + 1) (code.statementEnd body + 2) = code.statementEnd body + 2 := by
          have := branch.ordered
          omega
        have word := Level.word (balanced.close?_eq_none (isOpener_of_isKeyword other))
        have ordered := branch.ordered
        rw [next]
        refine Portion.prependIf balanced (branch.level.trans word (Nat.le_succ _)) (by omega) inside ?_
          statementEnd_of_size_le
        exact fun left => statementEnd_portion balanced left
      · exact branch
    · exact plain
  split
  · -- `do` goes on behind its body up to a semicolon
    rename_i keyword
    have head := Level.word (balanced.close?_eq_none (isOpener_of_isKeyword keyword))
    have body : code.Portion position (code.statementEnd (position + 1)) := by
      refine Portion.prependIf balanced head (Nat.le_succ _) inside ?_ statementEnd_of_size_le
      exact fun left => statementEnd_portion balanced left
    have ordered := body.ordered
    refine Portion.prependIf balanced body.level (by omega) inside ?_ semicolonFrom_of_size_le
    exact fun left => semicolonFrom_portion balanced left (Nat.le_refl _) (Level.refl _)
  split
  · -- `try` goes on behind its block with handlers
    rename_i keyword
    have head := isOpener_of_isKeyword keyword
    have guarded {block : Nat} (level : code.Level position block) (ordered : position < block)
        (portion : block < code.size → code.Portion block (code.statementEnd block)) :
        code.Portion position (max position (code.statementEnd block)) := by
      have read := Portion.prependIf balanced level (Nat.le_of_lt ordered) inside portion statementEnd_of_size_le
      rw [Nat.max_eq_right read.ordered]
      exact read
    split
    · rename_i block later list
      refine handlersEnd_portion balanced (guarded (level_head balanced head list) (by omega) ?_)
      exact fun left => statementEnd_portion balanced left
    · refine handlersEnd_portion balanced (guarded (Level.word (balanced.close?_eq_none head)) (by omega) ?_)
      exact fun left => statementEnd_portion balanced left
  · exact plain
termination_by 2 * (code.size - position) + 1

theorem handlersEnd_portion (balanced : code.Balanced) {first stop : Nat} (read : code.Portion first stop) :
    code.Portion first (code.handlersEnd stop) := by
  rw [handlersEnd]
  split
  · rename_i inside
    have ordered := read.ordered
    -- a handler goes on from what has been read up to its block
    have further {block : Nat} (level : code.Level first block) (behind : stop + 1 < block)
        (portion : block < code.size → code.Portion block (code.statementEnd block)) :
        code.Portion first (max (stop + 1) (code.statementEnd block)) := by
      have whole := Portion.prependIf balanced level (by omega) (by omega) portion statementEnd_of_size_le
      have reached : stop + 1 ≤ code.statementEnd block := by
        by_cases left : block < code.size
        · have := (portion left).ordered
          omega
        · rw [statementEnd_of_size_le (by omega)]
          unfold Code.last
          omega
      rw [Nat.max_eq_right reached]
      exact whole
    split
    · rename_i keyword
      split
      · rename_i block later list
        have head := level_head balanced (isOpener_of_isKeyword keyword) list
        refine handlersEnd_portion balanced (further (read.level.trans head (by omega)) (by omega) ?_)
        exact fun left => statementEnd_portion balanced left
      · exact read
    split
    · rename_i keyword
      have head := Level.word (balanced.close?_eq_none (isOpener_of_isKeyword keyword))
      refine handlersEnd_portion balanced (further (read.level.trans head (by omega)) (by omega) ?_)
      exact fun left => statementEnd_portion balanced left
    · exact read
  · exact read
termination_by 2 * (code.size - stop)

end

theorem expressionEndFrom_portion (balanced : code.Balanced) {start stop position : Nat} (ordered : start ≤ stop)
    (reached : stop + 1 = position) (inside : stop < code.size) (read : code.Level start position) :
    code.Portion start (code.expressionEndFrom stop position) := by
  fun_induction code.expressionEndFrom stop position with
  | case1 stop position _ boundary =>
      refine ⟨ordered, inside, ?_, Or.inr (Or.inr ?_)⟩
      · rw [reached]
        exact read
      · rw [reached]
        exact boundary
  | case2 stop position here _ next later group ih =>
      obtain ⟨closer, behind, closed, same⟩ := afterGroup?_eq_some group
      have bound := balanced.closer_lt_size closed
      exact ih (by omega) (by omega) (by omega) (read.trans (Level.afterGroup balanced group) (Nat.le_of_lt later))
  | case3 stop position here _ noGroup ih =>
      exact ih (by omega) rfl here (read.trans (Level.word (afterGroup?_eq_none noGroup)) (Nat.le_succ _))
  | case4 stop position outside =>
      refine ⟨ordered, inside, ?_, Or.inl (by omega)⟩
      rw [reached]
      exact read

theorem expressionEnd_portion (balanced : code.Balanced) {position : Nat} (inside : position < code.size) :
    code.Portion position (code.expressionEnd position) := by
  have first : min position code.last = position := by
    unfold Code.last
    omega
  unfold expressionEnd
  rw [first, expressionEndFrom, if_pos inside]
  split
  · rename_i boundary
    exact Portion.boundary balanced inside boundary
  · split
    · rename_i next later group
      obtain ⟨closer, behind, closed, same⟩ := afterGroup?_eq_some group
      have bound := balanced.closer_lt_size closed
      exact expressionEndFrom_portion balanced (by omega) (by omega) (by omega) (Level.afterGroup balanced group)
    · rename_i noGroup
      exact expressionEndFrom_portion balanced (Nat.le_refl _) rfl inside (Level.word (afterGroup?_eq_none noGroup))

theorem expressionEnd_of_size_le {position : Nat} (outside : code.size ≤ position) :
    code.expressionEnd position = code.last := by
  unfold expressionEnd
  rw [expressionEndFrom, if_neg (by omega)]
  unfold Code.last
  omega

end ScopedRename.Code
