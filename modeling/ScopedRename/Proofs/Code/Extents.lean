import ScopedRename.Proofs.Code.Reach
import ScopedRename.Proofs.Code.Statements
import ScopedRename.Proofs.Token.Tiling

/-!
Reading a statement to its end as a recursion without a bound: where it goes on depends on where a part before has
ended, and no comparison of the two makes it end itself. Main statement: in balanced code it comes to an end from every
word, at the one position that the scan for the end of a statement finds, which is not before the word and cuts no
group.
-/

namespace ScopedRename.Code

/-- What is to be read: the words up to a semicolon, from a position on in a statement that began at `start`; a whole
statement; or, behind a part that ends at `stop`, the `else` of a branch or the handlers of a block. -/
inductive Reading where
  | plain (start position : Nat)
  | statement (position : Nat)
  | alternative (stop : Nat)
  | handlers (stop : Nat)

/-- How a reading proceeds. With `after`, a part is read first, and the rest depends on where it ends. -/
inductive Move where
  | stop (last : Nat)
  | goOn (reading : Reading)
  | after (part : Reading) (rest : Nat → Reading)

variable (code : Code)

def afterList? (position : Nat) : Option Nat :=
  if code.isPunctuation position "(" then (code.partner? position).map (· + 1) else none

def handler? (stop : Nat) : Option Nat :=
  if code.isKeyword (stop + 1) "catch" then code.afterList? (stop + 2)
  else if code.isKeyword (stop + 1) "finally" then some (stop + 2)
  else none

def move : Reading → Move
  | .plain start position =>
    if position < code.size then
      if code.isPunctuation position ";" then .stop position
      else if code.isOpener position then
        match code.partner? position with
        | some close => .goOn (.plain start (close + 1))
        | none => .stop code.last
      else if code.isCloser position then .stop (max (position - 1) start)
      else .goOn (.plain start (position + 1))
    else
      .stop code.last
  | .statement position =>
    if position < code.size then
      if code.isPunctuation position openBrace then .stop ((code.partner? position).getD code.last)
      else if code.isLoopHead position then
        match code.afterList? (position + 1) with
        | some body => .goOn (.statement body)
        | none => .goOn (.plain position position)
      else if code.isKeyword position "if" then
        match code.afterList? (position + 1) with
        | some body => .after (.statement body) .alternative
        | none => .goOn (.plain position position)
      else if code.isKeyword position "do" then
        .after (.statement (position + 1)) fun stop => .plain (stop + 1) (stop + 1)
      else if code.isKeyword position "try" then
        .after (.statement ((code.afterList? (position + 1)).getD (position + 1))) .handlers
      else
        .goOn (.plain position position)
    else
      .stop code.last
  | .alternative stop => if code.isKeyword (stop + 1) "else" then .goOn (.statement (stop + 2)) else .stop stop
  | .handlers stop =>
    match code.handler? stop with
    | some block => .after (.statement block) .handlers
    | none => .stop stop

inductive Reads : Reading → Nat → Prop where
  | stop {reading : Reading} {last : Nat} : code.move reading = .stop last → Reads reading last
  | goOn {reading next : Reading} {last : Nat} : code.move reading = .goOn next → Reads next last → Reads reading last
  | after {reading part : Reading} {rest : Nat → Reading} {stop last : Nat} :
      code.move reading = .after part rest → Reads part stop → Reads (rest stop) last → Reads reading last

def reach : Reading → Nat
  | .plain start position => code.semicolonFrom start position
  | .statement position => code.statementEnd position
  | .alternative stop => if code.isKeyword (stop + 1) "else" then code.statementEnd (stop + 2) else stop
  | .handlers stop => code.handlersEnd stop

def weight : Reading → Nat
  | .plain _ position => 2 * (code.size - position)
  | .statement position => 2 * (code.size - position) + 1
  | .alternative stop => 2 * (code.size - stop)
  | .handlers stop => 2 * (code.size - stop)

/-- The move goes on to less, and the scans end where it does. -/
def Follows (reading : Reading) : Move → Prop
  | .stop last => code.reach reading = last
  | .goOn next => code.reach reading = code.reach next ∧ code.weight next < code.weight reading
  | .after part rest =>
    code.reach reading = code.reach (rest (code.reach part)) ∧
      code.weight part < code.weight reading ∧ code.weight (rest (code.reach part)) < code.weight reading

variable {code}

/-! ### Groups without a guard -/

theorem Balanced.exists_partner (balanced : code.Balanced) {position : Nat} (opens : code.isOpener position = true) :
    ∃ close, ∃ later : position < close + 1, code.partner? position = some close ∧
      code.afterGroup? position = some ⟨close + 1, later⟩ := by
  obtain ⟨close, later, closed⟩ := balanced.closed opens
  refine ⟨close, Nat.lt_succ_of_lt later, code.close?_eq_some_iff.mp closed, ?_⟩
  rw [afterGroup?, closed]
  rfl

/-- That a list ends behind its opener need not be checked. -/
theorem Balanced.afterList?_eq (balanced : code.Balanced) (position : Nat) :
    code.afterList? position = (code.afterParentheses? position).map (·.val) := by
  unfold afterList? afterParentheses?
  split
  · rename_i parenthesis
    have opens : code.isOpener position = true := by
      unfold isOpener
      rw [any_of_isPunctuation parenthesis]
      rfl
    obtain ⟨close, later, partner, group⟩ := balanced.exists_partner opens
    rw [partner, group]
    rfl
  · rfl

theorem Balanced.afterParentheses?_of_some (balanced : code.Balanced) {position next : Nat}
    (list : code.afterList? position = some next) :
    ∃ later : position < next, code.afterParentheses? position = some ⟨next, later⟩ := by
  rw [balanced.afterList?_eq] at list
  obtain ⟨⟨_, later⟩, found, rfl⟩ := Option.map_eq_some_iff.mp list
  exact ⟨later, found⟩

theorem Balanced.afterParentheses?_of_none (balanced : code.Balanced) {position : Nat}
    (noList : code.afterList? position = none) : code.afterParentheses? position = none := by
  rw [balanced.afterList?_eq] at noList
  exact Option.map_eq_none_iff.mp noList

theorem Balanced.lt_handler? (balanced : code.Balanced) {stop block : Nat} (found : code.handler? stop = some block) :
    stop + 1 < code.size ∧ stop + 1 < block := by
  unfold handler? at found
  split at found
  · rename_i keyword
    obtain ⟨later, _⟩ := balanced.afterParentheses?_of_some found
    exact ⟨code.isKeyword_lt_size keyword, by omega⟩
  · split at found
    · rename_i keyword
      cases found
      exact ⟨code.isKeyword_lt_size keyword, by omega⟩
    · cases found

theorem Balanced.le_statementEnd (balanced : code.Balanced) {bound position : Nat} (inside : bound < code.size)
    (ordered : bound ≤ position) : bound ≤ code.statementEnd position := by
  by_cases left : position < code.size
  · exact Nat.le_trans ordered (statementEnd_portion balanced left).ordered
  · rw [statementEnd_of_size_le (by omega)]
    unfold Code.last
    omega

/-! ### One move -/

theorem follows_plain (balanced : code.Balanced) (start position : Nat) :
    code.Follows (.plain start position) (code.move (.plain start position)) := by
  have ends := semicolonFrom.eq_def code start position
  rw [move]
  split
  · rename_i inside
    rw [if_pos inside] at ends
    have goOn {next : Nat} (later : position < next)
        (same : code.semicolonFrom start position = code.semicolonFrom start next) :
        code.Follows (.plain start position) (.goOn (.plain start next)) := by
      refine ⟨same, ?_⟩
      change 2 * (code.size - next) < 2 * (code.size - position)
      omega
    split
    · rename_i semicolon
      rw [if_pos semicolon] at ends
      exact ends
    rename_i noSemicolon
    rw [if_neg noSemicolon] at ends
    split
    · rename_i opens
      obtain ⟨close, later, partner, group⟩ := balanced.exists_partner opens
      rw [group] at ends
      rw [partner]
      exact goOn later ends
    rename_i noOpener
    have noGroup : code.afterGroup? position = none := by
      rw [afterGroup?, balanced.close?_eq_none (Bool.eq_false_iff.mpr noOpener)]
      rfl
    rw [noGroup] at ends
    dsimp only at ends
    split
    · rename_i closes
      rw [if_pos closes] at ends
      exact ends
    · rename_i noCloser
      rw [if_neg noCloser] at ends
      exact goOn (Nat.lt_succ_self _) ends
  · rename_i outside
    exact semicolonFrom_of_size_le (by omega)

theorem follows_alternative (stop : Nat) : code.Follows (.alternative stop) (code.move (.alternative stop)) := by
  rw [move]
  split
  · rename_i keyword
    have inside := code.isKeyword_lt_size keyword
    constructor
    · exact if_pos keyword
    · change 2 * (code.size - (stop + 2)) + 1 < 2 * (code.size - stop)
      omega
  · rename_i noKeyword
    exact if_neg noKeyword

/-- A handler ends behind the part in front of it, so that the guard of the scan is never used. -/
theorem handlersEnd_eq (balanced : code.Balanced) (stop : Nat) :
    code.handlersEnd stop = match code.handler? stop with
      | some block => code.handlersEnd (code.statementEnd block)
      | none => stop := by
  have further {block : Nat} (inside : stop + 1 < code.size) (later : stop + 1 < block) :
      max (stop + 1) (code.statementEnd block) = code.statementEnd block :=
    Nat.max_eq_right (balanced.le_statementEnd inside (Nat.le_of_lt later))
  rw [handlersEnd, handler?]
  split
  · rename_i inside
    split
    · rw [balanced.afterList?_eq]
      split
      · rename_i block later list
        rw [list, further inside (by omega)]
        rfl
      · rename_i list
        rw [list]
        rfl
    · split
      · rw [further inside (by omega)]
      · rfl
  · rename_i outside
    rw [if_neg (fun keyword => outside (code.isKeyword_lt_size keyword)),
      if_neg (fun keyword => outside (code.isKeyword_lt_size keyword))]

theorem follows_handlers (balanced : code.Balanced) (stop : Nat) :
    code.Follows (.handlers stop) (code.move (.handlers stop)) := by
  have ends := handlersEnd_eq balanced stop
  rw [move]
  split
  · rename_i block found
    rw [found] at ends
    obtain ⟨inside, later⟩ := balanced.lt_handler? found
    have reached := balanced.le_statementEnd inside (Nat.le_of_lt later)
    refine ⟨ends, ?_, ?_⟩
    · change 2 * (code.size - block) + 1 < 2 * (code.size - stop)
      omega
    · change 2 * (code.size - code.statementEnd block) < 2 * (code.size - stop)
      omega
  · rename_i noHandler
    rw [noHandler] at ends
    exact ends

/-- A statement that begins like a statement further on. -/
theorem follows_goOn {position body : Nat} (inside : position < code.size) (later : position < body)
    (ends : code.statementEnd position = code.statementEnd body) :
    code.Follows (.statement position) (.goOn (.statement body)) := by
  refine ⟨ends, ?_⟩
  change 2 * (code.size - body) + 1 < 2 * (code.size - position) + 1
  omega

/-- A statement with a part further on, behind which its rest is read. -/
theorem follows_after (balanced : code.Balanced) {position block : Nat} {rest : Nat → Reading}
    (inside : position < code.size) (later : position < block)
    (lighter : ∀ stop, code.weight (rest stop) ≤ 2 * (code.size - stop))
    (ends : code.statementEnd position = code.reach (rest (code.statementEnd block))) :
    code.Follows (.statement position) (.after (.statement block) rest) := by
  have reached := balanced.le_statementEnd inside (Nat.le_of_lt later)
  have bound := lighter (code.statementEnd block)
  refine ⟨ends, ?_, ?_⟩
  · change 2 * (code.size - block) + 1 < 2 * (code.size - position) + 1
    omega
  · change code.weight (rest (code.statementEnd block)) < 2 * (code.size - position) + 1
    omega

theorem follows_statement (balanced : code.Balanced) (position : Nat) :
    code.Follows (.statement position) (code.move (.statement position)) := by
  -- move and scan make the same tests in the same order, and each is taken off both at once
  have ends := statementEnd.eq_def code position
  rw [move]
  split
  · rename_i inside
    rw [if_pos inside] at ends
    have plain (same : code.statementEnd position = code.semicolonFrom position position) :
        code.Follows (.statement position) (.goOn (.plain position position)) := ⟨same, Nat.lt_succ_self _⟩
    have reached {block : Nat} (later : position < block) : position ≤ code.statementEnd block :=
      balanced.le_statementEnd inside (Nat.le_of_lt later)
    split
    · rename_i brace
      obtain ⟨close, later, closed⟩ := balanced.close_of_isPunctuation brace (by decide)
      rw [if_pos brace, closed] at ends
      rw [code.close?_eq_some_iff.mp closed]
      exact ends
    rename_i noBrace
    rw [if_neg noBrace] at ends
    split
    · rename_i loop
      rw [if_pos loop] at ends
      split
      · rename_i body list
        obtain ⟨later, found⟩ := balanced.afterParentheses?_of_some list
        rw [found] at ends
        exact follows_goOn inside (by omega) ends
      · rename_i noList
        rw [balanced.afterParentheses?_of_none noList] at ends
        exact plain ends
    rename_i noLoop
    rw [if_neg noLoop] at ends
    split
    · rename_i branch
      rw [if_pos branch] at ends
      split
      · rename_i body list
        obtain ⟨later, found⟩ := balanced.afterParentheses?_of_some list
        have ordered : position ≤ code.statementEnd body := reached (by omega)
        rw [found] at ends
        dsimp only at ends
        rw [Nat.max_eq_right (by omega)] at ends
        exact follows_after balanced inside (by omega) (fun _ => Nat.le_refl _) ends
      · rename_i noList
        rw [balanced.afterParentheses?_of_none noList] at ends
        exact plain ends
    rename_i noBranch
    rw [if_neg noBranch] at ends
    split
    · rename_i body
      rw [if_pos body] at ends
      refine follows_after balanced inside (Nat.lt_succ_self _) ?_ ends
      intro stop
      change 2 * (code.size - (stop + 1)) ≤ 2 * (code.size - stop)
      omega
    rename_i noBody
    rw [if_neg noBody] at ends
    split
    · rename_i attempt
      rw [if_pos attempt] at ends
      cases list : code.afterList? (position + 1) with
      | none =>
          rw [balanced.afterParentheses?_of_none list] at ends
          dsimp only at ends
          rw [Nat.max_eq_right (reached (Nat.lt_succ_self _))] at ends
          exact follows_after balanced inside (Nat.lt_succ_self _) (fun _ => Nat.le_refl _) ends
      | some block =>
          obtain ⟨later, found⟩ := balanced.afterParentheses?_of_some list
          have further : position < block := by omega
          rw [found] at ends
          dsimp only at ends
          rw [Nat.max_eq_right (reached further)] at ends
          exact follows_after balanced inside further (fun _ => Nat.le_refl _) ends
    · rename_i noAttempt
      rw [if_neg noAttempt] at ends
      exact plain ends
  · rename_i outside
    exact statementEnd_of_size_le (by omega)

theorem follows_move (balanced : code.Balanced) (reading : Reading) : code.Follows reading (code.move reading) := by
  cases reading with
  | plain start position => exact follows_plain balanced start position
  | statement position => exact follows_statement balanced position
  | alternative stop => exact follows_alternative stop
  | handlers stop => exact follows_handlers balanced stop

/-! ### Whole readings -/

/-- The part in front of a rest ends where the scan does, and only therefore the rest is lighter. -/
theorem reads_reach (balanced : code.Balanced) (reading : Reading) : code.Reads reading (code.reach reading) := by
  have follows := follows_move balanced reading
  cases moved : code.move reading with
  | stop last =>
      rw [moved] at follows
      rw [show code.reach reading = last from follows]
      exact .stop moved
  | goOn next =>
      rw [moved] at follows
      obtain ⟨ends, lighter⟩ := follows
      rw [ends]
      exact .goOn moved (reads_reach balanced next)
  | after part rest =>
      rw [moved] at follows
      obtain ⟨ends, partLighter, restLighter⟩ := follows
      rw [ends]
      exact .after moved (reads_reach balanced part) (reads_reach balanced (rest (code.reach part)))
termination_by code.weight reading

theorem Reads.eq_reach (balanced : code.Balanced) {reading : Reading} {last : Nat} (reads : code.Reads reading last) :
    last = code.reach reading := by
  induction reads with
  | @stop reading last moved =>
      have follows := follows_move balanced reading
      rw [moved] at follows
      exact follows.symm
  | @goOn reading next last moved _ ih =>
      have follows := follows_move balanced reading
      rw [moved] at follows
      exact ih.trans follows.1.symm
  | @after reading part rest stop last moved _ _ partEnd restEnd =>
      have follows := follows_move balanced reading
      rw [moved] at follows
      rw [partEnd] at restEnd
      exact restEnd.trans follows.1.symm

theorem reads_statement_iff (balanced : code.Balanced) {position last : Nat} :
    code.Reads (.statement position) last ↔ last = code.statementEnd position := by
  constructor
  · exact Reads.eq_reach balanced
  · intro same
    rw [same]
    exact reads_reach balanced (.statement position)

/-- Reading a statement comes to an end from every word, at one position, which lies between the word and the last one.
Every group that opens between the two also closes there. -/
theorem statement_extent_exact {tokens : List Token} (paired : Code.ofTokens tokens = .ok code) {position : Nat}
    (inside : position < code.size) :
    (∀ last, code.Reads (.statement position) last ↔ last = code.statementEnd position) ∧
      position ≤ code.statementEnd position ∧ code.statementEnd position ≤ code.last ∧
      ∀ opener, position ≤ opener → opener ≤ code.statementEnd position → code.isOpener opener = true →
        ∃ closer, code.partner? opener = some closer ∧ position ≤ closer ∧ closer ≤ code.statementEnd position := by
  have balanced := ofTokens_balanced paired
  have portion := statementEnd_portion balanced inside
  refine ⟨fun last => reads_statement_iff balanced, portion.ordered, Nat.le_sub_one_of_lt portion.inside, ?_⟩
  intro opener low high opens
  obtain ⟨closer, later, closed⟩ := balanced.closed opens
  have before := portion.level opener closer later low (Nat.lt_succ_of_le high) closed
  exact ⟨closer, code.close?_eq_some_iff.mp closed, by omega, Nat.le_of_lt_succ before⟩

/-- A branch that is cut off by the closer of its block, and a handler at the end of the code. -/
theorem statement_extent_exact_cut_off :
    ∃ tokens code, Token.ofText "\x7b if (a) \x7d else try \x7b f(); \x7d catch (E e) \x7b \x7d finally" = .ok tokens ∧
      Code.ofTokens tokens = .ok code ∧ 1 < code.size ∧ code.Reads (.statement 1) 21 ∧
      ∀ opener, 1 ≤ opener → opener ≤ 21 → code.isOpener opener = true →
        ∃ closer, code.partner? opener = some closer ∧ 1 ≤ closer ∧ closer ≤ 21 := by
  have computed : ((Token.ofText
      "\x7b if (a) \x7d else try \x7b f(); \x7d catch (E e) \x7b \x7d finally").toOption.any fun tokens =>
      (Code.ofTokens tokens).toOption.any fun code =>
        decide (1 < code.size ∧ code.statementEnd 1 = 21)) = true := by
    decide +kernel
  obtain ⟨tokens, split, further⟩ := exists_ok_of_any computed
  obtain ⟨code, paired, facts⟩ := exists_ok_of_any further
  obtain ⟨inside, found⟩ := of_decide_eq_true facts
  obtain ⟨reads, _, _, groups⟩ := statement_extent_exact paired inside
  rw [found] at reads groups
  exact ⟨tokens, code, split, paired, inside, (reads 21).mpr rfl, groups⟩

end ScopedRename.Code
