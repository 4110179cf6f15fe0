import ScopedRename.Proofs.Code.Reach
import ScopedRename.Proofs.Code.Statements
import ScopedRename.Proofs.Token.Tiling

/-!
The commas of a list and the items between them. A comma inside a nested group belongs to that group. One inside the type
arguments of a created type belongs to the type, but type arguments are no group, so the split at commas takes it for one
of the list. Main statement: the number of arguments of a call is one more than the number of commas that separate them
if and only if none of its own commas stands among the type arguments of a created type.
-/

namespace ScopedRename.Code

variable (code : Code)

def isOuter (first position : Nat) : Bool :=
  (List.range' first (position - first)).all fun opener => (code.close? opener).all (·.val < position)

def ownCommas (first stop : Nat) : List Nat :=
  (List.range' first (stop - first)).filter fun position =>
    code.isPunctuation position "," && code.isOuter first position

/-- The end of the type arguments that open at the position, directly behind the name of a created type. -/
def creationClose? : Nat → Option Nat
  | 0 => none
  | name + 1 =>
    if code.isIdentifier name && code.isPunctuation (name + 1) "<"
        && code.followsKeyword (code.qualifiedStart name) "new" then
      code.angleClose? (name + 1)
    else
      none

def isCreationArgument (position : Nat) : Bool :=
  (List.range position).any fun start => (code.creationClose? start).any (position < ·)

def separators (first stop : Nat) : List Nat :=
  (code.ownCommas first stop).filter (!code.isCreationArgument ·)

structure Separated (first stop : Nat) : Prop where
  nonempty : first < stop
  before : first ∉ code.separators first stop
  behind : ∀ comma ∈ code.separators first stop, comma + 1 < stop ∧ comma + 1 ∉ code.separators first stop

instance (first stop : Nat) : Decidable (code.Separated first stop) :=
  decidable_of_iff
    (first < stop ∧ first ∉ code.separators first stop ∧
      ∀ comma ∈ code.separators first stop, comma + 1 < stop ∧ comma + 1 ∉ code.separators first stop)
    ⟨fun ⟨nonempty, before, behind⟩ => ⟨nonempty, before, behind⟩,
      fun separated => ⟨separated.nonempty, separated.before, separated.behind⟩⟩

variable {code} {first stop position : Nat}

theorem isOuter_iff : code.isOuter first position = true ↔ code.Level first position := by
  unfold isOuter Level
  rw [List.all_eq_true]
  constructor
  · intro outer opener closer later low high closed
    have here := outer opener (List.mem_range'_1.mpr ⟨low, by omega⟩)
    rw [closed] at here
    exact of_decide_eq_true here
  · intro level opener member
    have bounds := List.mem_range'_1.mp member
    cases closed : code.close? opener with
    | none => rfl
    | some found =>
        exact decide_eq_true (level opener found.val found.property bounds.1 (by omega) closed)

theorem mem_ownCommas {comma : Nat} :
    comma ∈ code.ownCommas first stop ↔
      (first ≤ comma ∧ comma < stop) ∧ code.isPunctuation comma "," = true ∧ code.Level first comma := by
  unfold ownCommas
  rw [List.mem_filter, List.mem_range'_1, Bool.and_eq_true, isOuter_iff]
  refine and_congr_left fun _ => ?_
  omega

theorem mem_separators {comma : Nat} :
    comma ∈ code.separators first stop ↔
      comma ∈ code.ownCommas first stop ∧ code.isCreationArgument comma = false := by
  unfold separators
  rw [List.mem_filter, Bool.not_eq_true']

theorem isCreationArgument_iff :
    code.isCreationArgument position = true ↔
      ∃ start close, code.creationClose? start = some close ∧ start < position ∧ position < close := by
  unfold isCreationArgument
  rw [List.any_eq_true]
  constructor
  · rintro ⟨start, member, inside⟩
    obtain ⟨close, closed, before⟩ := (Option.any_eq_true _ _).mp inside
    exact ⟨start, close, closed, List.mem_range.mp member, of_decide_eq_true before⟩
  · rintro ⟨start, close, closed, behind, before⟩
    exact ⟨start, List.mem_range.mpr behind, (Option.any_eq_true _ _).mpr ⟨close, closed, decide_eq_true before⟩⟩

theorem angleCloseFrom_closes {depth close : Nat} (found : code.angleCloseFrom depth position = some close) :
    code.isPunctuation close ">" = true := by
  fun_induction code.angleCloseFrom depth position with
  | case1 => cases found
  | case2 depth position _ _ _ ih => exact ih found
  | case3 depth position _ _ _ closes _ =>
      cases found
      exact closes
  | case4 depth position _ _ _ _ _ ih => exact ih found
  | case5 depth position _ _ _ _ ih => exact ih found
  | case6 => cases found

theorem creationClose?_parts {start close : Nat} (closed : code.creationClose? start = some close) :
    code.isPunctuation start "<" = true ∧ code.isPunctuation close ">" = true ∧
      ∀ word, start ≤ word → word ≤ close → code.isTypeArgumentPart word = true := by
  unfold creationClose? at closed
  split at closed
  · cases closed
  · split at closed
    · rename_i opens
      rw [Bool.and_eq_true, Bool.and_eq_true] at opens
      exact ⟨opens.1.2, angleCloseFrom_closes closed, (code.angleCloseFrom_bounds closed).2⟩
    · cases closed

/-! ### Counting items -/

variable (code) in
def precedesItem (first stop comma : Nat) : Bool :=
  code.isPunctuation comma "," && code.isOuter first comma
    && (decide (comma + 1 < stop) && !code.isPunctuation (comma + 1) ",")

variable (code) in
private def itemCommas (first stop position : Nat) : Nat :=
  (List.range' position (stop - position)).countP (code.precedesItem first stop)

private theorem itemCommas_succ (inside : position < stop) :
    code.itemCommas first stop position =
      (code.precedesItem first stop position).toNat + code.itemCommas first stop (position + 1) := by
  unfold itemCommas
  have size : stop - position = stop - (position + 1) + 1 := by omega
  rw [size, List.range'_succ, List.countP_cons, Nat.add_comm]
  cases code.precedesItem first stop position <;> rfl

private theorem noComma_of_close? (balanced : code.Balanced) {closer : Nat} {later : position < closer}
    (closed : code.close? position = some ⟨closer, later⟩) : code.isPunctuation position "," = false := by
  rw [Bool.eq_false_iff]
  intro comma
  have opener := balanced.opens closed
  rw [isOpener_of_isPunctuation comma (by decide)] at opener
  cases opener

/-- No comma of the list stands inside a group. -/
private theorem itemCommas_group (balanced : code.Balanced) {closer : Nat} {later : position < closer}
    (closed : code.close? position = some ⟨closer, later⟩) (low : first ≤ position) (inside : closer < stop) :
    code.itemCommas first stop position = code.itemCommas first stop (closer + 1) := by
  have nested : ∀ word ∈ List.range' position (closer + 1 - position), ¬code.precedesItem first stop word = true := by
    intro word member item
    have bounds := List.mem_range'_1.mp member
    unfold precedesItem at item
    rw [Bool.and_eq_true, Bool.and_eq_true, isOuter_iff] at item
    rcases Nat.eq_or_lt_of_le bounds.1 with rfl | behind
    · rw [noComma_of_close? balanced closed] at item
      exact absurd item.1.1 (by decide)
    · have ends := item.1.2 position closer later low behind closed
      omega
  have split : List.range' position (stop - position) =
      List.range' position (closer + 1 - position) ++ List.range' (closer + 1) (stop - (closer + 1)) := by
    have size : stop - position = closer + 1 - position + (stop - (closer + 1)) := by omega
    have middle : closer + 1 = position + (closer + 1 - position) := by omega
    rw [size, List.range'_append_1.symm, ← middle]
  unfold itemCommas
  rw [split, List.countP_append, List.countP_eq_zero.mpr nested, Nat.zero_add]

/-- A list has as many segments as it has items: one at its start, if a word stands there that is no comma, and one
behind each comma that an item follows. -/
theorem length_segmentsFrom (balanced : code.Balanced) (whole : code.Level first stop) {start : Nat}
    (low : first ≤ position) (ordered : start ≤ position) (high : position ≤ stop) (outer : code.Level first position) :
    (code.segmentsFrom stop false start 0 position).length =
      (decide (start < position) || decide (position < stop) && !code.isPunctuation position ",").toNat +
        code.itemCommas first stop position := by
  -- generics are off, so the cases for angle brackets cannot arise
  generalize plain : false = generics
  generalize flat : 0 = angle
  fun_induction code.segmentsFrom stop generics start angle position with
  | case1 start angle position inside next later group ih =>
      obtain ⟨closer, behind, closed, rfl⟩ := afterGroup?_eq_some group
      have ends := whole position closer behind low inside closed
      rw [ih (by omega) (by omega) (by omega) (outer.trans (Level.group balanced closed) (by omega)) flat,
        itemCommas_group balanced closed low ends, noComma_of_close? balanced closed]
      simp [inside, show start < closer + 1 by omega]
  | case2 start angle position inside noGroup opens ih =>
      subst plain
      cases opens
  | case3 start angle position inside noGroup _ closes ih =>
      subst plain
      cases closes
  | case4 start angle position inside noGroup _ _ separates ih =>
      have comma := (Bool.and_eq_true_iff.mp separates).2
      have further := outer.trans (Level.word (afterGroup?_eq_none noGroup)) (Nat.le_succ _)
      rw [List.length_append, ih (by omega) (Nat.le_refl _) inside further flat, itemCommas_succ inside]
      -- a comma of the list counts if an item follows it
      have item : code.precedesItem first stop position =
          (decide (position + 1 < stop) && !code.isPunctuation (position + 1) ",") := by
        unfold precedesItem
        rw [comma, isOuter_iff.mpr outer, Bool.true_and, Bool.true_and]
      rw [item, comma]
      by_cases nonempty : start < position
      · simp [nonempty]
      · simp [nonempty]
  | case5 start angle position inside noGroup noOpen noClose noComma ih =>
      subst plain flat
      have other : code.isPunctuation position "," = false := by simpa using noComma
      have further := outer.trans (Level.word (afterGroup?_eq_none noGroup)) (Nat.le_succ _)
      rw [ih (by omega) (by omega) inside further rfl, itemCommas_succ inside]
      have item : code.precedesItem first stop position = false := by
        unfold precedesItem
        rw [other, Bool.false_and, Bool.false_and]
      rw [item, other]
      simp [inside, show start < position + 1 by omega]
  | case6 start angle position outside nonempty =>
      have ends : position = stop := by omega
      subst ends
      simp [itemCommas, nonempty]
  | case7 start angle position outside empty =>
      have ends : position = stop := by omega
      have same : start = position := by omega
      subst ends
      simp [itemCommas, same]

/-- A call has an argument at its start, if a word stands there that is no comma, and one behind each of its own commas
that no comma and no closer follows. -/
theorem argumentCount_eq (balanced : code.Balanced) {opener close : Nat} {later : opener < close}
    (closed : code.close? opener = some ⟨close, later⟩) :
    code.argumentCount opener =
      (decide (opener + 1 < close) && !code.isPunctuation (opener + 1) ",").toNat +
        (code.ownCommas (opener + 1) close).countP fun comma =>
          decide (comma + 1 < close) && !code.isPunctuation (comma + 1) "," := by
  have whole : code.Level (opener + 1) close := fun inner innerCloser innerLater low high found =>
    balanced.nested closed found low high
  have items : code.itemCommas (opener + 1) close (opener + 1) =
      (code.ownCommas (opener + 1) close).countP fun comma =>
        decide (comma + 1 < close) && !code.isPunctuation (comma + 1) "," := by
    unfold itemCommas ownCommas precedesItem
    rw [List.countP_filter]
    exact List.countP_congr fun comma _ => by rw [Bool.and_comm]
  unfold argumentCount segments
  rw [closed]
  dsimp only
  rw [length_segmentsFrom balanced whole (Nat.le_refl _) (Nat.le_refl _) later (Level.refl _), items,
    decide_eq_false (Nat.lt_irrefl _), Bool.false_or]

/-! ### Type arguments of created types -/

theorem isCreationArgument_of_succ (comma : code.isPunctuation position "," = true)
    (inside : code.isCreationArgument (position + 1) = true) : code.isCreationArgument position = true := by
  obtain ⟨start, close, closed, behind, before⟩ := isCreationArgument_iff.mp inside
  have opens := (creationClose?_parts closed).1
  refine isCreationArgument_iff.mpr ⟨start, close, closed, ?_, by omega⟩
  rcases Nat.eq_or_lt_of_le (Nat.le_of_lt_succ behind) with rfl | earlier
  · rw [code.isPunctuation_of_ne comma (by decide)] at opens
    cases opens
  · exact earlier

theorem isCreationArgument_succ (comma : code.isPunctuation (position + 1) "," = true)
    (inside : code.isCreationArgument position = true) : code.isCreationArgument (position + 1) = true := by
  obtain ⟨start, close, closed, behind, before⟩ := isCreationArgument_iff.mp inside
  have closes := (creationClose?_parts closed).2.1
  refine isCreationArgument_iff.mpr ⟨start, close, closed, by omega, ?_⟩
  rcases Nat.eq_or_lt_of_le (Nat.succ_le_of_lt before) with rfl | earlier
  · rw [code.isPunctuation_of_ne comma (by decide)] at closes
    cases closes
  · exact earlier

private theorem isTypeArgumentPart_of_parenthesis {mark : String} (here : code.isPunctuation position mark = true)
    (parenthesis : mark = "(" ∨ mark = ")") : code.isTypeArgumentPart position = false := by
  have other : code.isTypePart position = false := by
    rw [code.isTypePart_of_isPunctuation here]
    rcases parenthesis with rfl | rfl
    · decide
    · decide
  unfold isTypePart at other
  exact (Bool.or_eq_false_iff.mp other).1

theorem isCreationArgument_of_opener (opens : code.isPunctuation position "(" = true) :
    code.isCreationArgument (position + 1) = false := by
  rw [Bool.eq_false_iff]
  intro inside
  obtain ⟨start, close, closed, behind, before⟩ := isCreationArgument_iff.mp inside
  have part := (creationClose?_parts closed).2.2 position (by omega) (by omega)
  rw [isTypeArgumentPart_of_parenthesis opens (Or.inl rfl)] at part
  cases part

theorem succ_lt_of_isCreationArgument {close : Nat} (closes : code.isPunctuation close ")" = true)
    (inside : code.isCreationArgument position = true) (before : position < close) : position + 1 < close := by
  obtain ⟨start, angle, closed, behind, high⟩ := isCreationArgument_iff.mp inside
  by_contra here
  have part := (creationClose?_parts closed).2.2 close (by omega) (by omega)
  rw [isTypeArgumentPart_of_parenthesis closes (Or.inr rfl)] at part
  cases part

theorem Matched.closes_round (matched : code.Matched) {opener close : Nat} {later : opener < close}
    (closed : code.close? opener = some ⟨close, later⟩) (opens : code.isPunctuation opener "(" = true) :
    code.isPunctuation close ")" = true := by
  obtain ⟨delimiter, first, last⟩ := matched.marks closed
  cases delimiter with
  | round => exact last
  | square =>
      rw [code.isPunctuation_of_ne opens (by decide)] at first
      cases first
  | curly =>
      rw [code.isPunctuation_of_ne opens (by decide)] at first
      cases first

private theorem succ_mem_ownCommas (balanced : code.Balanced) {comma : Nat} (own : comma ∈ code.ownCommas first stop)
    (inside : comma + 1 < stop) (next : code.isPunctuation (comma + 1) "," = true) :
    comma + 1 ∈ code.ownCommas first stop := by
  obtain ⟨bounds, here, level⟩ := mem_ownCommas.mp own
  have word := Level.word (balanced.close?_eq_none (isOpener_of_isPunctuation here (by decide)))
  exact mem_ownCommas.mpr ⟨⟨by omega, inside⟩, next, level.trans word (Nat.le_succ _)⟩

/-- The arguments of a call are one more than its separators, and one more for each comma among type arguments that no
comma follows directly. -/
theorem argumentCount_of_separated (matched : code.Matched) {opener close : Nat} {later : opener < close}
    (closed : code.close? opener = some ⟨close, later⟩) (opens : code.isPunctuation opener "(" = true)
    (separated : code.Separated (opener + 1) close) :
    code.argumentCount opener =
      1 + (code.separators (opener + 1) close).length +
        ((code.ownCommas (opener + 1) close).filter code.isCreationArgument).countP fun comma =>
          !code.isPunctuation (comma + 1) "," := by
  have start : code.isPunctuation (opener + 1) "," = false := by
    rw [Bool.eq_false_iff]
    intro comma
    refine separated.before (mem_separators.mpr ⟨?_, isCreationArgument_of_opener opens⟩)
    exact mem_ownCommas.mpr ⟨⟨Nat.le_refl _, separated.nonempty⟩, comma, Level.refl _⟩
  have items : ∀ comma ∈ code.separators (opener + 1) close,
      (decide (comma + 1 < close) && !code.isPunctuation (comma + 1) ",") = true := by
    intro comma member
    obtain ⟨own, plain⟩ := mem_separators.mp member
    obtain ⟨inside, apart⟩ := separated.behind comma member
    rw [decide_eq_true inside, Bool.true_and, Bool.not_eq_true', Bool.eq_false_iff]
    intro next
    refine apart (mem_separators.mpr ⟨succ_mem_ownCommas matched.toBalanced own inside next, ?_⟩)
    rw [Bool.eq_false_iff]
    intro among
    rw [isCreationArgument_of_succ (mem_ownCommas.mp own).2.1 among] at plain
    cases plain
  have among : ∀ comma ∈ (code.ownCommas (opener + 1) close).filter code.isCreationArgument,
      (decide (comma + 1 < close) && !code.isPunctuation (comma + 1) ",") = true ↔
        (!code.isPunctuation (comma + 1) ",") = true := by
    intro comma member
    obtain ⟨own, argument⟩ := List.mem_filter.mp member
    have inside := succ_lt_of_isCreationArgument (matched.closes_round closed opens) argument (mem_ownCommas.mp own).1.2
    rw [decide_eq_true inside, Bool.true_and]
  rw [argumentCount_eq matched.toBalanced closed, start, decide_eq_true separated.nonempty,
    List.countP_eq_countP_filter_add _ _ code.isCreationArgument, List.countP_congr among]
  unfold separators at items ⊢
  rw [List.countP_eq_length.mpr items, Bool.not_false, Bool.true_and, Bool.toNat_true]
  omega

private theorem exists_counted (balanced : code.Balanced) {stop : Nat}
    (within : ∀ comma ∈ code.ownCommas first stop, code.isCreationArgument comma = true → comma + 1 < stop)
    {comma : Nat} (own : comma ∈ code.ownCommas first stop) (argument : code.isCreationArgument comma = true) :
    ∃ last ∈ (code.ownCommas first stop).filter code.isCreationArgument,
      (!code.isPunctuation (last + 1) ",") = true := by
  cases next : code.isPunctuation (comma + 1) "," with
  | false => exact ⟨comma, List.mem_filter.mpr ⟨own, argument⟩, by rw [next]; rfl⟩
  | true =>
      have inside := within comma own argument
      exact exists_counted balanced within (succ_mem_ownCommas balanced own inside next)
        (isCreationArgument_succ next argument)
termination_by stop - comma

/-- A call of balanced code has no arguments if nothing stands between its parentheses. Otherwise, if words stand before,
between and after the commas that separate its arguments, the arguments are one more than those commas if and only if no
comma of the call stands among the type arguments of a created type. -/
theorem argument_count_iff {tokens : List Token} {code : Code} (paired : Code.ofTokens tokens = .ok code)
    {opener close : Nat} {later : opener < close} (opens : code.isPunctuation opener "(" = true)
    (closed : code.close? opener = some ⟨close, later⟩) :
    (close = opener + 1 → code.argumentCount opener = 0) ∧
      (code.Separated (opener + 1) close →
        (code.argumentCount opener = 1 + (code.separators (opener + 1) close).length ↔
          ∀ comma ∈ code.ownCommas (opener + 1) close, code.isCreationArgument comma = false)) := by
  have matched := Code.ofTokens_matched paired
  constructor
  · rintro rfl
    rw [argumentCount_eq matched.toBalanced closed, ownCommas, Nat.sub_self, decide_eq_false (Nat.lt_irrefl _)]
    rfl
  · intro separated
    rw [argumentCount_of_separated matched closed opens separated]
    constructor
    · intro counts comma own
      rw [Bool.eq_false_iff]
      intro argument
      have within : ∀ comma ∈ code.ownCommas (opener + 1) close, code.isCreationArgument comma = true →
          comma + 1 < close := fun comma own argument =>
        succ_lt_of_isCreationArgument (matched.closes_round closed opens) argument (mem_ownCommas.mp own).1.2
      obtain ⟨last, member, counted⟩ := exists_counted matched.toBalanced within own argument
      have positive : 0 < ((code.ownCommas (opener + 1) close).filter code.isCreationArgument).countP fun comma =>
          !code.isPunctuation (comma + 1) "," := List.countP_pos_iff.mpr ⟨last, member, counted⟩
      omega
    · intro plain
      have none : (code.ownCommas (opener + 1) close).filter code.isCreationArgument = [] :=
        List.filter_eq_nil_iff.mpr fun comma own => by rw [plain comma own]; exact Bool.false_ne_true
      rw [none, List.countP_nil, Nat.add_zero]

/-- A call with a nested call, an array and the creation of a generic object with one type argument. -/
theorem argument_count_iff_nested :
    ∃ tokens code close, ∃ later : 1 < close,
      Token.ofText "f(g(1, 2), a[0], new M<A>(b, c))" = .ok tokens ∧ Code.ofTokens tokens = .ok code ∧
      code.isPunctuation 1 "(" = true ∧ code.close? 1 = some ⟨close, later⟩ ∧ code.Separated 2 close ∧
      code.argumentCount 1 = 3 ∧ (code.separators 2 close).length = 2 ∧
      ∀ comma ∈ code.ownCommas 2 close, code.isCreationArgument comma = false := by
  have computed : ((Token.ofText "f(g(1, 2), a[0], new M<A>(b, c))").toOption.any fun tokens =>
      (Code.ofTokens tokens).toOption.any fun code =>
        (code.close? 1).any fun close => decide (code.isPunctuation 1 "(" = true ∧ code.Separated 2 close.val ∧
          code.argumentCount 1 = 3 ∧ (code.separators 2 close.val).length = 2)) = true := by
    decide +kernel
  obtain ⟨tokens, split, further⟩ := exists_ok_of_any computed
  obtain ⟨code, paired, read⟩ := exists_ok_of_any further
  obtain ⟨⟨close, later⟩, closed, facts⟩ := (Option.any_eq_true _ _).mp read
  obtain ⟨opens, separated, count, commas⟩ := of_decide_eq_true facts
  refine ⟨tokens, code, close, later, split, paired, opens, closed, separated, count, commas, ?_⟩
  refine ((argument_count_iff paired opens closed).2 separated).mp ?_
  rw [count, commas]

/-- The comma between the type arguments of a created object is counted as if it separated two arguments. -/
theorem argument_miscounted :
    ∃ tokens code close, ∃ later : 1 < close,
      Token.ofText "f(new M<A, B>())" = .ok tokens ∧ Code.ofTokens tokens = .ok code ∧
      code.isPunctuation 1 "(" = true ∧ code.close? 1 = some ⟨close, later⟩ ∧ code.Separated 2 close ∧
      code.separators 2 close = [] ∧ code.argumentCount 1 = 2 := by
  have computed : ((Token.ofText "f(new M<A, B>())").toOption.any fun tokens =>
      (Code.ofTokens tokens).toOption.any fun code =>
        (code.close? 1).any fun close => decide (code.isPunctuation 1 "(" = true ∧ code.Separated 2 close.val ∧
          code.separators 2 close.val = [] ∧ code.argumentCount 1 = 2)) = true := by
    decide +kernel
  obtain ⟨tokens, split, further⟩ := exists_ok_of_any computed
  obtain ⟨code, paired, read⟩ := exists_ok_of_any further
  obtain ⟨⟨close, later⟩, closed, facts⟩ := (Option.any_eq_true _ _).mp read
  obtain ⟨opens, separated, commas, count⟩ := of_decide_eq_true facts
  exact ⟨tokens, code, close, later, split, paired, opens, closed, separated, commas, count⟩

end ScopedRename.Code
