import Mathlib.Data.List.Range
import ScopedRename.Proofs.Code.Reach
import ScopedRename.Proofs.Token.Tiling

/-!
The two scans that match angle brackets, upwards from an opening one and downwards from a closing one. Both are one scan
over a list of words with a counter that may be any integer; they differ in the order of the words and in the bracket
that adds to the counter. Main statement: they find the same pairs, those around a list of type arguments, and neither
counter is ever negative.
-/

namespace ScopedRename.Code

/-- What a scan for the partner of a bracket finds, and the values its counter takes on the way. -/
structure AngleScan where
  found : Option Nat
  counters : List Int

def AngleScan.after (counter : Int) (scan : AngleScan) : AngleScan := ⟨scan.found, counter :: scan.counters⟩

variable (code : Code)

def angleScan (opener closer : String) : Int → List Nat → AngleScan
  | _, [] => ⟨none, []⟩
  | depth, word :: rest =>
    if !code.isTypeArgumentPart word then ⟨none, []⟩
    else if code.isPunctuation word opener then (angleScan opener closer (depth + 1) rest).after (depth + 1)
    else if code.isPunctuation word closer then
      if depth - 1 = 0 then ⟨some word, [depth - 1]⟩ else (angleScan opener closer (depth - 1) rest).after (depth - 1)
    else (angleScan opener closer depth rest).after depth

def scanUp (start : Nat) : AngleScan := code.angleScan "<" ">" 0 (List.range' start (code.size - start))

def scanDown (close : Nat) : AngleScan := code.angleScan ">" "<" 0 (List.range (close + 1)).reverse

def excess (opener closer : String) (words : List Nat) : Int :=
  (words.countP (code.isPunctuation · opener) : Int) - words.countP (code.isPunctuation · closer)

/-- With `depth` brackets open in front of them, the words may stand among type arguments and close all of these but the
outermost. -/
structure Nested (opener closer : String) (depth : Int) (words : List Nat) : Prop where
  parts : ∀ word ∈ words, code.isTypeArgumentPart word = true
  pending : ∀ front back, words = front ++ back → 0 < depth + code.excess opener closer front
  level : depth + code.excess opener closer words = 1

def ClosedBy (opener closer : String) (depth : Int) (words : List Nat) (last : Nat) : Prop :=
  ∃ body rest, words = body ++ last :: rest ∧ code.Nested opener closer depth body ∧
    code.isTypeArgumentPart last = true ∧ code.isPunctuation last closer = true

/-- A list of type arguments stands between the brackets at the two positions. -/
structure TypeArguments (start close : Nat) : Prop where
  ordered : start < close
  nested : code.Nested "<" ">" 1 (List.range' (start + 1) (close - (start + 1)))

variable {code} {opener closer : String} {depth : Int} {word last start close : Nat} {words : List Nat}

theorem excess_nil : code.excess opener closer [] = 0 := rfl

theorem excess_append (left right : List Nat) :
    code.excess opener closer (left ++ right) = code.excess opener closer left + code.excess opener closer right := by
  unfold excess
  rw [List.countP_append, List.countP_append]
  omega

theorem excess_swap (words : List Nat) : code.excess closer opener words = -code.excess opener closer words := by
  unfold excess
  omega

theorem excess_reverse (words : List Nat) :
    code.excess opener closer words.reverse = code.excess opener closer words := by
  unfold excess
  rw [List.countP_reverse, List.countP_reverse]

theorem excess_of_opener (different : opener ≠ closer) (opens : code.isPunctuation word opener = true) :
    code.excess opener closer [word] = 1 := by
  unfold excess
  rw [List.countP_singleton, List.countP_singleton, code.isPunctuation_of_ne opens different, opens]
  rfl

theorem excess_of_closer (different : opener ≠ closer) (closes : code.isPunctuation word closer = true) :
    code.excess opener closer [word] = -1 := by
  rw [excess_swap, excess_of_opener different.symm closes]

theorem excess_of_other (noOpener : code.isPunctuation word opener = false)
    (noCloser : code.isPunctuation word closer = false) : code.excess opener closer [word] = 0 := by
  unfold excess
  rw [List.countP_singleton, List.countP_singleton, noOpener, noCloser]
  rfl

namespace Nested

theorem nil : code.Nested opener closer depth [] ↔ depth = 1 := by
  constructor
  · intro nested
    have level := nested.level
    rwa [excess_nil, Int.add_zero] at level
  · rintro rfl
    constructor
    · intro word member
      cases member
    · intro front back empty
      rw [(List.nil_eq_append_iff.mp empty).1, excess_nil]
      decide
    · rw [excess_nil, Int.add_zero]

theorem cons : code.Nested opener closer depth (word :: words) ↔
    0 < depth ∧ code.isTypeArgumentPart word = true ∧
      code.Nested opener closer (depth + code.excess opener closer [word]) words := by
  have split (front : List Nat) : code.excess opener closer (word :: front) =
      code.excess opener closer [word] + code.excess opener closer front := excess_append [word] front
  constructor
  · intro nested
    have positive := nested.pending [] (word :: words) rfl
    rw [excess_nil, Int.add_zero] at positive
    refine ⟨positive, nested.parts word List.mem_cons_self, ?_⟩
    constructor
    · intro other member
      exact nested.parts other (List.mem_cons_of_mem word member)
    · intro front back same
      have pending := nested.pending (word :: front) back (congrArg (word :: ·) same)
      rw [split] at pending
      omega
    · have level := nested.level
      rw [split] at level
      omega
  · rintro ⟨positive, part, nested⟩
    constructor
    · intro other member
      rcases List.mem_cons.mp member with rfl | later
      · exact part
      · exact nested.parts other later
    · intro front back same
      rcases List.cons_eq_append_iff.mp same with ⟨rfl, _⟩ | ⟨rest, rfl, inner⟩
      · rwa [excess_nil, Int.add_zero]
      · have pending := nested.pending rest back inner
        rw [split]
        omega
    · have level := nested.level
      rw [split]
      omega

/-- Read backwards, the brackets change their roles. -/
theorem reverse (nested : code.Nested opener closer 1 words) : code.Nested closer opener 1 words.reverse := by
  constructor
  · intro word member
    exact nested.parts word (List.mem_reverse.mp member)
  · intro front back same
    have mirrored : words = back.reverse ++ front.reverse := by
      rw [← List.reverse_append, ← same, List.reverse_reverse]
    have pending := nested.pending back.reverse front.reverse mirrored
    have level := nested.level
    rw [mirrored, excess_append] at level
    rw [excess_reverse] at pending level
    rw [excess_reverse] at level
    rw [excess_swap]
    omega
  · have level := nested.level
    rw [excess_swap, excess_reverse]
    omega

end Nested

/-! ### The scan -/

/-- The scan goes on behind a word that is not the one looked for, and its counter follows the excess. -/
theorem angleScan_cons (different : opener ≠ closer) (part : code.isTypeArgumentPart word = true)
    (further : code.isPunctuation word closer = true → depth ≠ 1) (rest : List Nat) :
    code.angleScan opener closer depth (word :: rest) =
      (code.angleScan opener closer (depth + code.excess opener closer [word]) rest).after
        (depth + code.excess opener closer [word]) := by
  rw [angleScan, part]
  cases opens : code.isPunctuation word opener with
  | true =>
      rw [excess_of_opener different opens]
      rfl
  | false =>
      cases closes : code.isPunctuation word closer with
      | true =>
          have more : depth - 1 ≠ 0 := by
            have := further closes
            omega
          rw [excess_of_closer different closes, if_neg more]
          rfl
      | false =>
          rw [excess_of_other opens closes, Int.add_zero]
          rfl

theorem angleScan_last (different : opener ≠ closer) (part : code.isTypeArgumentPart word = true)
    (closes : code.isPunctuation word closer = true) (rest : List Nat) :
    code.angleScan opener closer 1 (word :: rest) = ⟨some word, [0]⟩ := by
  rw [angleScan, part, code.isPunctuation_of_ne closes different.symm, closes]
  rfl

/-- The counter stays positive up to the word looked for. -/
theorem positive_step (different : opener ≠ closer) (positive : 0 < depth)
    (further : code.isPunctuation word closer = true → depth ≠ 1) : 0 < depth + code.excess opener closer [word] := by
  cases closes : code.isPunctuation word closer with
  | true =>
      have more := further closes
      rw [excess_of_closer different closes]
      omega
  | false =>
      cases opens : code.isPunctuation word opener with
      | true =>
          rw [excess_of_opener different opens]
          omega
      | false =>
          rw [excess_of_other opens closes]
          omega

theorem closedBy_cons (positive : 0 < depth) (part : code.isTypeArgumentPart word = true)
    (further : code.isPunctuation word closer = true → depth ≠ 1) :
    code.ClosedBy opener closer depth (word :: words) last ↔
      code.ClosedBy opener closer (depth + code.excess opener closer [word]) words last := by
  constructor
  · rintro ⟨body, rest, same, nested, lastPart, closes⟩
    rcases List.cons_eq_append_iff.mp same with ⟨rfl, here⟩ | ⟨inner, rfl, there⟩
    · cases here
      exact absurd (Nested.nil.mp nested) (further closes)
    · exact ⟨inner, rest, there, (Nested.cons.mp nested).2.2, lastPart, closes⟩
  · rintro ⟨body, rest, same, nested, lastPart, closes⟩
    exact ⟨word :: body, rest, congrArg (word :: ·) same, Nested.cons.mpr ⟨positive, part, nested⟩, lastPart, closes⟩

theorem closedBy_last (different : opener ≠ closer) (part : code.isTypeArgumentPart word = true)
    (closes : code.isPunctuation word closer = true) :
    code.ClosedBy opener closer 1 (word :: words) last ↔ word = last := by
  constructor
  · rintro ⟨body, rest, same, nested, _⟩
    rcases List.cons_eq_append_iff.mp same with ⟨rfl, here⟩ | ⟨inner, rfl, _⟩
    · cases here
      rfl
    · -- the words behind the closer would have to hold on with no bracket open
      have beyond := (Nested.cons.mp nested).2.2.pending [] inner rfl
      rw [excess_of_closer different closes, excess_nil] at beyond
      exact absurd beyond (by decide)
  · rintro rfl
    exact ⟨[], words, rfl, Nested.nil.mpr rfl, part, closes⟩

theorem not_closedBy (noPart : code.isTypeArgumentPart word = false) :
    ¬code.ClosedBy opener closer depth (word :: words) last := by
  rintro ⟨body, rest, same, nested, part, _⟩
  rcases List.cons_eq_append_iff.mp same with ⟨rfl, here⟩ | ⟨inner, rfl, _⟩
  · cases here
    rw [noPart] at part
    cases part
  · rw [nested.parts word List.mem_cons_self] at noPart
    cases noPart

theorem angleScan_found_iff (different : opener ≠ closer) (positive : 0 < depth) :
    (code.angleScan opener closer depth words).found = some last ↔ code.ClosedBy opener closer depth words last := by
  induction words generalizing depth with
  | nil => simp [angleScan, ClosedBy]
  | cons word words ih =>
      cases part : code.isTypeArgumentPart word with
      | false =>
          rw [angleScan, part]
          refine iff_of_false ?_ (not_closedBy part)
          intro impossible
          cases impossible
      | true =>
          by_cases stops : code.isPunctuation word closer = true ∧ depth = 1
          · rcases stops with ⟨closes, rfl⟩
            rw [angleScan_last different part closes, closedBy_last different part closes, Option.some_inj]
          · rw [not_and] at stops
            rw [angleScan_cons different part stops, closedBy_cons positive part stops]
            exact ih (positive_step different positive stops)

theorem angleScan_counters (different : opener ≠ closer) (positive : 0 < depth) :
    ∀ counter ∈ (code.angleScan opener closer depth words).counters, 0 ≤ counter := by
  induction words generalizing depth with
  | nil =>
      intro counter member
      cases member
  | cons word words ih =>
      intro counter member
      cases part : code.isTypeArgumentPart word with
      | false =>
          rw [angleScan, part] at member
          cases member
      | true =>
          by_cases stops : code.isPunctuation word closer = true ∧ depth = 1
          · rcases stops with ⟨closes, rfl⟩
            rw [angleScan_last different part closes] at member
            exact Int.le_of_eq (List.mem_singleton.mp member).symm
          · rw [not_and] at stops
            have next := positive_step different positive stops
            rw [angleScan_cons different part stops] at member
            rcases List.mem_cons.mp member with rfl | later
            · exact Int.le_of_lt next
            · exact ih next counter later

/-! ### The scans of code -/

theorem isTypeArgumentPart_of_isPunctuation {mark : String} (here : code.isPunctuation word mark = true)
    (different : mark ≠ "...") :
    code.isTypeArgumentPart word = [",", ".", "?", "&", "[", "]", "<", ">", "..."].contains mark := by
  rw [← code.isTypePart_of_isPunctuation here, isTypePart, code.isPunctuation_of_ne here different, Bool.or_false]

theorem range'_of_lt {position : Nat} (inside : position < code.size) :
    List.range' position (code.size - position) =
      position :: List.range' (position + 1) (code.size - (position + 1)) := by
  have words : code.size - position = code.size - (position + 1) + 1 := by omega
  rw [words, List.range'_succ]

theorem reverse_range_succ (position : Nat) :
    (List.range (position + 1)).reverse = position :: (List.range position).reverse := by
  rw [List.range_succ, List.reverse_append, List.reverse_singleton, List.singleton_append]

/-- The scan up, from where `depth` brackets are open. -/
theorem angleCloseFrom_eq {depth position : Nat} (positive : 0 < depth) :
    code.angleCloseFrom depth position =
      (code.angleScan "<" ">" depth (List.range' position (code.size - position))).found := by
  fun_induction code.angleCloseFrom depth position with
  | case1 depth position inside noPart => rw [range'_of_lt inside, angleScan, if_pos noPart]
  | case2 depth position inside part opens ih =>
      rw [range'_of_lt inside, angleScan, if_neg part, if_pos opens]
      exact ih (Nat.succ_pos depth)
  | case3 depth position inside part noOpen closes last =>
      rw [beq_iff_eq] at last
      rw [range'_of_lt inside, angleScan, if_neg part, if_neg noOpen, if_pos closes, if_pos (by omega)]
  | case4 depth position inside part noOpen closes more ih =>
      rw [beq_iff_eq] at more
      have same : ((depth - 1 : Nat) : Int) = depth - 1 := by omega
      rw [range'_of_lt inside, angleScan, if_neg part, if_neg noOpen, if_pos closes, if_neg (by omega), ← same]
      exact ih (by omega)
  | case5 depth position inside part noOpen noClose ih =>
      rw [range'_of_lt inside, angleScan, if_neg part, if_neg noOpen, if_neg noClose]
      exact ih positive
  | case6 depth position outside =>
      have none : code.size - position = 0 := by omega
      rw [none]
      rfl

/-- The scan down, from where `depth` brackets wait. -/
theorem angleOpenFrom_eq {depth position : Nat} (positive : 0 < depth) :
    code.angleOpenFrom depth position = (code.angleScan ">" "<" depth (List.range (position + 1)).reverse).found := by
  fun_induction code.angleOpenFrom depth position with
  | case1 depth last =>
      rw [Bool.and_eq_true, beq_iff_eq] at last
      rcases last with ⟨opens, rfl⟩
      have part := (isTypeArgumentPart_of_isPunctuation opens (by decide)).trans rfl
      have different : ">" ≠ "<" := by decide
      have scanned := angleScan_last different part opens []
      exact (congrArg AngleScan.found scanned).symm
  | case2 depth other =>
      refine (Option.eq_none_iff_forall_ne_some.mpr ?_).symm
      intro last found
      rw [Bool.and_eq_true, beq_iff_eq] at other
      rcases (angleScan_found_iff (by decide) (by omega)).mp found with ⟨body, rest, same, nested, _, opens⟩
      rw [reverse_range_succ] at same
      rcases List.cons_eq_append_iff.mp same with ⟨rfl, here⟩ | ⟨inner, _, there⟩
      · have one := Nested.nil.mp nested
        cases here
        exact other ⟨opens, by omega⟩
      · simp at there
  | case3 depth position noPart => rw [reverse_range_succ, angleScan, if_pos noPart]
  | case4 depth position part closes ih =>
      rw [reverse_range_succ, angleScan, if_neg part, if_pos closes]
      exact ih (Nat.succ_pos depth)
  | case5 depth position part noClose opens last =>
      rw [beq_iff_eq] at last
      rw [reverse_range_succ, angleScan, if_neg part, if_neg noClose, if_pos opens, if_pos (by omega)]
  | case6 depth position part noClose opens more ih =>
      rw [beq_iff_eq] at more
      have same : ((depth - 1 : Nat) : Int) = depth - 1 := by omega
      rw [reverse_range_succ, angleScan, if_neg part, if_neg noClose, if_pos opens, if_neg (by omega), ← same]
      exact ih (by omega)
  | case7 depth position part noClose noOpen ih =>
      rw [reverse_range_succ, angleScan, if_neg part, if_neg noClose, if_neg noOpen]
      exact ih positive

theorem angleScan_start (part : code.isTypeArgumentPart word = true) (opens : code.isPunctuation word opener = true)
    (rest : List Nat) :
    code.angleScan opener closer 0 (word :: rest) = (code.angleScan opener closer 1 rest).after 1 := by
  rw [angleScan, part, opens]
  rfl

theorem scanUp_eq (opens : code.isPunctuation start "<" = true) :
    code.scanUp start =
      (code.angleScan "<" ">" 1 (List.range' (start + 1) (code.size - (start + 1)))).after 1 := by
  have part := (isTypeArgumentPart_of_isPunctuation opens (by decide)).trans rfl
  rw [scanUp, range'_of_lt (code.isPunctuation_lt_size opens), angleScan_start part opens]

theorem scanDown_eq (closes : code.isPunctuation close ">" = true) :
    code.scanDown close = (code.angleScan ">" "<" 1 (List.range close).reverse).after 1 := by
  have part := (isTypeArgumentPart_of_isPunctuation closes (by decide)).trans rfl
  rw [scanDown, reverse_range_succ, angleScan_start part closes]

theorem angleClose?_eq (opens : code.isPunctuation start "<" = true) :
    code.angleClose? start = (code.scanUp start).found := by
  have part := (isTypeArgumentPart_of_isPunctuation opens (by decide)).trans rfl
  have step : code.angleClose? start = code.angleCloseFrom 1 (start + 1) := by
    rw [angleClose?, angleCloseFrom, if_pos (code.isPunctuation_lt_size opens), part, opens]
    rfl
  rw [step, scanUp_eq opens, angleCloseFrom_eq Nat.one_pos]
  rfl

theorem angleOpen?_eq (closes : code.isPunctuation close ">" = true) :
    code.angleOpen? close = (code.scanDown close).found := by
  have part := (isTypeArgumentPart_of_isPunctuation closes (by decide)).trans rfl
  rw [scanDown_eq closes]
  cases close with
  | zero =>
      rw [angleOpen?, angleOpenFrom, code.isPunctuation_of_ne closes (by decide)]
      rfl
  | succ position =>
      rw [angleOpen?, angleOpenFrom, part, closes]
      exact angleOpenFrom_eq Nat.one_pos

theorem range'_eq_append_cons_iff {first count : Nat} {front back : List Nat} :
    List.range' first count = front ++ word :: back ↔
      (first ≤ word ∧ word < first + count) ∧ front = List.range' first (word - first) ∧
        back = List.range' (word + 1) (first + count - (word + 1)) := by
  rw [List.range'_eq_append_iff]
  constructor
  · rintro ⟨length, _, rfl, here⟩
    rcases List.range'_eq_cons_iff.mp here.symm with ⟨place, left, rfl⟩
    have width : word - first = length := by omega
    have remains : count - length - 1 = first + count - (word + 1) := by omega
    rw [width, remains]
    exact ⟨by omega, rfl, rfl⟩
  · rintro ⟨bounds, rfl, rfl⟩
    refine ⟨word - first, by omega, rfl, ?_⟩
    refine (List.range'_eq_cons_iff.mpr ⟨by omega, by omega, ?_⟩).symm
    congr 1
    omega

theorem closedBy_up_iff (closes : code.isPunctuation close ">" = true) :
    code.ClosedBy "<" ">" 1 (List.range' (start + 1) (code.size - (start + 1))) close ↔
      code.TypeArguments start close := by
  have inside := code.isPunctuation_lt_size closes
  constructor
  · rintro ⟨body, rest, same, nested, _⟩
    rcases range'_eq_append_cons_iff.mp same with ⟨bounds, rfl, _⟩
    exact ⟨bounds.1, nested⟩
  · intro list
    have ordered := list.ordered
    have part := (isTypeArgumentPart_of_isPunctuation closes (by decide)).trans rfl
    exact ⟨_, _, range'_eq_append_cons_iff.mpr ⟨by omega, rfl, rfl⟩, list.nested, part, closes⟩

theorem closedBy_down_iff (opens : code.isPunctuation start "<" = true) :
    code.ClosedBy ">" "<" 1 (List.range close).reverse start ↔ code.TypeArguments start close := by
  constructor
  · rintro ⟨body, rest, same, nested, _⟩
    rw [List.reverse_eq_append_iff, List.reverse_cons, List.append_assoc, List.singleton_append,
      List.range_eq_range'] at same
    rcases range'_eq_append_cons_iff.mp same with ⟨bounds, _, mirrored⟩
    have inner := nested.reverse
    rw [mirrored, Nat.zero_add] at inner
    exact ⟨by omega, inner⟩
  · intro list
    have ordered := list.ordered
    have part := (isTypeArgumentPart_of_isPunctuation opens (by decide)).trans rfl
    have split : List.range' 0 close = List.range' 0 start ++ start :: List.range' (start + 1) (close - (start + 1)) :=
      range'_eq_append_cons_iff.mpr ⟨by omega, rfl, by rw [Nat.zero_add]⟩
    refine ⟨_, (List.range' 0 start).reverse, ?_, list.nested.reverse, part, opens⟩
    rw [List.range_eq_range', split, List.reverse_append, List.reverse_cons, List.append_assoc, List.singleton_append]

theorem angleClose?_eq_some_iff (opens : code.isPunctuation start "<" = true)
    (closes : code.isPunctuation close ">" = true) :
    code.angleClose? start = some close ↔ code.TypeArguments start close := by
  rw [angleClose?_eq opens, scanUp_eq opens, ← closedBy_up_iff closes]
  exact angleScan_found_iff (by decide) Int.one_pos

theorem angleOpen?_eq_some_iff (opens : code.isPunctuation start "<" = true)
    (closes : code.isPunctuation close ">" = true) :
    code.angleOpen? close = some start ↔ code.TypeArguments start close := by
  rw [angleOpen?_eq closes, scanDown_eq closes, ← closedBy_down_iff opens]
  exact angleScan_found_iff (by decide) Int.one_pos

theorem after_counters {scan : AngleScan} (nonneg : ∀ counter ∈ scan.counters, 0 ≤ counter) :
    ∀ counter ∈ (scan.after 1).counters, 0 ≤ counter :=
  List.forall_mem_cons.mpr ⟨by decide, nonneg⟩

/-- Matching upwards and matching downwards are inverse: an opening and a closing angle bracket are matched by either
scan exactly if a list of type arguments stands between them. Either is a scan with an integer for its counter, which is
never negative. -/
theorem angle_scans_inverse (opens : code.isPunctuation start "<" = true)
    (closes : code.isPunctuation close ">" = true) :
    (code.angleClose? start = some close ↔ code.angleOpen? close = some start) ∧
      (code.angleClose? start = some close ↔ code.TypeArguments start close) ∧
      (code.angleClose? start = (code.scanUp start).found ∧ ∀ counter ∈ (code.scanUp start).counters, 0 ≤ counter) ∧
      code.angleOpen? close = (code.scanDown close).found ∧ ∀ counter ∈ (code.scanDown close).counters, 0 ≤ counter := by
  have upwards := angleClose?_eq_some_iff opens closes
  have downwards := angleOpen?_eq_some_iff opens closes
  refine ⟨upwards.trans downwards.symm, upwards, ⟨angleClose?_eq opens, ?_⟩, angleOpen?_eq closes, ?_⟩
  · rw [scanUp_eq opens]
    exact after_counters (angleScan_counters (by decide) Int.one_pos)
  · rw [scanDown_eq closes]
    exact after_counters (angleScan_counters (by decide) Int.one_pos)

/-- A list in a list, with both closing brackets at the end. -/
theorem angle_scans_inverse_nested :
    ∃ tokens code, Token.ofText "Map<String, List<A>> m;" = .ok tokens ∧ Code.ofTokens tokens = .ok code ∧
      code.isPunctuation 1 "<" = true ∧ code.isPunctuation 8 ">" = true ∧ code.angleClose? 1 = some 8 ∧
      code.angleOpen? 8 = some 1 ∧ code.TypeArguments 1 8 := by
  have computed : ((Token.ofText "Map<String, List<A>> m;").toOption.any fun tokens =>
      (Code.ofTokens tokens).toOption.any fun code => decide (code.isPunctuation 1 "<" = true ∧
        code.isPunctuation 8 ">" = true ∧ code.angleClose? 1 = some 8)) = true := by
    decide +kernel
  obtain ⟨tokens, split, further⟩ := exists_ok_of_any computed
  obtain ⟨code, paired, facts⟩ := exists_ok_of_any further
  obtain ⟨opens, closes, found⟩ := of_decide_eq_true facts
  obtain ⟨inverse, list, _⟩ := angle_scans_inverse opens closes
  exact ⟨tokens, code, split, paired, opens, closes, found, inverse.mp found, list.mp found⟩

end ScopedRename.Code
