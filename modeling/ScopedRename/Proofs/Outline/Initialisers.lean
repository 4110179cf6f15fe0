import Mathlib.Order.Interval.Finset.Nat
import ScopedRename.Proofs.Code.Separators
import ScopedRename.Proofs.Outline.Bookkeeping

/-!
A walk through a statement. Its depth counts the parentheses and square brackets of the statement that are open, and a
frame lies over every brace that is open. Main statement: as long as nothing that is read or opened inside a group or
between two commas reaches over its end, this holds at every word of the statement, and at its own commas the walk is
in the scope where the statement started.
-/

namespace ScopedRename

namespace Code

variable (code : Code)

def declarationEnd? (first : Nat) : Option Nat :=
  (List.range' first (code.size - first)).find? fun word =>
    code.isOuter first word && (code.isPunctuation word ";" || code.isCloser word)

def openRounds (first position : Nat) : Finset Nat :=
  (Finset.Ico first position).filter fun opener =>
    code.opensRound opener = true ∧ (code.close? opener).any (position ≤ ·.val) = true

variable {code} {first stop position next : Nat}

structure Concludes (code : Code) (first stop : Nat) : Prop where
  ordered : first ≤ stop
  outer : code.Level first stop
  ends : code.isPunctuation stop ";" = true ∨ code.isCloser stop = true
  noCloser : ∀ {word : Nat}, first ≤ word → word < stop → code.Level first word → code.isCloser word = false

theorem concludes_of_declarationEnd? (found : code.declarationEnd? first = some stop) : code.Concludes first stop := by
  unfold declarationEnd? at found
  obtain ⟨here, member, earlier⟩ := List.find?_range'_eq_some.mp found
  have bounds := List.mem_range'_1.mp member
  rw [Bool.and_eq_true, Bool.or_eq_true, isOuter_iff] at here
  refine ⟨bounds.1, here.1, here.2, ?_⟩
  intro word low high outer
  have passed := earlier word low high
  rw [isOuter_iff.mpr outer, Bool.true_and, Bool.not_eq_true', Bool.or_eq_false_iff] at passed
  exact passed.2

theorem mem_openRounds {opener : Nat} :
    opener ∈ code.openRounds first position ↔
      (first ≤ opener ∧ opener < position) ∧ code.opensRound opener = true ∧
        ∃ closer, ∃ later : opener < closer, code.close? opener = some ⟨closer, later⟩ ∧ position ≤ closer := by
  unfold openRounds
  rw [Finset.mem_filter, Finset.mem_Ico, Option.any_eq_true]
  constructor
  · rintro ⟨bounds, opens, ⟨closer, later⟩, closed, behind⟩
    exact ⟨bounds, opens, closer, later, closed, of_decide_eq_true behind⟩
  · rintro ⟨bounds, opens, closer, later, closed, behind⟩
    exact ⟨bounds, opens, ⟨closer, later⟩, closed, decide_eq_true behind⟩

theorem openRounds_of_outer (outer : code.Level first position) : code.openRounds first position = ∅ := by
  rw [Finset.eq_empty_iff_forall_notMem]
  intro opener member
  obtain ⟨bounds, _, closer, later, closed, behind⟩ := mem_openRounds.mp member
  have ends := outer opener closer later bounds.1 bounds.2 closed
  omega

theorem isOpener_of_opensRound (opens : code.opensRound position = true) : code.isOpener position = true := by
  cases other : code.isOpener position with
  | true => rfl
  | false =>
      rw [opensRound_of_isOpener other] at opens
      cases opens

/-- A group opens with a parenthesis or square bracket if it closes with one, and else with a brace. -/
theorem Matched.round_or_brace (matched : code.Matched) {opener closer : Nat} {later : opener < closer}
    (closed : code.close? opener = some ⟨closer, later⟩) :
    code.opensRound opener = true ∧ code.closesRound closer = true ∨
      code.isPunctuation opener openBrace = true ∧ code.closesRound closer = false := by
  obtain ⟨delimiter, first, last⟩ := matched.marks closed
  unfold opensRound closesRound
  cases delimiter with
  | round =>
      have opens : code.isPunctuation opener "(" = true := first
      have closes : code.isPunctuation closer ")" = true := last
      rw [opens, closes]
      exact Or.inl ⟨rfl, rfl⟩
  | square =>
      have opens : code.isPunctuation opener "[" = true := first
      have closes : code.isPunctuation closer "]" = true := last
      rw [opens, closes, Bool.or_true, Bool.or_true]
      exact Or.inl ⟨rfl, rfl⟩
  | curly =>
      have closes : code.isPunctuation closer closeBrace = true := last
      exact Or.inr ⟨first, closesRound_of_isPunctuation closes (by decide) (by decide)⟩

theorem Balanced.opener_eq (balanced : code.Balanced) {opener other closer : Nat} {later : opener < closer}
    {otherLater : other < closer} (closed : code.close? opener = some ⟨closer, later⟩)
    (otherClosed : code.close? other = some ⟨closer, otherLater⟩) : opener = other := by
  rcases Nat.lt_trichotomy opener other with before | same | behind
  · exact absurd (balanced.nested closed otherClosed before otherLater) (Nat.lt_irrefl _)
  · exact same
  · exact absurd (balanced.nested otherClosed closed behind later) (Nat.lt_irrefl _)

/-- What is read from a position on ends no group around it and leaves none open. -/
theorem openRounds_jump (matched : code.Matched) (ahead : position < next) (whole : code.Level position (next - 1))
    (noCloser : code.closesRound position = false) (noOpener : code.opensRound (next - 1) = false)
    (within : ∀ opener closer, ∀ later : opener < closer, first ≤ opener → opener < position → position < closer →
      code.close? opener = some ⟨closer, later⟩ → next ≤ closer) :
    code.openRounds first next = code.openRounds first position := by
  ext opener
  rw [mem_openRounds, mem_openRounds]
  constructor
  · rintro ⟨⟨low, high⟩, opens, closer, later, closed, behind⟩
    refine ⟨⟨low, ?_⟩, opens, closer, later, closed, by omega⟩
    -- a group that opens on the way has ended again, and what opens last is no group that counts
    by_contra late
    have notLast : opener ≠ next - 1 := by
      rintro rfl
      rw [opens] at noOpener
      cases noOpener
    have ended := whole opener closer later (by omega) (by omega) closed
    omega
  · rintro ⟨⟨low, high⟩, opens, closer, later, closed, behind⟩
    refine ⟨⟨low, by omega⟩, opens, closer, later, closed, ?_⟩
    have round : code.closesRound closer = true := by
      rcases matched.round_or_brace closed with counted | ⟨brace, _⟩
      · exact counted.2
      · rw [opensRound_of_isPunctuation brace (by decide) (by decide)] at opens
        cases opens
    have notHere : closer ≠ position := by
      rintro rfl
      rw [round] at noCloser
      cases noCloser
    exact within opener closer later low high (by omega) closed

theorem card_openRounds_opening (balanced : code.Balanced) (low : first ≤ position)
    (opens : code.opensRound position = true) :
    (code.openRounds first (position + 1)).card = (code.openRounds first position).card + 1 := by
  have isOpener := isOpener_of_opensRound opens
  have fresh : position ∉ code.openRounds first position := by
    intro member
    have bounds := (mem_openRounds.mp member).1
    omega
  have grown : code.openRounds first (position + 1) = insert position (code.openRounds first position) := by
    ext opener
    rw [Finset.mem_insert, mem_openRounds, mem_openRounds]
    constructor
    · rintro ⟨⟨low, high⟩, counted, closer, later, closed, behind⟩
      rcases Nat.eq_or_lt_of_le (Nat.le_of_lt_succ high) with here | before
      · exact Or.inl here
      · exact Or.inr ⟨⟨low, before⟩, counted, closer, later, closed, by omega⟩
    · rintro (rfl | ⟨⟨low, high⟩, counted, closer, later, closed, behind⟩)
      · obtain ⟨closer, later, closed⟩ := balanced.closed isOpener
        exact ⟨⟨low, Nat.lt_succ_self _⟩, opens, closer, later, closed, later⟩
      · refine ⟨⟨low, by omega⟩, counted, closer, later, closed, ?_⟩
        rcases Nat.eq_or_lt_of_le behind with rfl | further
        · rw [isOpener_of_isCloser (balanced.closes closed)] at isOpener
          cases isOpener
        · exact further
  rw [grown, Finset.card_insert_of_notMem fresh]

theorem card_openRounds_closing (matched : code.Matched) {opener : Nat} {later : opener < position}
    (closed : code.close? opener = some ⟨position, later⟩) (closes : code.closesRound position = true)
    (low : first ≤ opener) :
    (code.openRounds first position).card = (code.openRounds first (position + 1)).card + 1 := by
  have gone : opener ∉ code.openRounds first (position + 1) := by
    intro member
    obtain ⟨_, _, closer, _, found, behind⟩ := mem_openRounds.mp member
    cases found.symm.trans closed
    omega
  have grown : code.openRounds first position = insert opener (code.openRounds first (position + 1)) := by
    ext other
    rw [Finset.mem_insert, mem_openRounds, mem_openRounds]
    constructor
    · rintro ⟨⟨bound, high⟩, counted, closer, further, found, behind⟩
      rcases Nat.eq_or_lt_of_le behind with rfl | beyond
      · exact Or.inl (matched.opener_eq found closed)
      · exact Or.inr ⟨⟨bound, by omega⟩, counted, closer, further, found, beyond⟩
    · rintro (rfl | ⟨⟨bound, high⟩, counted, closer, further, found, behind⟩)
      · rcases matched.round_or_brace closed with ⟨opens, _⟩ | ⟨_, other⟩
        · exact ⟨⟨low, later⟩, opens, position, later, closed, Nat.le_refl _⟩
        · rw [closes] at other
          cases other
      · have here : other ≠ position := by
          rintro rfl
          have isOpener := isOpener_of_opensRound counted
          rw [isOpener_of_isCloser (matched.closes closed)] at isOpener
          cases isOpener
        exact ⟨⟨bound, by omega⟩, counted, closer, further, found, by omega⟩
  rw [grown, Finset.card_insert_of_notMem gone]

theorem Concludes.opened (concludes : code.Concludes first stop) (matched : code.Matched) (low : first ≤ position)
    (high : position < stop) (closes : code.isCloser position = true) :
    ∃ opener, ∃ later : opener < position, code.close? opener = some ⟨position, later⟩ ∧ first ≤ opener := by
  obtain ⟨opener, later, closed⟩ := matched.answered closes
  refine ⟨opener, later, closed, ?_⟩
  by_contra early
  have outer : code.Level first position := fun inner innerCloser innerLater above below found =>
    matched.nested closed found (by omega) below
  rw [concludes.noCloser low high outer] at closes
  cases closes

theorem isCloser_of_isPunctuation {mark : String} (here : code.isPunctuation position mark = true)
    (noCloser : (⟨.punctuation, mark⟩ : Lexeme).closes? = none) : code.isCloser position = false := by
  unfold isCloser
  rw [any_of_isPunctuation here, noCloser]
  rfl

theorem isCloser_of_isIdentifier (identifier : code.isIdentifier position = true) : code.isCloser position = false := by
  obtain ⟨word, found, kind⟩ := (Option.any_eq_true _ _).mp identifier
  unfold isCloser Lexeme.closes?
  rw [found, Option.any_some, eq_of_beq kind]
  rfl

theorem isCloser_of_closesRound (closes : code.closesRound position = true) : code.isCloser position = true := by
  unfold isCloser
  rcases Bool.or_eq_true_iff.mp closes with round | square
  · rw [any_of_isPunctuation round]
    decide
  · rw [any_of_isPunctuation square]
    decide

end Code

namespace Walk

variable {code : Code} {state walk after : Walk} {first stop position next : Nat} {inner : List (ScopeId × Nat)}

/-! ### Braces claimed ahead -/

def ClaimsAhead (code : Code) (position : Nat) (walk : Walk) : Prop :=
  ∀ brace ∈ walk.claimed, position < brace →
    ∃ list close, ∃ later : list < close, code.close? list = some ⟨close, later⟩ ∧ close + 1 = brace ∧ list ≤ position

theorem Keeps.claimsAhead {result : Walk × Nat} (keeps : Keeps code walk position result)
    (ahead : ClaimsAhead code position walk) : ClaimsAhead code result.2 result.1 := by
  have former (further : position < result.2) {brace : Nat} (known : brace ∈ walk.claimed) (beyond : result.2 < brace) :
      ∃ list close, ∃ later : list < close,
        code.close? list = some ⟨close, later⟩ ∧ close + 1 = brace ∧ list ≤ result.2 := by
    obtain ⟨list, close, later, closed, follows, early⟩ := ahead brace known (by omega)
    exact ⟨list, close, later, closed, follows, by omega⟩
  intro brace member beyond
  cases keeps with
  | @quiet after next books places further =>
      have claimed : after.claimed = walk.claimed := congrArg (·.2.2) books
      exact former further (claimed ▸ member) beyond
  | declares => exact former (Nat.lt_succ_self _) member beyond
  | opening => exact former (Nat.lt_succ_self _) member beyond
  | closing => exact former (Nat.lt_succ_self _) member beyond
  | semicolon => exact former (Nat.lt_succ_self _) member beyond
  | claimed => exact former (Nat.lt_succ_self _) (List.mem_filter.mp member).1 beyond
  | scope places depth declarators claims further =>
      dsimp only at member beyond ⊢
      rcases claims with same | ⟨body, added, claims⟩
      · exact former further (same ▸ member) beyond
      · rw [added] at member
        rcases List.mem_cons.mp member with rfl | known
        · cases claims with
          | here isNext => omega
          | behind list follows => exact ⟨_, _, _, list, follows.symm, Nat.le_refl _⟩
        · exact former further known beyond

theorem Visits.claimsAhead (balanced : code.Balanced) (visits : Visits code (Walk.start code.layout) 0 state position) :
    ClaimsAhead code position state := by
  obtain ⟨walk, rfl, ahead⟩ := visits.keeps
    (fun walk position inside ahead => (step_keeps balanced (walk.arrive position) position).claimsAhead ahead)
    (fun brace impossible => by cases impossible)
  exact ahead

/-- No brace of a statement is claimed where the statement starts. -/
theorem ClaimsAhead.outside (ahead : ClaimsAhead code position walk) (balanced : code.Balanced)
    (identifier : code.isIdentifier position = true) (concludes : code.Concludes (position + 1) stop) {brace : Nat}
    (known : brace ∈ walk.claimed) : brace ≤ position ∨ stop ≤ brace := by
  by_contra within
  obtain ⟨list, close, later, closed, follows, early⟩ := ahead brace known (by omega)
  have closes := balanced.closes closed
  have notHere : close ≠ position := by
    rintro rfl
    rw [Code.isCloser_of_isIdentifier identifier] at closes
    cases closes
  have outer : code.Level (position + 1) close := fun opener closer innerLater low high found =>
    balanced.nested closed found (by omega) high
  rw [concludes.noCloser (by omega) (by omega) outer] at closes
  cases closes

/-! ### Depth and places -/

def reach (walk : Walk) (result : Walk × Nat) : Nat :=
  max (result.2 - 1) (if walk.frames.length < result.1.frames.length then result.1.frame.last else 0)

theorem next_le_reach (walk : Walk) (result : Walk × Nat) : result.2 ≤ reach walk result + 1 := by
  have most := Nat.le_max_left (result.2 - 1)
    (if walk.frames.length < result.1.frames.length then result.1.frame.last else 0)
  unfold reach
  omega

theorem le_reach_of_places {result : Walk × Nat} {place : ScopeId × Nat}
    (opened : result.1.places = place :: walk.places) : place.2 ≤ reach walk result := by
  unfold reach
  cases frames : result.1.frames with
  | nil =>
      unfold places at opened
      rw [frames] at opened
      cases opened
  | cons frame outer =>
      unfold places at opened
      rw [frames, List.map_cons] at opened
      obtain ⟨rfl, rest⟩ := List.cons.inj opened
      have size := congrArg List.length rest
      rw [List.length_map, List.length_map] at size
      have grown : walk.frames.length < (frame :: outer).length := by
        rw [List.length_cons, size]
        exact Nat.lt_succ_self _
      unfold Walk.frame
      rw [if_pos grown, frames]
      exact Nat.le_max_right _ _

theorem places_semicolon (walk : Walk) : walk.semicolon.places = walk.places := by
  unfold semicolon places
  cases walk.frames with
  | nil => rfl
  | cons frame outer => rfl

/-- The places that a step adds lie over the braces that it opens or claims. -/
structure Covers (code : Code) (walk : Walk) (result : Walk × Nat) (fresh : List (ScopeId × Nat)) : Prop where
  places : result.1.places = fresh ++ walk.places
  near : ∀ place ∈ fresh, place.2 ≤ reach walk result
  bodies : ∀ brace, code.isPunctuation brace openBrace = true → brace + 1 = result.2 ∨ brace ∈ result.1.claimed →
    brace ∈ walk.claimed ∨ ∃ place ∈ fresh, place.2 = code.groupEnd brace

private theorem Covers.still {result : Walk × Nat} (places : result.1.places = walk.places)
    (claimed : ∀ brace ∈ result.1.claimed, brace ∈ walk.claimed)
    (opened : ∀ brace, code.isPunctuation brace openBrace = true → brace + 1 = result.2 → brace ∈ walk.claimed) :
    Covers code walk result [] where
  places := places
  near place impossible := by cases impossible
  bodies brace isBrace covered := by
    rcases covered with last | known
    · exact Or.inl (opened brace isBrace last)
    · exact Or.inl (claimed brace known)

theorem Keeps.covers {result : Walk × Nat} (keeps : Keeps code walk position result) :
    ∃ fresh, Covers code walk result fresh := by
  have noBrace {mark : String} (here : code.isPunctuation position mark = true) (other : mark ≠ openBrace) :
      ∀ brace, code.isPunctuation brace openBrace = true → brace + 1 = position + 1 → brace ∈ walk.claimed := by
    intro brace isBrace same
    rw [Nat.succ.inj same, code.isPunctuation_of_ne here other] at isBrace
    cases isBrace
  cases keeps with
  | @quiet after next books places ahead noCloser noOpener =>
      have claimed : after.claimed = walk.claimed := congrArg (·.2.2) books
      refine ⟨[], .still places (fun brace known => claimed ▸ known) fun brace isBrace last => ?_⟩
      have opens := Code.isOpener_of_isBrace isBrace
      dsimp only at last
      rw [← last, Nat.add_sub_cancel, opens] at noOpener
      cases noOpener
  | declares identifier typed =>
      refine ⟨[], .still rfl (fun brace known => known) fun brace isBrace last => ?_⟩
      rw [Nat.succ.inj last, code.isPunctuation_of_isIdentifier identifier] at isBrace
      cases isBrace
  | opening opens =>
      refine ⟨[], .still rfl (fun brace known => known) ?_⟩
      rcases Bool.or_eq_true_iff.mp opens with round | square
      · exact noBrace round (by decide)
      · exact noBrace square (by decide)
  | closing closes =>
      refine ⟨[], .still rfl (fun brace known => known) ?_⟩
      rcases Bool.or_eq_true_iff.mp closes with round | square
      · exact noBrace round (by decide)
      · exact noBrace square (by decide)
  | semicolon here =>
      exact ⟨[], .still (places_semicolon walk) (fun brace known => known) (noBrace here (by decide))⟩
  | claimed brace known =>
      refine ⟨[], .still rfl (fun other member => (List.mem_filter.mp member).1) fun other _ last => ?_⟩
      rw [Nat.succ.inj last]
      exact known
  | @scope after next last places depth declarators claims ahead noCloser noOpener body =>
      refine ⟨[(walk.scopes.size, last)], places, ?_, ?_⟩
      · intro place member
        rw [List.mem_singleton.mp member]
        exact le_reach_of_places places
      · rintro brace isBrace (here | known)
        · dsimp only at here
          subst here
          exact Or.inr ⟨_, List.mem_singleton_self _, (body isBrace).symm⟩
        · dsimp only at known
          rcases claims with same | ⟨added, list, claims⟩
          · exact Or.inl (same ▸ known)
          · rw [list] at known
            rcases List.mem_cons.mp known with rfl | former
            · refine Or.inr ⟨_, List.mem_singleton_self _, ?_⟩
              cases claims with
              | here _ _ ends => exact ends.symm
              | behind _ _ _ ends => exact ends.symm
            · exact Or.inl former

/-- The depth goes up at a parenthesis or square bracket, down at its closer, and else stays. -/
theorem Keeps.depth_cases {result : Walk × Nat} (keeps : Keeps code walk position result) :
    position < result.2 ∧
      (code.opensRound position = true ∧ result.1.depth = walk.depth + 1 ∧ result.2 = position + 1 ∨
        code.closesRound position = true ∧ result.1.depth = walk.depth - 1 ∧ result.2 = position + 1 ∨
        code.closesRound position = false ∧ code.opensRound (result.2 - 1) = false ∧ result.1.depth = walk.depth) := by
  cases keeps with
  | quiet books places ahead noCloser noOpener =>
      exact ⟨ahead, Or.inr (Or.inr ⟨noCloser, Code.opensRound_of_isOpener noOpener, congrArg Prod.fst books⟩)⟩
  | declares identifier =>
      have other := Code.delimiters_of_other (code.isPunctuation_of_isIdentifier identifier)
      exact ⟨Nat.lt_succ_self _, Or.inr (Or.inr ⟨other.1, Code.opensRound_of_isOpener other.2, rfl⟩)⟩
  | opening opens => exact ⟨Nat.lt_succ_self _, Or.inl ⟨opens, rfl, rfl⟩⟩
  | closing closes => exact ⟨Nat.lt_succ_self _, Or.inr (Or.inl ⟨closes, rfl, rfl⟩)⟩
  | semicolon here =>
      refine ⟨Nat.lt_succ_self _, Or.inr (Or.inr ⟨?_, ?_, rfl⟩)⟩
      · exact Code.closesRound_of_isPunctuation here (by decide) (by decide)
      · exact Code.opensRound_of_isPunctuation here (by decide) (by decide)
  | claimed brace =>
      refine ⟨Nat.lt_succ_self _, Or.inr (Or.inr ⟨?_, ?_, rfl⟩)⟩
      · exact Code.closesRound_of_isPunctuation brace (by decide) (by decide)
      · exact Code.opensRound_of_isPunctuation brace (by decide) (by decide)
  | scope places depth declarators claims ahead noCloser noOpener =>
      exact ⟨ahead, Or.inr (Or.inr ⟨noCloser, noOpener, depth⟩)⟩

/-! ### Through a statement -/

/-- What is read at the position belongs in front of the limit: the end of a group around it, a comma of the statement,
or the statement's end. -/
def isLimit (code : Code) (first stop position limit : Nat) : Bool :=
  limit == stop || code.isPunctuation limit "," && code.isOuter first limit
    || (List.range' first (position - first)).any fun opener => (code.close? opener).any (·.val == limit)

theorem isLimit_of_mem_ownCommas {comma : Nat} (own : comma ∈ code.ownCommas first stop) :
    isLimit code first stop position comma = true := by
  obtain ⟨_, here, outer⟩ := Code.mem_ownCommas.mp own
  unfold isLimit
  rw [here, Code.isOuter_iff.mpr outer, Bool.and_self, Bool.or_true, Bool.true_or]

/-- What a run reads up to the end of a statement, and the scopes it opens, lie in front of the limits. -/
def Orderly (code : Code) (origin : Walk) (first stop : Nat) : Prop :=
  ∀ read ∈ visited code origin first, read.2 < stop →
    code.isOuter read.2 ((read.1.step code read.2).2 - 1) = true ∧
      ∀ limit ∈ List.range' (read.2 + 1) (stop - read.2), isLimit code first stop read.2 limit = true →
        reach read.1 (read.1.step code read.2) < limit

instance (code : Code) (origin : Walk) (first stop : Nat) : Decidable (Orderly code origin first stop) := by
  unfold Orderly
  infer_instance

/-- The depth and the places of a walk through the statement that started in a state; `inner` are the places of scopes
that the statement opened. -/
structure Tracks (code : Code) (state : Walk) (first stop position : Nat) (walk : Walk)
    (inner : List (ScopeId × Nat)) : Prop where
  depth : walk.depth = state.depth + (code.openRounds first position).card
  places : walk.places = inner ++ state.places
  early : ∀ comma ∈ code.ownCommas first stop, position ≤ comma → ∀ place ∈ inner, place.2 < comma
  covered : ∀ brace, first ≤ brace → brace < stop → code.isPunctuation brace openBrace = true →
    brace < position ∨ brace ∈ walk.claimed → position ≤ code.groupEnd brace →
    ∃ place ∈ inner, code.groupEnd brace ≤ place.2

namespace Tracks

theorem start (depth : walk.depth = state.depth) (places : walk.places = state.places)
    (unclaimed : ∀ brace ∈ walk.claimed, brace < first ∨ stop ≤ brace) :
    Tracks code state first stop first walk [] where
  depth := by rw [Code.openRounds_of_outer (Code.Level.refl first), Finset.card_empty, Nat.add_zero, depth]
  places := places
  early comma own ahead place impossible := by cases impossible
  covered brace low high isBrace known ahead := by
    rcases known with before | claimed
    · omega
    · rcases unclaimed brace claimed with before | behind
      · omega
      · omega

/-- The walk leaves scopes of the statement only. -/
theorem arrive (tracks : Tracks code state first stop position walk inner)
    (lasts : ∀ place ∈ state.places.head?, position ≤ place.2) :
    Tracks code state first stop position (walk.arrive position) (inner.dropWhile (·.2 < position)) where
  depth := tracks.depth
  places := by
    have stays : state.places.dropWhile (fun place => decide (place.2 < position)) = state.places := by
      cases around : state.places with
      | nil => rfl
      | cons place outer =>
          have last := lasts place (by rw [around]; exact rfl)
          exact List.dropWhile_cons_of_neg (by simpa using last)
    rw [places_arrive, tracks.places, List.dropWhile_append, stays]
    split
    · rename_i left
      rw [List.isEmpty_iff.mp left, List.nil_append]
    · rfl
  early comma own ahead place member :=
    tracks.early comma own ahead place ((List.dropWhile_sublist _).subset member)
  covered brace low high isBrace known ahead := by
    obtain ⟨place, member, last⟩ := tracks.covered brace low high isBrace known ahead
    refine ⟨place, ?_, last⟩
    rw [← @List.takeWhile_append_dropWhile _ (·.2 < position) inner] at member
    rcases List.mem_append.mp member with left | kept
    · have ended := List.mem_takeWhile_imp left
      rw [decide_eq_true_eq] at ended
      omega
    · exact kept

private theorem step_depth (matched : code.Matched) (concludes : code.Concludes first stop) {result : Walk × Nat}
    (tracks : Tracks code state first stop position walk inner) (keeps : Keeps code walk position result)
    (low : first ≤ position) (high : position < stop) (whole : code.Level position (result.2 - 1))
    (within : ∀ opener closer, ∀ later : opener < closer, first ≤ opener → opener < position → position < closer →
      code.close? opener = some ⟨closer, later⟩ → result.2 ≤ closer) :
    result.1.depth = state.depth + (code.openRounds first result.2).card := by
  obtain ⟨ahead, ⟨opens, depth, next⟩ | ⟨closes, depth, next⟩ | ⟨noCloser, noOpener, depth⟩⟩ := keeps.depth_cases
  · rw [depth, next, Code.card_openRounds_opening matched.toBalanced low opens, tracks.depth, Nat.add_assoc]
  · obtain ⟨opener, later, closed, inStatement⟩ :=
      concludes.opened matched low high (Code.isCloser_of_closesRound closes)
    have card := Code.card_openRounds_closing matched closed closes inStatement
    rw [depth, next, tracks.depth, card]
    omega
  · rw [depth, tracks.depth, Code.openRounds_jump matched ahead whole noCloser noOpener within]

/-- A step that stays in front of the limits keeps track. -/
theorem step (matched : code.Matched) (concludes : code.Concludes first stop) {result : Walk × Nat}
    (tracks : Tracks code state first stop position walk inner) (keeps : Keeps code walk position result)
    (low : first ≤ position) (high : position < stop) (whole : code.Level position (result.2 - 1))
    (limits : ∀ limit, position < limit → limit ≤ stop → isLimit code first stop position limit = true →
      reach walk result < limit) :
    ∃ inner, Tracks code state first stop result.2 result.1 inner := by
  have ahead := keeps.depth_cases.1
  have reads := next_le_reach walk result
  have within : ∀ opener closer, ∀ later : opener < closer, first ≤ opener → opener < position → position < closer →
      code.close? opener = some ⟨closer, later⟩ → result.2 ≤ closer := by
    intro opener closer later above below around closed
    have ends := concludes.outer opener closer later above (by omega) closed
    have limit : isLimit code first stop position closer = true := by
      have listed := List.mem_range'_1.mpr (⟨above, by omega⟩ : first ≤ opener ∧ opener < first + (position - first))
      refine Bool.or_eq_true_iff.mpr (Or.inr (List.any_eq_true.mpr ⟨opener, listed, ?_⟩))
      rw [closed]
      exact beq_self_eq_true closer
    have short := limits closer around (by omega) limit
    omega
  obtain ⟨fresh, covers⟩ := keeps.covers
  refine ⟨fresh ++ inner, tracks.step_depth matched concludes keeps low high whole within, ?_, ?_, ?_⟩
  · rw [covers.places, tracks.places, List.append_assoc]
  · intro comma own later place member
    have bounds := (Code.mem_ownCommas.mp own).1
    rcases List.mem_append.mp member with new | former
    · have beyond := limits comma (by omega) (by omega) (isLimit_of_mem_ownCommas own)
      exact Nat.lt_of_le_of_lt (covers.near place new) beyond
    · exact tracks.early comma own (by omega) place former
  · intro brace above below isBrace known still
    have former (known : brace < position ∨ brace ∈ walk.claimed) :
        ∃ place ∈ fresh ++ inner, code.groupEnd brace ≤ place.2 := by
      obtain ⟨place, member, last⟩ := tracks.covered brace above below isBrace known (by omega)
      exact ⟨place, List.mem_append_right fresh member, last⟩
    have new (opened : brace + 1 = result.2 ∨ brace ∈ result.1.claimed) :
        ∃ place ∈ fresh ++ inner, code.groupEnd brace ≤ place.2 := by
      rcases covers.bodies brace isBrace opened with claimed | ⟨place, member, last⟩
      · exact former (Or.inr claimed)
      · exact ⟨place, List.mem_append_left inner member, Nat.le_of_eq last.symm⟩
    rcases known with read | claimed
    · rcases Nat.lt_or_ge brace position with before | reached
      · exact former (Or.inl before)
      · -- a brace on the way is closed again, unless it is the last word read
        rcases Nat.eq_or_lt_of_le (Nat.succ_le_of_lt read) with last | inner
        · exact new (Or.inl last)
        · have closed := whole.groupEnd_lt matched.toBalanced isBrace reached (by omega)
          omega
    · exact new (Or.inr claimed)

/-- At its own commas the walk is in the scope where the statement started, and at no greater depth. -/
theorem at_comma (tracks : Tracks code state first stop position walk inner)
    (own : position ∈ code.ownCommas first stop) (lasts : ∀ place ∈ state.places.head?, position ≤ place.2) :
    (walk.arrive position).depth = state.depth ∧ (walk.arrive position).places = state.places := by
  have outer := (Code.mem_ownCommas.mp own).2.2
  have arrived := tracks.arrive lasts
  have left : inner.dropWhile (·.2 < position) = [] := by
    refine List.dropWhile_eq_nil_iff.mpr fun place member => ?_
    exact decide_eq_true (tracks.early position own (Nat.le_refl _) place member)
  refine ⟨?_, ?_⟩
  · rw [arrived.depth, Code.openRounds_of_outer outer, Finset.card_empty, Nat.add_zero]
  · rw [arrived.places, left, List.nil_append]

/-- Inside a group of the statement the depth is greater or another scope is open. -/
theorem outer_of_same (matched : code.Matched) (tracks : Tracks code state first stop position walk inner)
    (concludes : code.Concludes first stop) (high : position < stop) (depth : walk.depth = state.depth)
    (frames : walk.frames.length = state.frames.length) :
    code.Level first position := by
  have none : inner = [] := by
    have size := congrArg List.length tracks.places
    unfold Walk.places at size
    rw [List.length_append, List.length_map, List.length_map, frames] at size
    exact List.eq_nil_of_length_eq_zero (by omega)
  intro opener closer later low below closed
  by_contra around
  have ends := concludes.outer opener closer later low (by omega) closed
  rcases matched.round_or_brace closed with ⟨round, _⟩ | ⟨brace, _⟩
  · have member : opener ∈ code.openRounds first position :=
      Code.mem_openRounds.mpr ⟨⟨low, below⟩, round, closer, later, closed, by omega⟩
    have some := Finset.card_pos.mpr ⟨opener, member⟩
    have counted := tracks.depth
    omega
  · have last := Code.groupEnd_eq closed
    obtain ⟨place, member, _⟩ := tracks.covered opener low (by omega) brace (Or.inl below) (by omega)
    rw [none] at member
    cases member

end Tracks

theorem Visits.le {origin : Walk} {word : Nat} (visits : Visits code origin first state word) : first ≤ word := by
  induction visits with
  | here => exact Nat.le_refl _
  | later _ _ ih => omega

/-- Every word of the code is read by a step that a run makes. -/
theorem Visits.exists_reading (origin : Walk) {first word : Nat} (low : first ≤ word) (inside : word < code.size) :
    ∃ state position, Visits code origin first state position ∧ position ≤ word ∧
      word < (state.step code position).2 := by
  have start : first < code.size := by omega
  have ahead := step_advances (origin.arrive first) start
  by_cases here : word < ((origin.arrive first).step code first).2
  · exact ⟨_, first, .here start, low, here⟩
  · obtain ⟨state, position, visits, before, read⟩ :=
      @exists_reading ((origin.arrive first).step code first).1
        (max (first + 1) ((origin.arrive first).step code first).2) word (by omega) inside
    exact ⟨state, position, .later start visits, before, read⟩
termination_by code.size - first

namespace Orderly

variable {origin : Walk}

theorem limits (orderly : Orderly code origin first stop) (visits : Visits code origin first walk position)
    (high : position < stop) :
    code.Level position ((walk.step code position).2 - 1) ∧
      ∀ limit, position < limit → limit ≤ stop → isLimit code first stop position limit = true →
        reach walk (walk.step code position) < limit := by
  obtain ⟨whole, limits⟩ := orderly (walk, position) (mem_visited.mpr visits) high
  refine ⟨Code.isOuter_iff.mp whole, fun limit low bound isLimit => ?_⟩
  exact limits limit (List.mem_range'_1.mpr ⟨low, by dsimp only; omega⟩) isLimit

theorem tracks (orderly : Orderly code origin first stop) (matched : code.Matched)
    (concludes : code.Concludes first stop) (lasts : ∀ place ∈ state.places.head?, stop ≤ place.2)
    (start : Tracks code state first stop first origin []) (visits : Visits code origin first walk position)
    (bound : position ≤ stop) :
    ∃ before inner, walk = before.arrive position ∧ Tracks code state first stop position before inner := by
  have kept := visits.keeps_along
    (fun position walk => position ≤ stop → ∃ inner, Tracks code state first stop position walk inner) ?_
    fun _ => ⟨[], start⟩
  · obtain ⟨before, same, tracks⟩ := kept
    obtain ⟨inner, tracks⟩ := tracks bound
    exact ⟨before, inner, same, tracks⟩
  · intro walk position visits tracks further
    have ahead := step_advances (walk.arrive position) visits.inside
    obtain ⟨inner, tracks⟩ := tracks (by omega)
    obtain ⟨whole, limits⟩ := orderly.limits visits (by omega)
    have arrived := tracks.arrive fun place member => Nat.le_trans (by omega) (lasts place member)
    have keeps := step_keeps matched.toBalanced (walk.arrive position) position
    exact arrived.step matched concludes keeps visits.le (by omega) whole limits

end Orderly

end Walk

end ScopedRename
