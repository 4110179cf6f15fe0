import ScopedRename.Proofs.Code.Brackets
import ScopedRename.Proofs.Token.Tiling

/-!
Pairing delimiters against a grammar of brackets. The delimiters of words spell a word of brackets, and such a word is
well-bracketed if it falls apart into groups, each with a well-bracketed word inside. Main statement: pairing succeeds
on the well-bracketed words and on no others, and where it fails it says what a grammar has to object to, at the first
word where it can object.
-/

namespace ScopedRename

/-! ### Words of brackets -/

inductive Bracket where
  | opening (delimiter : Delimiter)
  | closing (delimiter : Delimiter)
deriving DecidableEq, Repr

def Lexeme.bracket? (word : Lexeme) : Option Bracket :=
  match word.opens?, word.closes? with
  | some delimiter, _ => some (.opening delimiter)
  | none, some delimiter => some (.closing delimiter)
  | none, none => none

def brackets (words : List Lexeme) : List Bracket := words.filterMap Lexeme.bracket?

theorem brackets_append (left right : List Lexeme) : brackets (left ++ right) = brackets left ++ brackets right :=
  List.filterMap_append

theorem brackets_cons (word : Lexeme) (rest : List Lexeme) :
    brackets (word :: rest) = word.bracket?.toList ++ brackets rest := by
  unfold brackets
  rw [List.filterMap_cons]
  cases word.bracket? with
  | none => rfl
  | some bracket => rfl

theorem brackets_split {words : List Lexeme} {place : Nat} {word : Lexeme} (found : words[place]? = some word) :
    brackets words =
      brackets (words.take place) ++ (word.bracket?.toList ++ brackets (words.drop (place + 1))) := by
  obtain ⟨inside, same⟩ := List.getElem?_eq_some_iff.mp found
  rw [← brackets_cons, ← brackets_append, ← same, List.getElem_cons_drop, List.take_append_drop]

theorem Lexeme.bracket?_of_opens? {word : Lexeme} {delimiter : Delimiter} (opens : word.opens? = some delimiter) :
    word.bracket? = some (.opening delimiter) := by
  unfold bracket?
  rw [opens]

theorem Lexeme.bracket?_of_closes? {word : Lexeme} {delimiter : Delimiter}
    (closes : word.closes? = some delimiter) : word.bracket? = some (.closing delimiter) := by
  unfold bracket?
  cases opens : word.opens? with
  | none => rw [closes]
  | some other =>
      rw [closes?_of_opens? opens] at closes
      cases closes

theorem Lexeme.bracket?_eq_none {word : Lexeme} (noOpener : word.opens? = none) (noCloser : word.closes? = none) :
    word.bracket? = none := by
  unfold bracket?
  rw [noOpener, noCloser]

inductive WellBracketed : List Bracket → Prop where
  | nil : WellBracketed []
  | group (delimiter : Delimiter) {inner behind : List Bracket} (inside : WellBracketed inner)
      (further : WellBracketed behind) : WellBracketed (.opening delimiter :: (inner ++ .closing delimiter :: behind))

namespace WellBracketed

theorem append {left right : List Bracket} (first : WellBracketed left) (second : WellBracketed right) :
    WellBracketed (left ++ right) := by
  induction first with
  | nil => exact second
  | group delimiter inside _ _ ih =>
      rw [List.cons_append, List.append_assoc, List.cons_append]
      exact .group delimiter inside ih

theorem single (delimiter : Delimiter) {inner : List Bracket} (inside : WellBracketed inner) :
    WellBracketed (.opening delimiter :: (inner ++ [.closing delimiter])) :=
  .group delimiter inside .nil

end WellBracketed

def Continues (word : List Bracket) : Prop := ∃ further, WellBracketed (word ++ further)

theorem Continues.of_append {word further : List Bracket} (continues : Continues (word ++ further)) :
    Continues word := by
  obtain ⟨rest, whole⟩ := continues
  exact ⟨further ++ rest, by rw [← List.append_assoc]; exact whole⟩

/-- The groups still open behind the brackets, innermost first, unless a closer does not fit. -/
def stillOpen : List Delimiter → List Bracket → Option (List Delimiter)
  | pending, [] => some pending
  | pending, .opening delimiter :: rest => stillOpen (delimiter :: pending) rest
  | [], .closing _ :: _ => none
  | expected :: outer, .closing found :: rest => if expected = found then stillOpen outer rest else none

theorem stillOpen_append (pending : List Delimiter) (left right : List Bracket) :
    stillOpen pending (left ++ right) = (stillOpen pending left).bind (stillOpen · right) := by
  fun_induction stillOpen pending left with
  | case1 => rfl
  | case2 pending delimiter rest ih => exact ih
  | case3 => rfl
  | case4 outer found rest ih =>
      rw [List.cons_append, stillOpen, if_pos rfl]
      exact ih
  | case5 expected outer found rest different =>
      rw [List.cons_append, stillOpen, if_neg different]
      rfl

theorem WellBracketed.stillOpen_eq {word : List Bracket} (balanced : WellBracketed word) (pending : List Delimiter) :
    stillOpen pending word = some pending := by
  induction balanced generalizing pending with
  | nil => rfl
  | group delimiter _ _ inside further =>
      rw [stillOpen, stillOpen_append, inside, Option.bind_some, stillOpen, if_pos rfl, further]

theorem Continues.stillOpen_isSome {word : List Bracket} (continues : Continues word) :
    (stillOpen [] word).isSome = true := by
  obtain ⟨further, whole⟩ := continues
  have closed := whole.stillOpen_eq []
  rw [stillOpen_append] at closed
  obtain ⟨pending, opened, _⟩ := Option.bind_eq_some_iff.mp closed
  rw [opened]
  rfl

/-! ### The groups that wait for their closers -/

/-- Behind the words, the groups that opened at these places are open, innermost first: between one opener and the
next, and around them, everything is closed. -/
inductive Awaits : List Lexeme → List (Nat × Delimiter) → Prop where
  | settled {words : List Lexeme} (balanced : WellBracketed (brackets words)) : Awaits words []
  | within {before inner : List Lexeme} {word : Lexeme} {delimiter : Delimiter} {outer : List (Nat × Delimiter)}
      (surrounding : Awaits before outer) (opens : word.opens? = some delimiter)
      (balanced : WellBracketed (brackets inner)) :
      Awaits (before ++ word :: inner) ((before.length, delimiter) :: outer)

structure Innermost (words : List Lexeme) (place : Nat) (delimiter : Delimiter) : Prop where
  opens : words[place]?.bind Lexeme.opens? = some delimiter
  balanced : WellBracketed (brackets (words.drop (place + 1)))

namespace Awaits

variable {words : List Lexeme} {word : Lexeme} {pending outer : List (Nat × Delimiter)} {delimiter : Delimiter}

/-- Balanced words change nothing. -/
theorem pass (awaits : Awaits words pending) {more : List Lexeme} (balanced : WellBracketed (brackets more)) :
    Awaits (words ++ more) pending := by
  cases awaits with
  | settled before =>
      refine .settled ?_
      rw [brackets_append]
      exact before.append balanced
  | within surrounding opens inside =>
      rw [List.append_assoc, List.cons_append]
      refine .within surrounding opens ?_
      rw [brackets_append]
      exact inside.append balanced

theorem opened (awaits : Awaits words pending) (opens : word.opens? = some delimiter) :
    Awaits (words ++ [word]) ((words.length, delimiter) :: pending) :=
  .within awaits opens .nil

theorem closed {opener : Nat} (awaits : Awaits words ((opener, delimiter) :: outer))
    (closes : word.closes? = some delimiter) : Awaits (words ++ [word]) outer := by
  cases awaits with
  | @within before inner first _ _ surrounding opens inside =>
      rw [List.append_assoc, List.cons_append]
      refine surrounding.pass ?_
      rw [brackets_cons, brackets_append, brackets_cons, Lexeme.bracket?_of_opens? opens,
        Lexeme.bracket?_of_closes? closes]
      exact .single delimiter inside

theorem stillOpen_eq (awaits : Awaits words pending) :
    stillOpen [] (brackets words) = some (pending.map (·.2)) := by
  induction awaits with
  | settled balanced => exact balanced.stillOpen_eq []
  | within _ opens balanced ih =>
      rw [brackets_append, brackets_cons, Lexeme.bracket?_of_opens? opens, stillOpen_append, ih, Option.bind_some,
        Option.toList_some, List.singleton_append, stillOpen, balanced.stillOpen_eq]
      rfl

/-- The open groups can be closed one by one. -/
theorem closable (awaits : Awaits words pending) {more : List Bracket} (balanced : WellBracketed more) :
    WellBracketed (brackets words ++ (more ++ pending.map (.closing ·.2))) := by
  induction awaits generalizing more with
  | settled before =>
      rw [List.map_nil, List.append_nil]
      exact before.append balanced
  | @within before inner word delimiter outer _ opens inside ih =>
      have whole := ih (WellBracketed.single delimiter (inside.append balanced))
      rw [brackets_append, brackets_cons, Lexeme.bracket?_of_opens? opens]
      simpa using whole

theorem continues (awaits : Awaits words pending) : Continues (brackets words) :=
  ⟨_, awaits.closable .nil⟩

theorem innermost {opener : Nat} (awaits : Awaits words ((opener, delimiter) :: outer)) :
    Innermost words opener delimiter := by
  cases awaits with
  | @within before inner first _ _ _ opens inside =>
      constructor
      · rw [List.getElem?_append_right (Nat.le_refl _), Nat.sub_self]
        exact opens
      · rw [List.drop_length_add_append]
        exact inside

end Awaits

/-! ### What a fault says -/

/-- The first closer that no well-bracketed word has behind the words in front of it. -/
structure FirstMisfit (words : List Lexeme) (place : Nat) (found : Delimiter) : Prop where
  closes : words[place]?.bind Lexeme.closes? = some found
  misfit : ¬ Continues (brackets (words.take place) ++ [.closing found])
  first : ∀ earlier < place, ∀ delimiter, words[earlier]?.bind Lexeme.closes? = some delimiter →
    Continues (brackets (words.take earlier) ++ [.closing delimiter])

inductive Blames (words : List Lexeme) : BracketFault → Prop where
  | unexpectedCloser {place : Nat} {found : Delimiter} (misfit : FirstMisfit words place found)
      (settled : WellBracketed (brackets (words.take place))) : Blames words (.unexpectedCloser place found)
  | mismatched {place opener : Nat} {expected found : Delimiter} (misfit : FirstMisfit words place found)
      (innermost : Innermost (words.take place) opener expected) : Blames words (.mismatched place expected found)
  | unclosed {opener : Nat} {opened : Delimiter}
      (fitting : ∀ place delimiter, words[place]?.bind Lexeme.closes? = some delimiter →
        Continues (brackets (words.take place) ++ [.closing delimiter]))
      (innermost : Innermost words opener opened) : Blames words (.unclosed opener opened)

theorem Continues.fitting {words : List Lexeme} (continues : Continues (brackets words)) (place : Nat)
    (delimiter : Delimiter) (closes : words[place]?.bind Lexeme.closes? = some delimiter) :
    Continues (brackets (words.take place) ++ [.closing delimiter]) := by
  obtain ⟨word, found, closer⟩ := Option.bind_eq_some_iff.mp closes
  rw [brackets_split found, Lexeme.bracket?_of_closes? closer, ← List.append_assoc] at continues
  exact continues.of_append

/-- A closer that the innermost open group does not wait for is the first misfit. -/
theorem Awaits.firstMisfit {before rest : List Lexeme} {word : Lexeme} {pending : List (Nat × Delimiter)}
    {found : Delimiter} (awaits : Awaits before pending) (closes : word.closes? = some found)
    (unfit : ∀ group ∈ pending.head?, group.2 ≠ found) :
    FirstMisfit (before ++ word :: rest) before.length found where
  closes := by
    rw [List.getElem?_append_right (Nat.le_refl _), Nat.sub_self]
    exact closes
  misfit continues := by
    rw [List.take_left] at continues
    have opened := continues.stillOpen_isSome
    rw [stillOpen_append, awaits.stillOpen_eq, Option.bind_some] at opened
    cases pending with
    | nil => cases opened
    | cons group outer =>
        rw [List.map_cons, stillOpen, if_neg (unfit group rfl)] at opened
        cases opened
  first earlier inside delimiter closer := by
    rw [List.getElem?_append_left inside] at closer
    rw [List.take_append_of_le_length (Nat.le_of_lt inside)]
    exact awaits.continues.fitting earlier delimiter closer

/-- Pairing goes on while every closer fits, and ends at the first misfit or with the groups that are still open. -/
theorem bracketPairs_outcome {position : Nat} {pending : List (Nat × Delimiter)} {before rest : List Lexeme}
    (start : position = before.length) (awaits : Awaits before pending) :
    (∀ pairs, bracketPairs position pending rest = .ok pairs → WellBracketed (brackets (before ++ rest))) ∧
      ∀ fault, bracketPairs position pending rest = .error fault → Blames (before ++ rest) fault := by
  have next (before : List Lexeme) (word : Lexeme) : before.length + 1 = (before ++ [word]).length :=
    by rw [List.length_append, List.length_singleton]
  fun_induction bracketPairs position pending rest generalizing before with
  | case1 =>
      rw [List.append_nil]
      cases awaits with
      | settled balanced => exact ⟨fun _ _ => balanced, fun _ impossible => by cases impossible⟩
  | case2 position opener delimiter outer =>
      rw [List.append_nil]
      refine ⟨fun _ impossible => (by cases impossible), ?_⟩
      intro fault failed
      cases failed
      exact .unclosed awaits.continues.fitting awaits.innermost
  | case3 position pending word rest delimiter opens ih =>
      subst start
      rw [List.append_cons]
      exact ih (next before word) (awaits.opened opens)
  | case4 position pending word rest noCloser noOpener ih =>
      subst start
      rw [List.append_cons]
      refine ih (next before word) (awaits.pass ?_)
      rw [brackets_cons, Lexeme.bracket?_eq_none noOpener noCloser]
      exact .nil
  | case5 position word rest found closes _ =>
      subst start
      refine ⟨fun _ impossible => (by cases impossible), ?_⟩
      intro fault failed
      cases failed
      refine .unexpectedCloser (awaits.firstMisfit closes (by simp)) ?_
      rw [List.take_left]
      cases awaits with
      | settled balanced => exact balanced
  | case6 position word rest noOpener opener delimiter outer closes ih =>
      subst start
      rw [List.append_cons]
      obtain ⟨paired, failed⟩ := ih (next before word) (awaits.closed closes)
      constructor
      · intro pairs found
        obtain ⟨further, inner, _⟩ := map_eq_ok.mp found
        exact paired further inner
      · intro fault found
        cases inner : bracketPairs (before.length + 1) outer rest with
        | ok pairs =>
            rw [inner] at found
            cases found
        | error cause =>
            rw [inner] at found
            cases found
            exact failed fault inner
  | case7 position word rest found closes _ opener expected outer different =>
      subst start
      refine ⟨fun _ impossible => (by cases impossible), ?_⟩
      intro fault failed
      cases failed
      have innermost : Innermost ((before ++ word :: rest).take before.length) opener expected := by
        rw [List.take_left]
        exact awaits.innermost
      refine .mismatched (awaits.firstMisfit closes ?_) innermost
      intro group here
      cases here
      exact different

/-! ### Faults are determined -/

theorem WellBracketed.continues {word : List Bracket} (balanced : WellBracketed word) : Continues word :=
  ⟨[], by rw [List.append_nil]; exact balanced⟩

/-- A group that is open behind words is still open there. -/
theorem Innermost.not_settled {words : List Lexeme} {place : Nat} {delimiter : Delimiter}
    (innermost : Innermost words place delimiter) : ¬ WellBracketed (brackets words) := by
  intro balanced
  obtain ⟨word, found, opens⟩ := Option.bind_eq_some_iff.mp innermost.opens
  have split := brackets_split found
  have settled := balanced.stillOpen_eq []
  rw [split, stillOpen_append] at settled
  obtain ⟨pending, _, open_⟩ := Option.bind_eq_some_iff.mp settled
  rw [Lexeme.bracket?_of_opens? opens, Option.toList_some, List.singleton_append, stillOpen,
    innermost.balanced.stillOpen_eq] at open_
  cases open_

/-- Behind words, one open group at most is the innermost. -/
theorem Innermost.unique {words : List Lexeme} {left right : Nat} {leftDelimiter rightDelimiter : Delimiter}
    (first : Innermost words left leftDelimiter) (second : Innermost words right rightDelimiter) :
    left = right ∧ leftDelimiter = rightDelimiter := by
  have noLater {early late : Nat} {early_ late_ : Delimiter} (outer : Innermost words early early_)
      (inner : Innermost words late late_) : ¬ early < late := by
    intro before
    have place : early + 1 + (late - (early + 1)) = late := by omega
    have behind : Innermost (words.drop (early + 1)) (late - (early + 1)) late_ := by
      constructor
      · rw [List.getElem?_drop, place]
        exact inner.opens
      · rw [List.drop_drop, ← Nat.add_assoc, place]
        exact inner.balanced
    exact behind.not_settled outer.balanced
  have notBefore := noLater first second
  have notBehind := noLater second first
  obtain rfl : left = right := by omega
  have opens := first.opens
  rw [second.opens] at opens
  cases opens
  exact ⟨rfl, rfl⟩

theorem FirstMisfit.unique {words : List Lexeme} {left right : Nat} {leftFound rightFound : Delimiter}
    (first : FirstMisfit words left leftFound) (second : FirstMisfit words right rightFound) :
    left = right ∧ leftFound = rightFound := by
  rcases Nat.lt_trichotomy left right with before | same | after
  · exact absurd (second.first left before leftFound first.closes) first.misfit
  · subst same
    have closes := first.closes
    rw [second.closes] at closes
    cases closes
    exact ⟨rfl, rfl⟩
  · exact absurd (first.first right after rightFound second.closes) second.misfit

namespace Blames

variable {words : List Lexeme} {cause other : BracketFault}

theorem not_wellBracketed (blames : Blames words cause) : ¬ WellBracketed (brackets words) := by
  intro balanced
  cases blames with
  | unexpectedCloser misfit _ => exact misfit.misfit (balanced.continues.fitting _ _ misfit.closes)
  | mismatched misfit _ => exact misfit.misfit (balanced.continues.fitting _ _ misfit.closes)
  | unclosed _ innermost => exact innermost.not_settled balanced

theorem unique (blames : Blames words cause) (again : Blames words other) : cause = other := by
  cases blames with
  | unexpectedCloser misfit settled =>
      cases again with
      | unexpectedCloser otherMisfit _ =>
          obtain ⟨rfl, rfl⟩ := misfit.unique otherMisfit
          rfl
      | mismatched otherMisfit innermost =>
          obtain ⟨rfl, rfl⟩ := misfit.unique otherMisfit
          exact absurd settled innermost.not_settled
      | unclosed fitting _ => exact absurd (fitting _ _ misfit.closes) misfit.misfit
  | mismatched misfit innermost =>
      cases again with
      | unexpectedCloser otherMisfit settled =>
          obtain ⟨rfl, rfl⟩ := misfit.unique otherMisfit
          exact absurd settled innermost.not_settled
      | mismatched otherMisfit otherInnermost =>
          obtain ⟨rfl, rfl⟩ := misfit.unique otherMisfit
          obtain ⟨rfl, rfl⟩ := innermost.unique otherInnermost
          rfl
      | unclosed fitting _ => exact absurd (fitting _ _ misfit.closes) misfit.misfit
  | unclosed fitting innermost =>
      cases again with
      | unexpectedCloser misfit _ => exact absurd (fitting _ _ misfit.closes) misfit.misfit
      | mismatched misfit _ => exact absurd (fitting _ _ misfit.closes) misfit.misfit
      | unclosed _ otherInnermost =>
          obtain ⟨rfl, rfl⟩ := innermost.unique otherInnermost
          rfl

theorem place (blames : Blames words cause) : ∃ word, words[cause.place]? = some word := by
  cases blames with
  | unexpectedCloser misfit _ => exact (Option.bind_eq_some_iff.mp misfit.closes).imp fun _ => And.left
  | mismatched misfit _ => exact (Option.bind_eq_some_iff.mp misfit.closes).imp fun _ => And.left
  | unclosed _ innermost => exact (Option.bind_eq_some_iff.mp innermost.opens).imp fun _ => And.left

end Blames

theorem BracketFault.relocate_congr (fault : BracketFault) {left right : Nat → Nat}
    (same : left fault.place = right fault.place) : fault.relocate left = fault.relocate right := by
  cases fault with
  | unexpectedCloser place found => exact congrArg (BracketFault.unexpectedCloser · found) same
  | mismatched place expected found => exact congrArg (BracketFault.mismatched · expected found) same
  | unclosed place opened => exact congrArg (BracketFault.unclosed · opened) same

/-! ### Paired code -/

namespace Code

/-- Every delimiter, and no other word, has a partner: an opener has a closer of its own kind behind it, the partner of
the partner is the delimiter itself, and a group with one end inside another group has both ends there. -/
structure Paired (code : Code) : Prop where
  delimiters : ∀ place, (code.partner? place).isSome = (code.isOpener place || code.isCloser place)
  alike : ∀ opener delimiter, (code.word? opener).bind Lexeme.opens? = some delimiter →
    ∃ closer, opener < closer ∧ code.partner? opener = some closer ∧
      (code.word? closer).bind Lexeme.closes? = some delimiter
  inverse : ∀ place partner, code.partner? place = some partner → code.partner? partner = some place
  uncrossed : ∀ opener closer place partner, code.partner? opener = some closer → code.partner? place = some partner →
    opener < place → place < closer → opener < partner ∧ partner < closer

theorem ofLayout_paired {layout : Layout} {code : Code} (built : ofLayout layout = .ok code) : code.Paired := by
  have matched := ofLayout_matched built
  obtain ⟨pairs, paired, rfl⟩ := map_eq_ok.mp built
  have pairing := bracketPairs_pairing Pending.start paired
  have inverse {place partner : Nat}
      (found : (⟨layout, partnerTable layout.size pairs⟩ : Code).partner? place = some partner) :
      (⟨layout, partnerTable layout.size pairs⟩ : Code).partner? partner = some place :=
    (partner?_eq_some_iff paired).mpr ((partner?_eq_some_iff paired).mp found).symm
  constructor
  · intro place
    apply Bool.eq_iff_iff.mpr
    rw [Bool.or_eq_true, Option.isSome_iff_exists]
    constructor
    · rintro ⟨partner, found⟩
      rcases (partner?_eq_some_iff paired).mp found with forward | backward
      · obtain ⟨later, closed⟩ := close?_of_mem paired forward
        exact Or.inl (matched.opens closed)
      · obtain ⟨later, closed⟩ := close?_of_mem paired backward
        exact Or.inr (matched.closes closed)
    · rintro (opens | closes)
      · obtain ⟨closer, _, found⟩ := matched.closed opens
        exact ⟨closer, (close?_eq_some_iff _).mp found⟩
      · obtain ⟨opener, _, found⟩ := matched.answered closes
        exact ⟨opener, inverse ((close?_eq_some_iff _).mp found)⟩
  · intro opener delimiter opens
    have isOpener : (⟨layout, partnerTable layout.size pairs⟩ : Code).isOpener opener = true := by
      obtain ⟨word, found, first⟩ := Option.bind_eq_some_iff.mp opens
      exact (Option.any_eq_true _ _).mpr ⟨word, found, by rw [first]; rfl⟩
    obtain ⟨closer, later, found⟩ := matched.closed isOpener
    obtain ⟨other, first, last⟩ := matched.alike found
    rw [opens] at first
    cases first
    exact ⟨closer, later, (close?_eq_some_iff _).mp found, last⟩
  · intro place partner
    exact inverse
  · intro opener closer place partner outside inside before behind
    have outer : (opener, closer) ∈ pairs := by
      rcases (partner?_eq_some_iff paired).mp outside with forward | backward
      · exact forward
      · have := (pairing.closer _ backward).2.1
        omega
    rcases (partner?_eq_some_iff paired).mp inside with forward | backward
    · have ordered := (pairing.closer _ forward).2.1
      exact ⟨Nat.lt_trans before ordered, pairing.nested _ outer _ forward before behind⟩
    · have ordered := (pairing.closer _ backward).2.1
      refine ⟨?_, Nat.lt_trans ordered behind⟩
      rcases Nat.lt_trichotomy partner opener with front | same | after
      · -- a group that opens in front of the outer one ends in front of it or around it
        have := pairing.nested _ backward _ outer front before
        omega
      · have := congrArg Prod.snd (bracketPairs_distinct Pending.start paired _ outer _ backward same.symm)
        dsimp only at this
        omega
      · exact after

/-- Paired words are well-bracketed, and a fault says what is wrong with the words. -/
private theorem ofLayout_outcome (layout : Layout) :
    (∀ code, ofLayout layout = .ok code → WellBracketed (brackets layout.words)) ∧
      ∀ fault, ofLayout layout = .error fault → Blames layout.words fault := by
  have settled : Awaits [] [] := .settled .nil
  obtain ⟨paired, failed⟩ := bracketPairs_outcome List.length_nil.symm settled
  constructor
  · intro code built
    obtain ⟨pairs, found, _⟩ := bind_eq_ok.mp built
    exact paired pairs found
  · intro fault built
    rcases bind_eq_error.mp built with found | ⟨_, _, impossible⟩
    · exact failed fault found
    · cases impossible

theorem exists_ofLayout_iff {layout : Layout} :
    (∃ code, ofLayout layout = .ok code) ↔ WellBracketed (brackets layout.words) := by
  obtain ⟨paired, failed⟩ := ofLayout_outcome layout
  constructor
  · rintro ⟨code, built⟩
    exact paired code built
  · intro balanced
    cases built : ofLayout layout with
    | ok code => exact ⟨code, rfl⟩
    | error fault => exact absurd balanced (failed fault built).not_wellBracketed

/-- Pairing fails with a fault exactly if the fault says what is wrong with the words. -/
theorem ofLayout_eq_error_iff {layout : Layout} {fault : BracketFault} :
    ofLayout layout = .error fault ↔ Blames layout.words fault := by
  obtain ⟨paired, failed⟩ := ofLayout_outcome layout
  constructor
  · exact failed fault
  · intro blames
    cases built : ofLayout layout with
    | ok code => exact absurd (paired code built) blames.not_wellBracketed
    | error other => rw [(failed other built).unique blames]

/-- The fault of a token list is that of its words, at the byte where the token starts. -/
theorem ofTokens_eq_error_iff {tokens : List Token} {fault : BracketFault} :
    ofTokens tokens = .error fault ↔
      ∃ cause token, Blames (Token.words tokens) cause ∧ (Token.significant tokens)[cause.place]? = some token ∧
        fault = cause.relocate fun _ => token.span.start := by
  have relocated {cause : BracketFault} {token : Token}
      (found : (Token.significant tokens)[cause.place]? = some token) :
      (cause.relocate fun position => ((Layout.ofTokens tokens).span position).start) =
        cause.relocate fun _ => token.span.start := by
    have span := Layout.span_of_token? ((Layout.token?_ofTokens tokens cause.place).trans found)
    exact cause.relocate_congr (congrArg Span.start span)
  rw [ofTokens, mapError_eq_error]
  constructor
  · rintro ⟨cause, built, rfl⟩
    have blames := ofLayout_eq_error_iff.mp built
    rw [Layout.words_ofTokens] at blames
    obtain ⟨word, found⟩ := blames.place
    rw [Token.words_eq_significant, List.getElem?_map] at found
    obtain ⟨token, at_, _⟩ := Option.map_eq_some_iff.mp found
    exact ⟨cause, token, blames, at_, relocated at_⟩
  · rintro ⟨cause, token, blames, at_, rfl⟩
    rw [← Layout.words_ofTokens] at blames
    exact ⟨cause, ofLayout_eq_error_iff.mpr blames, relocated at_⟩

end Code

/-- Delimiters are paired exactly if they spell a well-bracketed word. Then every delimiter, and no other word, has a
partner, and the groups are nested; otherwise the fault names the first closer that fits no group, with the innermost
open group, or else the innermost group that is left open, at the byte where that token starts. -/
theorem pairing_exact (tokens : List Token) :
    ((∃ code, Code.ofTokens tokens = .ok code) ↔ WellBracketed (brackets (Token.words tokens))) ∧
      (∀ code, Code.ofTokens tokens = .ok code → code.layout.words = Token.words tokens ∧ code.Paired) ∧
      ∀ fault, Code.ofTokens tokens = .error fault ↔
        ∃ cause token, Blames (Token.words tokens) cause ∧ (Token.significant tokens)[cause.place]? = some token ∧
          fault = cause.relocate fun _ => token.span.start := by
  refine ⟨?_, ?_, fun _ => Code.ofTokens_eq_error_iff⟩
  · rw [← Layout.words_ofTokens, ← Code.exists_ofLayout_iff]
    exact exists_congr fun _ => Code.ofTokens_eq_ok
  · intro code built
    rw [Code.ofTokens_layout built, Layout.words_ofTokens]
    exact ⟨rfl, Code.ofLayout_paired (Code.ofTokens_eq_ok.mp built)⟩

end ScopedRename
