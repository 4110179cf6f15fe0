import Mathlib.Data.List.Basic
import ScopedRename.Code.Brackets
import ScopedRename.Proofs.Fallible
import ScopedRename.Proofs.Token.Layout

/-!
What the pairing of delimiters guarantees. Main statement: in balanced code every opener has a closer behind it, and a
group that opens inside another one closes inside it.
-/

namespace ScopedRename

/-! ### Pairs of positions -/

structure Pending (position : Nat) (pending : List (Nat × Delimiter)) : Prop where
  before : ∀ group ∈ pending, group.1 < position
  ordered : pending.Pairwise fun inner outer => outer.1 < inner.1

theorem Pending.start : Pending 0 [] where
  before _ impossible := nomatch impossible
  ordered := List.Pairwise.nil

theorem Pending.push {position : Nat} {pending : List (Nat × Delimiter)} (waiting : Pending position pending)
    (delimiter : Delimiter) : Pending (position + 1) ((position, delimiter) :: pending) where
  before group member := by
    rcases List.mem_cons.mp member with here | outer
    · rw [here]
      exact Nat.lt_succ_self position
    · exact Nat.lt_succ_of_lt (waiting.before group outer)
  ordered := List.pairwise_cons.mpr ⟨waiting.before, waiting.ordered⟩

theorem Pending.pass {position : Nat} {pending : List (Nat × Delimiter)} (waiting : Pending position pending) :
    Pending (position + 1) pending where
  before group member := Nat.lt_succ_of_lt (waiting.before group member)
  ordered := waiting.ordered

theorem Pending.pop {position : Nat} {group : Nat × Delimiter} {pending : List (Nat × Delimiter)}
    (waiting : Pending position (group :: pending)) : Pending position pending where
  before outer member := waiting.before outer (List.mem_cons_of_mem _ member)
  ordered := (List.pairwise_cons.mp waiting.ordered).2

/-- The pairs found from a position on: each closes there and opens at a pending group or there, one that opens inside
another closes inside it, and no opener is left over. -/
structure Pairing (position : Nat) (pending : List (Nat × Delimiter)) (words : List Lexeme)
    (pairs : List (Nat × Nat)) : Prop where
  closer : ∀ pair ∈ pairs, position ≤ pair.2 ∧ pair.1 < pair.2 ∧
    ∃ word, words[pair.2 - position]? = some word ∧ word.closes?.isSome = true ∧ word.opens? = none
  opener : ∀ pair ∈ pairs, (∃ group ∈ pending, group.1 = pair.1) ∨
    position ≤ pair.1 ∧ ∃ word, words[pair.1 - position]? = some word ∧ word.opens?.isSome = true
  nested : ∀ outer ∈ pairs, ∀ inner ∈ pairs, outer.1 < inner.1 → inner.1 < outer.2 → inner.2 < outer.2
  pending : ∀ group ∈ pending, ∃ pair ∈ pairs, pair.1 = group.1
  complete : ∀ index word, words[index]? = some word → word.opens?.isSome = true →
    ∃ pair ∈ pairs, pair.1 = position + index

private theorem getElem?_cons_sub {α : Type} {position place : Nat} (first : α) (rest : List α)
    (later : position + 1 ≤ place) : (first :: rest)[place - position]? = rest[place - (position + 1)]? := by
  have step : place - position = place - (position + 1) + 1 := by omega
  rw [step, List.getElem?_cons_succ]

private theorem Pairing.step {position : Nat} {pending former : List (Nat × Delimiter)} {word : Lexeme}
    {rest : List Lexeme} {pairs : List (Nat × Nat)} (pairing : Pairing (position + 1) pending rest pairs)
    (opened : ∀ group ∈ pending, group ∈ former ∨ group.1 = position ∧ word.opens?.isSome = true)
    (kept : ∀ group ∈ former, group ∈ pending)
    (here : word.opens?.isSome = true → ∃ group ∈ pending, group.1 = position) :
    Pairing position former (word :: rest) pairs where
  closer pair member := by
    obtain ⟨low, ordered, found⟩ := pairing.closer pair member
    rw [getElem?_cons_sub word rest low]
    exact ⟨by omega, ordered, found⟩
  opener pair member := by
    rcases pairing.opener pair member with ⟨group, waiting, same⟩ | ⟨low, found⟩
    · rcases opened group waiting with before | ⟨at_, opens⟩
      · exact Or.inl ⟨group, before, same⟩
      · right
        have place : pair.1 = position := same ▸ at_
        rw [place, Nat.sub_self]
        exact ⟨Nat.le_refl _, word, rfl, opens⟩
    · rw [getElem?_cons_sub word rest low]
      exact Or.inr ⟨by omega, found⟩
  nested := pairing.nested
  pending group member := pairing.pending group (kept group member)
  complete index other found opens := by
    cases index with
    | zero =>
        cases found
        obtain ⟨group, waiting, at_⟩ := here opens
        obtain ⟨pair, member, same⟩ := pairing.pending group waiting
        exact ⟨pair, member, by omega⟩
    | succ index =>
        obtain ⟨pair, member, same⟩ := pairing.complete index other found opens
        exact ⟨pair, member, by omega⟩

/-- The innermost pending group closes at the first word. -/
private theorem Pairing.close {position opener : Nat} {delimiter : Delimiter} {outer : List (Nat × Delimiter)}
    {word : Lexeme} {rest : List Lexeme} {pairs : List (Nat × Nat)}
    (waiting : Pending position ((opener, delimiter) :: outer)) (pairing : Pairing (position + 1) outer rest pairs)
    (closes : word.closes?.isSome = true) (notOpener : word.opens? = none) :
    Pairing position ((opener, delimiter) :: outer) (word :: rest) ((opener, position) :: pairs) := by
  have before : opener < position := waiting.before _ List.mem_cons_self
  -- every other pair opens outside the closed group, before it or behind it
  have apart : ∀ pair ∈ pairs, pair.1 < opener ∨ position < pair.1 := by
    intro pair member
    rcases pairing.opener pair member with ⟨group, enclosing, same⟩ | ⟨low, _⟩
    · exact Or.inl (same ▸ (List.pairwise_cons.mp waiting.ordered).1 group enclosing)
    · exact Or.inr low
  have shifted : Pairing position outer (word :: rest) pairs := by
    refine pairing.step (fun group member => Or.inl member) (fun group member => member) ?_
    rw [notOpener]
    intro impossible
    cases impossible
  constructor
  · intro pair member
    rcases List.mem_cons.mp member with here | later
    · rw [here, Nat.sub_self]
      exact ⟨Nat.le_refl _, before, word, rfl, closes, notOpener⟩
    · exact shifted.closer pair later
  · intro pair member
    rcases List.mem_cons.mp member with here | later
    · rw [here]
      exact Or.inl ⟨_, List.mem_cons_self, rfl⟩
    · rcases shifted.opener pair later with ⟨group, enclosing, same⟩ | found
      · exact Or.inl ⟨group, List.mem_cons_of_mem _ enclosing, same⟩
      · exact Or.inr found
  · intro large largeMember small smallMember opens inside
    rcases List.mem_cons.mp largeMember with largeHere | largeLater
    · rcases List.mem_cons.mp smallMember with smallHere | smallLater
      · rw [largeHere, smallHere] at opens
        exact absurd opens (Nat.lt_irrefl _)
      · rw [largeHere] at opens inside
        dsimp only at opens inside
        have := apart small smallLater
        omega
    · rcases List.mem_cons.mp smallMember with smallHere | smallLater
      · rw [smallHere]
        exact (pairing.closer large largeLater).1
      · exact pairing.nested large largeLater small smallLater opens inside
  · intro group member
    rcases List.mem_cons.mp member with here | enclosing
    · rw [here]
      exact ⟨_, List.mem_cons_self, rfl⟩
    · obtain ⟨pair, found, same⟩ := shifted.pending group enclosing
      exact ⟨pair, List.mem_cons_of_mem _ found, same⟩
  · intro index other found opens
    obtain ⟨pair, member, same⟩ := shifted.complete index other found opens
    exact ⟨pair, List.mem_cons_of_mem _ member, same⟩

theorem Lexeme.closes?_of_opens? {word : Lexeme} {delimiter : Delimiter} (opens : word.opens? = some delimiter) :
    word.closes? = none := by
  unfold opens? at opens
  unfold closes?
  split at opens
  · cases opens
  · rename_i punctuation
    rw [if_neg punctuation]
    split at opens
    · rename_i text
      rw [beq_iff_eq.mp text]
      rfl
    · split at opens
      · rename_i text
        rw [beq_iff_eq.mp text]
        rfl
      · split at opens
        · rename_i text
          rw [beq_iff_eq.mp text]
          rfl
        · cases opens

theorem bracketPairs_pairing {position : Nat} {pending : List (Nat × Delimiter)} {words : List Lexeme}
    {pairs : List (Nat × Nat)} (waiting : Pending position pending)
    (paired : bracketPairs position pending words = .ok pairs) : Pairing position pending words pairs := by
  fun_induction bracketPairs position pending words generalizing pairs with
  | case1 =>
      cases paired
      constructor
      · intro pair member
        cases member
      · intro pair member
        cases member
      · intro pair member
        cases member
      · intro group member
        cases member
      · intro index word found
        cases found
  | case2 => cases paired
  | case3 position pending word rest delimiter opens ih =>
      refine (ih (waiting.push delimiter) paired).step ?_ (fun group => List.mem_cons_of_mem _) ?_
      · intro group member
        rcases List.mem_cons.mp member with here | before
        · rw [here, opens]
          exact Or.inr ⟨rfl, rfl⟩
        · exact Or.inl before
      · intro _
        exact ⟨_, List.mem_cons_self, rfl⟩
  | case4 position pending word rest _ noOpener ih =>
      refine (ih waiting.pass paired).step (fun group => Or.inl) (fun group => id) ?_
      rw [noOpener]
      intro impossible
      cases impossible
  | case5 => cases paired
  | case6 position word rest noOpener opener delimiter outer closes ih =>
      cases further : bracketPairs (position + 1) outer rest with
      | error fault =>
          rw [further] at paired
          cases paired
      | ok inner =>
          rw [further] at paired
          cases paired
          have closer : word.closes?.isSome = true := by
            rw [closes]
            rfl
          exact Pairing.close waiting (ih waiting.pop.pass further) closer noOpener
  | case7 => cases paired

theorem bracketPairs_distinct {position : Nat} {pending : List (Nat × Delimiter)} {words : List Lexeme}
    {pairs : List (Nat × Nat)} (waiting : Pending position pending)
    (paired : bracketPairs position pending words = .ok pairs) :
    ∀ pair ∈ pairs, ∀ other ∈ pairs, pair.1 = other.1 → pair = other := by
  fun_induction bracketPairs position pending words generalizing pairs with
  | case1 =>
      cases paired
      intro pair member
      cases member
  | case2 => cases paired
  | case3 position pending word rest delimiter opens ih => exact ih (waiting.push delimiter) paired
  | case4 position pending word rest _ noOpener ih => exact ih waiting.pass paired
  | case5 => cases paired
  | case6 position word rest noOpener opener delimiter outer closes ih =>
      obtain ⟨inner, further, rfl⟩ := map_eq_ok.mp paired
      have pairing := bracketPairs_pairing waiting.pop.pass further
      -- the other groups open outside the one that is closed here
      have apart : ∀ pair ∈ inner, pair.1 ≠ opener := by
        intro pair member same
        have before : opener < position := waiting.before _ List.mem_cons_self
        rcases pairing.opener pair member with ⟨group, enclosing, place⟩ | ⟨low, _⟩
        · have := (List.pairwise_cons.mp waiting.ordered).1 group enclosing
          dsimp only at this
          omega
        · omega
      intro pair member other known same
      rcases List.mem_cons.mp member with rfl | inside
      · rcases List.mem_cons.mp known with rfl | otherInside
        · rfl
        · exact absurd same.symm (apart other otherInside)
      · rcases List.mem_cons.mp known with rfl | otherInside
        · exact absurd same (apart pair inside)
        · exact ih waiting.pop.pass further pair inside other otherInside same
  | case7 => cases paired

/-- A group opens and closes with delimiters of one kind. -/
theorem bracketPairs_alike {position : Nat} {pending : List (Nat × Delimiter)} {words : List Lexeme}
    {pairs : List (Nat × Nat)} (paired : bracketPairs position pending words = .ok pairs) :
    ∀ pair ∈ pairs, position ≤ pair.2 ∧ ∃ delimiter,
      ((pair.1, delimiter) ∈ pending ∨
        position ≤ pair.1 ∧ words[pair.1 - position]?.bind Lexeme.opens? = some delimiter) ∧
      words[pair.2 - position]?.bind Lexeme.closes? = some delimiter := by
  -- what is known of the rest, whose places count from `position + 1`, told of the words from `position` on
  have shift {position : Nat} {pending former : List (Nat × Delimiter)} {word : Lexeme} {rest : List Lexeme}
      {pair : Nat × Nat} (opened : ∀ group ∈ pending, group ∈ former ∨ group.1 = position ∧ word.opens? = some group.2)
      (found : position + 1 ≤ pair.2 ∧ ∃ delimiter,
        ((pair.1, delimiter) ∈ pending ∨
          position + 1 ≤ pair.1 ∧ rest[pair.1 - (position + 1)]?.bind Lexeme.opens? = some delimiter) ∧
        rest[pair.2 - (position + 1)]?.bind Lexeme.closes? = some delimiter) :
      position ≤ pair.2 ∧ ∃ delimiter,
        ((pair.1, delimiter) ∈ former ∨
          position ≤ pair.1 ∧ (word :: rest)[pair.1 - position]?.bind Lexeme.opens? = some delimiter) ∧
        (word :: rest)[pair.2 - position]?.bind Lexeme.closes? = some delimiter := by
    obtain ⟨low, delimiter, opens, closes⟩ := found
    refine ⟨Nat.le_of_succ_le low, delimiter, ?_, ?_⟩
    · rcases opens with waiting | ⟨later, opens⟩
      · rcases opened _ waiting with before | ⟨here, opens⟩
        · exact Or.inl before
        · have place : pair.1 = position := here
          rw [place, Nat.sub_self]
          exact Or.inr ⟨Nat.le_refl _, opens⟩
      · rw [getElem?_cons_sub word rest later]
        exact Or.inr ⟨Nat.le_of_succ_le later, opens⟩
    · rw [getElem?_cons_sub word rest low]
      exact closes
  fun_induction bracketPairs position pending words generalizing pairs with
  | case1 =>
      cases paired
      intro pair member
      cases member
  | case2 => cases paired
  | case3 position pending word rest delimiter opens ih =>
      intro pair member
      refine shift ?_ (ih paired pair member)
      intro group waiting
      rcases List.mem_cons.mp waiting with rfl | before
      · exact Or.inr ⟨rfl, opens⟩
      · exact Or.inl before
  | case4 position pending word rest _ noOpener ih =>
      intro pair member
      exact shift (fun group => Or.inl) (ih paired pair member)
  | case5 => cases paired
  | case6 position word rest noOpener opener delimiter outer closes ih =>
      obtain ⟨inner, further, rfl⟩ := map_eq_ok.mp paired
      intro pair member
      rcases List.mem_cons.mp member with rfl | inside
      · rw [Nat.sub_self]
        exact ⟨Nat.le_refl _, delimiter, Or.inl List.mem_cons_self, closes⟩
      · exact shift (fun group waiting => Or.inl (List.mem_cons_of_mem _ waiting)) (ih further pair inside)
  | case7 => cases paired

theorem bracketPairs_answered {position : Nat} {pending : List (Nat × Delimiter)} {words : List Lexeme}
    {pairs : List (Nat × Nat)} (paired : bracketPairs position pending words = .ok pairs) {index : Nat} {word : Lexeme}
    (found : words[index]? = some word) (closes : word.closes?.isSome = true) :
    ∃ pair ∈ pairs, pair.2 = position + index := by
  fun_induction bracketPairs position pending words generalizing pairs index with
  | case1 => cases found
  | case2 => cases found
  | case3 position pending first rest delimiter opens ih =>
      cases index with
      | zero =>
          cases found
          rw [Lexeme.closes?_of_opens? opens] at closes
          cases closes
      | succ index =>
          obtain ⟨pair, member, same⟩ := ih paired found
          exact ⟨pair, member, by omega⟩
  | case4 position pending first rest noCloser _ ih =>
      cases index with
      | zero =>
          cases found
          rw [noCloser] at closes
          cases closes
      | succ index =>
          obtain ⟨pair, member, same⟩ := ih paired found
          exact ⟨pair, member, by omega⟩
  | case5 => cases paired
  | case6 position first rest _ opener delimiter outer _ ih =>
      obtain ⟨inner, further, rfl⟩ := map_eq_ok.mp paired
      cases index with
      | zero => exact ⟨_, List.mem_cons_self, rfl⟩
      | succ index =>
          obtain ⟨pair, member, same⟩ := ih further found
          exact ⟨pair, List.mem_cons_of_mem _ member, by omega⟩
  | case7 => cases paired

theorem Lexeme.eq_of_opens? {word : Lexeme} {delimiter : Delimiter} (opens : word.opens? = some delimiter) :
    word = ⟨.punctuation, String.singleton delimiter.opener⟩ := by
  obtain ⟨kind, text⟩ := word
  unfold opens? at opens
  split at opens
  · cases opens
  · rename_i punctuation
    rw [bne_iff_ne, Decidable.not_not] at punctuation
    dsimp only at punctuation opens
    split at opens
    · rename_i same
      cases opens
      rw [punctuation, beq_iff_eq.mp same]
      rfl
    · split at opens
      · rename_i same
        cases opens
        rw [punctuation, beq_iff_eq.mp same]
        rfl
      · split at opens
        · rename_i same
          cases opens
          rw [punctuation, beq_iff_eq.mp same]
          rfl
        · cases opens

theorem Lexeme.eq_of_closes? {word : Lexeme} {delimiter : Delimiter} (closes : word.closes? = some delimiter) :
    word = ⟨.punctuation, String.singleton delimiter.closer⟩ := by
  obtain ⟨kind, text⟩ := word
  unfold closes? at closes
  split at closes
  · cases closes
  · rename_i punctuation
    rw [bne_iff_ne, Decidable.not_not] at punctuation
    dsimp only at punctuation closes
    split at closes
    · rename_i same
      cases closes
      rw [punctuation, beq_iff_eq.mp same]
      rfl
    · split at closes
      · rename_i same
        cases closes
        rw [punctuation, beq_iff_eq.mp same]
        rfl
      · split at closes
        · rename_i same
          cases closes
          rw [punctuation, beq_iff_eq.mp same]
          rfl
        · cases closes

private theorem Pairing.apart {words : List Lexeme} {pairs : List (Nat × Nat)} (pairing : Pairing 0 [] words pairs)
    {opened closed : Nat × Nat} (openedMember : opened ∈ pairs) (closedMember : closed ∈ pairs) :
    opened.1 ≠ closed.2 := by
  intro same
  obtain ⟨_, _, word, here, _, noOpener⟩ := pairing.closer closed closedMember
  rcases pairing.opener opened openedMember with ⟨group, impossible, _⟩ | ⟨_, other, there, opens⟩
  · cases impossible
  · rw [same, here] at there
    cases there
    rw [noOpener] at opens
    cases opens

/-- No two groups close at one word: the one that opens first would close last. -/
private theorem Pairing.eq_of_closer {words : List Lexeme} {pairs : List (Nat × Nat)}
    (pairing : Pairing 0 [] words pairs) {left right : Nat × Nat} (leftMember : left ∈ pairs)
    (rightMember : right ∈ pairs) (same : left.2 = right.2) : left.1 = right.1 := by
  have leftOrder := (pairing.closer left leftMember).2.1
  have rightOrder := (pairing.closer right rightMember).2.1
  rcases Nat.lt_trichotomy left.1 right.1 with before | equal | after
  · have := pairing.nested left leftMember right rightMember before (by omega)
    omega
  · exact equal
  · have := pairing.nested right rightMember left leftMember after (by omega)
    omega

/-! ### The table of partners -/

namespace Code

/-- Every entry of the table comes from a pair. -/
private theorem foldl_partners {pairs : List (Nat × Nat)} {table : Array (Option Nat)} {place partner : Nat}
    (found : (pairs.foldl (fun table (opener, closer) =>
      (table.setIfInBounds opener (some closer)).setIfInBounds closer (some opener)) table)[place]? =
        some (some partner)) :
    table[place]? = some (some partner) ∨ (place, partner) ∈ pairs ∨ (partner, place) ∈ pairs := by
  induction pairs generalizing table with
  | nil => exact Or.inl found
  | cons pair rest ih =>
      obtain ⟨opener, closer⟩ := pair
      rcases ih found with here | later
      · dsimp only at here
        rw [Array.getElem?_setIfInBounds] at here
        split at here
        · rename_i same
          split at here
          · cases here
            right
            right
            rw [same]
            exact List.mem_cons_self
          · cases here
        · rw [Array.getElem?_setIfInBounds] at here
          split at here
          · rename_i same
            split at here
            · cases here
              right
              left
              rw [same]
              exact List.mem_cons_self
            · cases here
          · exact Or.inl here
      · right
        exact later.imp (List.mem_cons_of_mem _) (List.mem_cons_of_mem _)

/-- Both ends of a pair have an entry. -/
private theorem foldl_partners_isSome {pairs : List (Nat × Nat)} {table : Array (Option Nat)} {place : Nat}
    (inside : place < table.size)
    (paired : (∃ partner, table[place]? = some (some partner)) ∨ ∃ pair ∈ pairs, pair.1 = place ∨ pair.2 = place) :
    ∃ partner, (pairs.foldl (fun table (opener, closer) =>
      (table.setIfInBounds opener (some closer)).setIfInBounds closer (some opener)) table)[place]? =
        some (some partner) := by
  induction pairs generalizing table with
  | nil =>
      rcases paired with entered | ⟨pair, member, _⟩
      · exact entered
      · cases member
  | cons pair rest ih =>
      obtain ⟨opener, closer⟩ := pair
      rw [List.foldl_cons]
      apply ih
      · dsimp only
        rw [Array.size_setIfInBounds, Array.size_setIfInBounds]
        exact inside
      · dsimp only
        rw [Array.getElem?_setIfInBounds, Array.getElem?_setIfInBounds, Array.size_setIfInBounds]
        by_cases atCloser : closer = place
        · left
          rw [if_pos atCloser, if_pos (by omega)]
          exact ⟨opener, rfl⟩
        · rw [if_neg atCloser]
          by_cases atOpener : opener = place
          · left
            rw [if_pos atOpener, if_pos (by omega)]
            exact ⟨closer, rfl⟩
          · rw [if_neg atOpener]
            rcases paired with entered | ⟨other, member, same⟩
            · exact Or.inl entered
            · rcases List.mem_cons.mp member with here | later
              · rw [here] at same
                exact absurd same (not_or.mpr ⟨atOpener, atCloser⟩)
              · exact Or.inr ⟨other, later, same⟩

structure Balanced (code : Code) : Prop where
  opens : ∀ {opener closer : Nat} {later : opener < closer}, code.close? opener = some ⟨closer, later⟩ →
    code.isOpener opener = true
  closes : ∀ {opener closer : Nat} {later : opener < closer}, code.close? opener = some ⟨closer, later⟩ →
    code.isCloser closer = true
  closed : ∀ {opener : Nat}, code.isOpener opener = true →
    ∃ closer, ∃ later : opener < closer, code.close? opener = some ⟨closer, later⟩
  nested : ∀ {outer inner outerCloser innerCloser : Nat} {outerLater : outer < outerCloser}
    {innerLater : inner < innerCloser}, code.close? outer = some ⟨outerCloser, outerLater⟩ →
    code.close? inner = some ⟨innerCloser, innerLater⟩ → outer < inner → inner < outerCloser →
    innerCloser < outerCloser

theorem close?_eq_some_iff (code : Code) {opener closer : Nat} {later : opener < closer} :
    code.close? opener = some ⟨closer, later⟩ ↔ code.partner? opener = some closer := by
  unfold close?
  cases code.partner? opener with
  | none => simp
  | some partner =>
      dsimp only
      split
      · simp
      · rename_i earlier
        constructor
        · intro impossible
          cases impossible
        · intro same
          cases same
          exact absurd later earlier

/-- The table holds the pairs, in both directions, and nothing else. -/
theorem partner?_eq_some_iff {layout : Layout} {pairs : List (Nat × Nat)}
    (paired : bracketPairs 0 [] layout.words = .ok pairs) {place partner : Nat} :
    (⟨layout, partnerTable layout.size pairs⟩ : Code).partner? place = some partner ↔
      (place, partner) ∈ pairs ∨ (partner, place) ∈ pairs := by
  have pairing := bracketPairs_pairing Pending.start paired
  have distinct := bracketPairs_distinct Pending.start paired
  have listed {place partner : Nat} (found : (partnerTable layout.size pairs)[place]? = some (some partner)) :
      (place, partner) ∈ pairs ∨ (partner, place) ∈ pairs := by
    rcases foldl_partners found with blank | known
    · rw [Array.getElem?_replicate] at blank
      split at blank
      · cases blank
      · cases blank
    · exact known
  constructor
  · intro found
    exact listed (Option.join_eq_some_iff.mp found)
  · intro known
    obtain ⟨pair, member, ends⟩ : ∃ pair ∈ pairs, pair.1 = place ∨ pair.2 = place :=
      known.elim (fun forward => ⟨_, forward, Or.inl rfl⟩) fun backward => ⟨_, backward, Or.inr rfl⟩
    obtain ⟨_, ordered, _, found, _⟩ := pairing.closer pair member
    have inside : place < (Array.replicate layout.size (none : Option Nat)).size := by
      have within := (List.getElem?_eq_some_iff.mp found).1
      rw [Layout.length_words] at within
      rw [Array.size_replicate]
      omega
    obtain ⟨other, entered⟩ := foldl_partners_isSome inside (Or.inr ⟨pair, member, ends⟩)
    have same : other = partner := by
      rcases listed entered with forward | backward
      · rcases known with knownForward | knownBackward
        · exact congrArg Prod.snd (distinct _ forward _ knownForward rfl)
        · exact absurd rfl (pairing.apart forward knownBackward)
      · rcases known with knownForward | knownBackward
        · exact absurd rfl (pairing.apart knownForward backward)
        · exact pairing.eq_of_closer backward knownBackward rfl
    unfold partner?
    rw [← same]
    exact congrArg Option.join entered

private theorem mem_of_close? {layout : Layout} {pairs : List (Nat × Nat)}
    (paired : bracketPairs 0 [] layout.words = .ok pairs) {opener closer : Nat} {later : opener < closer}
    (found : (⟨layout, partnerTable layout.size pairs⟩ : Code).close? opener = some ⟨closer, later⟩) :
    (opener, closer) ∈ pairs := by
  rcases (partner?_eq_some_iff paired).mp ((close?_eq_some_iff _).mp found) with forward | backward
  · exact forward
  · exact absurd ((bracketPairs_pairing Pending.start paired).closer _ backward).2.1 (Nat.lt_asymm later)

theorem close?_of_mem {layout : Layout} {pairs : List (Nat × Nat)}
    (paired : bracketPairs 0 [] layout.words = .ok pairs) {pair : Nat × Nat} (member : pair ∈ pairs) :
    ∃ later : pair.1 < pair.2,
      (⟨layout, partnerTable layout.size pairs⟩ : Code).close? pair.1 = some ⟨pair.2, later⟩ :=
  ⟨((bracketPairs_pairing Pending.start paired).closer pair member).2.1,
    (close?_eq_some_iff _).mpr ((partner?_eq_some_iff paired).mpr (Or.inl member))⟩

theorem ofLayout_balanced {layout : Layout} {code : Code} (built : ofLayout layout = .ok code) : code.Balanced := by
  obtain ⟨pairs, paired, rfl⟩ := map_eq_ok.mp built
  have pairing := bracketPairs_pairing Pending.start paired
  constructor
  · intro opener closer later found
    rcases pairing.opener _ (mem_of_close? paired found) with ⟨group, impossible, _⟩ | ⟨_, word, here, opens⟩
    · cases impossible
    · unfold isOpener word?
      rw [← Layout.getElem?_words]
      exact (Option.any_eq_true _ _).mpr ⟨word, here, opens⟩
  · intro opener closer later found
    obtain ⟨_, _, word, here, closes, _⟩ := pairing.closer _ (mem_of_close? paired found)
    unfold isCloser word?
    rw [← Layout.getElem?_words]
    exact (Option.any_eq_true _ _).mpr ⟨word, here, closes⟩
  · intro opener opens
    unfold isOpener word? at opens
    rw [← Layout.getElem?_words] at opens
    obtain ⟨word, here, isOpener⟩ := (Option.any_eq_true _ _).mp opens
    obtain ⟨pair, member, same⟩ := pairing.complete opener word here isOpener
    rw [Nat.zero_add] at same
    subst same
    exact ⟨pair.2, close?_of_mem paired member⟩
  · intro outer inner outerCloser innerCloser outerLater innerLater outerFound innerFound opens inside
    exact pairing.nested _ (mem_of_close? paired outerFound) _ (mem_of_close? paired innerFound) opens inside

structure Matched (code : Code) : Prop extends Balanced code where
  alike : ∀ {opener closer : Nat} {later : opener < closer}, code.close? opener = some ⟨closer, later⟩ →
    ∃ delimiter, (code.word? opener).bind Lexeme.opens? = some delimiter ∧
      (code.word? closer).bind Lexeme.closes? = some delimiter
  answered : ∀ {closer : Nat}, code.isCloser closer = true →
    ∃ opener, ∃ later : opener < closer, code.close? opener = some ⟨closer, later⟩

/-- A group opens and closes with the marks of one delimiter. -/
theorem Matched.marks {code : Code} (matched : code.Matched) {opener closer : Nat} {later : opener < closer}
    (found : code.close? opener = some ⟨closer, later⟩) :
    ∃ delimiter : Delimiter, code.isPunctuation opener (String.singleton delimiter.opener) = true ∧
      code.isPunctuation closer (String.singleton delimiter.closer) = true := by
  obtain ⟨delimiter, opens, closes⟩ := matched.alike found
  obtain ⟨first, firstFound, isOpener⟩ := Option.bind_eq_some_iff.mp opens
  obtain ⟨last, lastFound, isCloser⟩ := Option.bind_eq_some_iff.mp closes
  refine ⟨delimiter, ?_, ?_⟩
  · unfold isPunctuation
    rw [firstFound, Lexeme.eq_of_opens? isOpener, Option.any_some]
    exact Bool.and_eq_true_iff.mpr ⟨rfl, beq_self_eq_true _⟩
  · unfold isPunctuation
    rw [lastFound, Lexeme.eq_of_closes? isCloser, Option.any_some]
    exact Bool.and_eq_true_iff.mpr ⟨rfl, beq_self_eq_true _⟩

theorem ofLayout_matched {layout : Layout} {code : Code} (built : ofLayout layout = .ok code) : code.Matched := by
  refine ⟨ofLayout_balanced built, ?_, ?_⟩
  all_goals
    obtain ⟨pairs, paired, rfl⟩ := map_eq_ok.mp built
  · intro opener closer later found
    have member := mem_of_close? paired found
    obtain ⟨_, delimiter, opens, closes⟩ := bracketPairs_alike paired _ member
    refine ⟨delimiter, ?_, ?_⟩
    · rcases opens with impossible | ⟨_, opens⟩
      · cases impossible
      · unfold word?
        rw [← Layout.getElem?_words]
        exact opens
    · unfold word?
      rw [← Layout.getElem?_words]
      exact closes
  · intro closer closes
    unfold isCloser word? at closes
    rw [← Layout.getElem?_words] at closes
    obtain ⟨word, found, ends⟩ := (Option.any_eq_true _ _).mp closes
    obtain ⟨pair, member, same⟩ := bracketPairs_answered paired found ends
    rw [Nat.zero_add] at same
    subst same
    exact ⟨pair.1, close?_of_mem paired member⟩

theorem ofTokens_eq_ok {tokens : List Token} {code : Code} :
    ofTokens tokens = .ok code ↔ ofLayout (Layout.ofTokens tokens) = .ok code :=
  mapError_eq_ok

theorem ofTokens_balanced {tokens : List Token} {code : Code} (built : ofTokens tokens = .ok code) :
    code.Balanced :=
  ofLayout_balanced (ofTokens_eq_ok.mp built)

theorem ofTokens_matched {tokens : List Token} {code : Code} (built : ofTokens tokens = .ok code) :
    code.Matched :=
  ofLayout_matched (ofTokens_eq_ok.mp built)

end Code

end ScopedRename
