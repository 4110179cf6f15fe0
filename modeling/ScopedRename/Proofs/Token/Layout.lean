import Mathlib.Order.Monotone.Basic
import Mathlib.Logic.Function.Basic
import ScopedRename.Layout

/-!
Layouts. A position and its token determine each other, positions past the words included, so what is kept by token can
be read by position and be carried over to another layout.
-/

namespace ScopedRename

namespace Layout

variable {layout : Layout} {position : Nat}

theorem getElem?_indices (inside : position < layout.size) :
    layout.indices[position]? = some (layout.tokenIndex position) := by
  have found := Array.getElem?_eq_getElem (show position < layout.indices.size from inside)
  rw [tokenIndex, Array.getD_eq_getD_getElem?, found, Option.getD_some]

theorem tokenIndex_of_le (past : layout.size ≤ position) :
    layout.tokenIndex position = layout.tokens.size + position := by
  rw [tokenIndex, Array.getD_eq_getD_getElem?, Array.getElem?_eq_none past, Option.getD_none]

theorem tokenIndex_lt (inside : position < layout.size) : layout.tokenIndex position < layout.tokens.size :=
  layout.inside _ (Array.mem_toList_iff.mpr (Array.mem_of_getElem? (getElem?_indices inside)))

theorem tokenIndex_strictMono : StrictMono layout.tokenIndex := by
  intro earlier later before
  by_cases inside : later < layout.size
  · have first := getElem?_indices (Nat.lt_trans before inside)
    have second := getElem?_indices inside
    rw [← Array.getElem?_toList] at first second
    obtain ⟨_, first⟩ := List.getElem?_eq_some_iff.mp first
    obtain ⟨_, second⟩ := List.getElem?_eq_some_iff.mp second
    rw [← first, ← second]
    exact List.pairwise_iff_getElem.mp layout.ascending earlier later _ _ before
  · rw [tokenIndex_of_le (Nat.le_of_not_lt inside)]
    by_cases placed : earlier < layout.size
    · exact Nat.lt_add_right _ (tokenIndex_lt placed)
    · rw [tokenIndex_of_le (Nat.le_of_not_lt placed)]
      exact Nat.add_lt_add_left before _

@[simp]
theorem tokenIndex_inj {other : Nat} : layout.tokenIndex position = layout.tokenIndex other ↔ position = other :=
  tokenIndex_strictMono.injective.eq_iff

theorem exists_token? (inside : position < layout.size) : ∃ token, layout.token? position = some token := by
  rw [token?, getElem?_indices inside, Option.bind_some]
  exact ⟨_, Array.getElem?_eq_getElem (tokenIndex_lt inside)⟩

theorem token?_of_le (past : layout.size ≤ position) : layout.token? position = none := by
  rw [token?, Array.getElem?_eq_none past, Option.bind_none]

theorem word?_of_le (past : layout.size ≤ position) : layout.word? position = none := by
  rw [word?, token?_of_le past, Option.map_none]

theorem isSome_word? : (layout.word? position).isSome = true ↔ position < layout.size := by
  constructor
  · intro read
    by_contra past
    rw [word?_of_le (Nat.le_of_not_lt past)] at read
    cases read
  · intro inside
    obtain ⟨token, found⟩ := exists_token? inside
    rw [word?, found]
    rfl

theorem span_of_token? {token : Token} (found : layout.token? position = some token) :
    layout.span position = token.span := by
  rw [span, found, Option.elim_some]

theorem span_of_le (past : layout.size ≤ position) :
    layout.span position = ⟨layout.stop + position, layout.stop + position⟩ := by
  rw [span, token?_of_le past, Option.elim_none]

theorem getElem?_words (position : Nat) : layout.words[position]? = layout.word? position := by
  have read : ∀ indices : List Nat, (∀ index ∈ indices, index < layout.tokens.size) →
      (indices.filterMap fun index => (layout.tokens[index]?).map (·.toLexeme))[position]? =
        ((indices[position]?).bind (layout.tokens[·]?)).map (·.toLexeme) := by
    intro indices within
    induction indices generalizing position with
    | nil => rfl
    | cons index rest ih =>
        have found := Array.getElem?_eq_getElem (within index List.mem_cons_self)
        have further := fun position => ih position fun other member => within other (List.mem_cons_of_mem _ member)
        rw [List.filterMap_cons_some (by rw [found]; rfl)]
        cases position with
        | zero => rw [List.getElem?_cons_zero, List.getElem?_cons_zero, Option.bind_some, found, Option.map_some]
        | succ position => rw [List.getElem?_cons_succ, List.getElem?_cons_succ, further]
  rw [words, read _ layout.inside, Array.getElem?_toList]
  rfl

theorem length_words : layout.words.length = layout.size := by
  apply Nat.le_antisymm
  · by_contra longer
    have found := List.getElem?_eq_getElem (Nat.lt_of_not_le longer)
    rw [getElem?_words, word?_of_le (Nat.le_refl _)] at found
    cases found
  · by_contra shorter
    have read := isSome_word?.mpr (Nat.lt_of_not_le shorter)
    rw [← getElem?_words, List.getElem?_eq_none (Nat.le_refl _)] at read
    cases read

/-- Words start one after the other. -/
class Ordered (layout : Layout) : Prop where
  strictMono : StrictMono fun position => (layout.span position).start

theorem start_le_start [ordered : layout.Ordered] {other : Nat} :
    (layout.span position).start ≤ (layout.span other).start ↔ position ≤ other :=
  ordered.strictMono.le_iff_le

theorem start_lt_start [ordered : layout.Ordered] {other : Nat} :
    (layout.span position).start < (layout.span other).start ↔ position < other :=
  ordered.strictMono.lt_iff_lt

section Bare

/-- Words with nothing around them, each in the place of its number. -/
def bare (words : List Lexeme) : Layout where
  tokens := (words.mapIdx fun position word => ⟨word, ⟨position, position + 1⟩⟩).toArray
  indices := (List.range words.length).toArray
  inside index listed := by
    rw [List.size_toArray, List.length_mapIdx]
    exact List.mem_range.mp listed
  ascending := List.pairwise_lt_range

variable (words : List Lexeme)

@[simp]
theorem size_bare : (bare words).size = words.length :=
  List.length_range

theorem token?_bare (position : Nat) :
    (bare words).token? position = (words[position]?).map fun word => ⟨word, ⟨position, position + 1⟩⟩ := by
  unfold token? bare
  rw [List.getElem?_toArray]
  by_cases inside : position < words.length
  · rw [List.getElem?_range inside, Option.bind_some, List.getElem?_toArray, List.getElem?_mapIdx]
  · have past := Nat.le_of_not_lt inside
    rw [List.getElem?_eq_none (by rwa [List.length_range]), List.getElem?_eq_none past]
    rfl

@[simp]
theorem word?_bare (position : Nat) : (bare words).word? position = words[position]? := by
  rw [word?, token?_bare, Option.map_map]
  exact Option.map_id'

@[simp]
theorem words_bare : (bare words).words = words :=
  List.ext_getElem? fun position => (getElem?_words position).trans (word?_bare words position)

instance bare_ordered : (bare words).Ordered where
  strictMono := by
    have start_of_lt {position : Nat} (inside : position < words.length) :
        ((bare words).span position).start = position := by
      rw [span, token?_bare, List.getElem?_eq_getElem inside]
      rfl
    have below_stop {position : Nat} (inside : position < words.length) : position < (bare words).stop := by
      have last := List.getLast?_eq_getElem? (l := words.mapIdx fun position word =>
        (⟨word, ⟨position, position + 1⟩⟩ : Token))
      rw [List.length_mapIdx, List.getElem?_mapIdx, List.getElem?_eq_getElem (by omega)] at last
      unfold stop bare
      rw [List.back?_toArray, last]
      show position < words.length - 1 + 1
      omega
    have start_of_le {position : Nat} (past : ¬ position < words.length) :
        ((bare words).span position).start = (bare words).stop + position :=
      congrArg Span.start (span_of_le (by rw [size_bare]; omega))
    intro earlier later before
    dsimp only
    by_cases inside : later < words.length
    · rw [start_of_lt inside, start_of_lt (Nat.lt_trans before inside)]
      exact before
    · rw [start_of_le inside]
      by_cases placed : earlier < words.length
      · rw [start_of_lt placed]
        exact Nat.lt_add_right _ (below_stop placed)
      · rw [start_of_le placed]
        exact Nat.add_lt_add_left before _

end Bare

section Relay

/-- The position of the word that is the token with an index. -/
noncomputable def position? (layout : Layout) : Nat → Option Nat := Function.partialInv layout.tokenIndex

theorem position?_eq_some {index : Nat} : layout.position? index = some position ↔ layout.tokenIndex position = index :=
  tokenIndex_strictMono.injective.isPartialInv position index

@[simp]
theorem position?_tokenIndex (position : Nat) : layout.position? (layout.tokenIndex position) = some position :=
  position?_eq_some.mpr rfl

variable {Value : Type}

/-- What is kept by token, for the tokens of the same words in another layout. -/
noncomputable def relay (layout target : Layout) (table : List (Nat × Value)) : List (Nat × Value) :=
  table.filterMap fun entry => (layout.position? entry.1).map fun position => (target.tokenIndex position, entry.2)

noncomputable def relayed (layout target : Layout) (indices : List Nat) : List Nat :=
  indices.filterMap fun index => (layout.position? index).map target.tokenIndex

variable (target : Layout)

@[simp]
theorem relay_nil : layout.relay target ([] : List (Nat × Value)) = [] := rfl

@[simp]
theorem relayed_nil : layout.relayed target [] = [] := rfl

@[simp]
theorem relay_cons (position : Nat) (value : Value) (table : List (Nat × Value)) :
    layout.relay target ((layout.tokenIndex position, value) :: table) =
      (target.tokenIndex position, value) :: layout.relay target table := by
  unfold relay
  rw [List.filterMap_cons_some (by rw [position?_tokenIndex, Option.map_some])]

theorem relay_map {item : Type} (place : item → Nat) (value : item → Value) (items : List item) :
    layout.relay target (items.map fun entry => (layout.tokenIndex (place entry), value entry)) =
      items.map fun entry => (target.tokenIndex (place entry), value entry) := by
  induction items with
  | nil => rfl
  | cons entry rest ih => rw [List.map_cons, relay_cons, ih, List.map_cons]

theorem exists_of_mem_relay {table : List (Nat × Value)} {entry : Nat × Value}
    (member : entry ∈ layout.relay target table) :
    ∃ position, (layout.tokenIndex position, entry.2) ∈ table ∧ target.tokenIndex position = entry.1 := by
  obtain ⟨⟨index, value⟩, listed, read⟩ := List.mem_filterMap.mp member
  obtain ⟨position, placed, rfl⟩ := Option.map_eq_some_iff.mp read
  exact ⟨position, position?_eq_some.mp placed ▸ listed, rfl⟩

theorem relayed_append (positions indices : List Nat) :
    layout.relayed target (positions.map layout.tokenIndex ++ indices) =
      positions.map target.tokenIndex ++ layout.relayed target indices := by
  unfold relayed
  rw [List.filterMap_append, List.filterMap_map]
  congr 1
  rw [← List.filterMap_eq_map]
  exact congrArg (List.filterMap · positions) (funext fun position => by simp)

theorem lookup_relay (table : List (Nat × Value)) (position : Nat) :
    (layout.relay target table).lookup (target.tokenIndex position) = table.lookup (layout.tokenIndex position) := by
  unfold relay
  induction table with
  | nil => rfl
  | cons entry rest ih =>
      obtain ⟨index, value⟩ := entry
      cases placed : layout.position? index with
      | none =>
          have apart : layout.tokenIndex position ≠ index := by
            rintro rfl
            rw [position?_tokenIndex] at placed
            cases placed
          rw [List.filterMap_cons_none (by rw [placed, Option.map_none]), ih, List.lookup_cons, beq_false_of_ne apart]
      | some place =>
          cases position?_eq_some.mp placed
          rw [List.filterMap_cons_some (by rw [placed, Option.map_some]), List.lookup_cons, List.lookup_cons, ih]
          congr 1
          rw [beq_eq_beq, tokenIndex_inj, tokenIndex_inj]

theorem contains_relayed (indices : List Nat) (position : Nat) :
    (layout.relayed target indices).contains (target.tokenIndex position) =
      indices.contains (layout.tokenIndex position) := by
  unfold relayed
  rw [Bool.eq_iff_iff, List.contains_iff_mem, List.contains_iff_mem, List.mem_filterMap]
  constructor
  · rintro ⟨index, listed, read⟩
    obtain ⟨place, placed, same⟩ := Option.map_eq_some_iff.mp read
    cases tokenIndex_inj.mp same
    cases position?_eq_some.mp placed
    exact listed
  · intro listed
    exact ⟨_, listed, by rw [position?_tokenIndex]; rfl⟩

theorem relayed_filter (indices : List Nat) (position : Nat) :
    layout.relayed target (indices.filter (· != layout.tokenIndex position)) =
      (layout.relayed target indices).filter (· != target.tokenIndex position) := by
  unfold relayed
  rw [List.filterMap_filter, List.filter_filterMap]
  congr 1
  funext index
  cases placed : layout.position? index with
  | none => simp
  | some place =>
      cases position?_eq_some.mp placed
      by_cases same : place = position
      · simp [same, Option.filter]
      · simp [same, Option.filter]

end Relay

end Layout

end ScopedRename
