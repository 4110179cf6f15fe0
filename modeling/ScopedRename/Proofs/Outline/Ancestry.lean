import ScopedRename.Proofs.Binding.Candidates
import ScopedRename.Proofs.Outline.Settled

/-!
The scopes around a word. A walk opens each scope inside the current one, so the scopes around the current scope are the
walk's own frames, and they stay around it when more scopes are opened. A word gets its home while the walk is in the
scopes over it, but the type parameters of a method are read first and taken into its scope later. Main statement: a
scope is around each of its words unless a method outside takes the word for one of its type parameters.
-/

namespace ScopedRename

namespace Outline

variable {before after : Outline}

theorem home_eq {outline : Outline} {word : Nat} {scope : ScopeId}
    (found : outline.homeAt? word = some scope) : outline.home word = scope := by
  unfold home
  rw [found, Option.getD_some]

theorem Grows.known (grows : Grows before after) {scope : ScopeId} (known : scope < before.scopes.size) :
    scope < after.scopes.size :=
  (Array.getElem?_eq_some_iff.mp (grows.scopes scope _ (Array.getElem?_eq_getElem known))).1

theorem Grows.ancestors (grows : Grows before after) {scope : ScopeId} (known : scope < before.scopes.size) :
    after.ancestors scope = before.ancestors scope := by
  induction scope using Nat.strongRecOn with
  | ind scope smaller =>
      have same : after.parent? scope = before.parent? scope := by
        have found : before.scope? scope = some before.scopes[scope] := Array.getElem?_eq_getElem known
        unfold Outline.parent?
        rw [found, grows.scopes scope _ found]
      rw [Outline.ancestors, Outline.ancestors, same]
      cases before.parent? scope with
      | none => rfl
      | some parent =>
          dsimp only
          split
          · rename_i below
            rw [smaller parent below (Nat.lt_trans below known)]
          · rfl

end Outline

namespace Walk

variable {code : Code} {walk after : Walk} {position next word : Nat}

/-- The scopes around each scope of a frame are those of the frames around it, and the file. -/
structure Chained (walk : Walk) : Prop where
  file : walk.ancestors 0 = [0]
  frames : ∀ scope outer, (scope :: outer) <:+ walk.places.map Prod.fst →
    walk.ancestors scope = scope :: outer ++ [0]

theorem arrive_ancestors (walk : Walk) (position : Nat) : (walk.arrive position).ancestors = walk.ancestors :=
  Outline.ancestors_of_parent? rfl

theorem Effect.ancestors_opened (effect : Effect code walk position (after, next)) (sound : Sound code walk)
    (grows : Outline.Grows walk.toOutline after.toOutline) (room : walk.scopes.size < after.scopes.size) :
    after.ancestors walk.scopes.size = walk.scopes.size :: walk.ancestors walk.frame.scope := by
  rcases effect.scopes with same | ⟨kind, title, extent, supertypes, _, pushed⟩
  · rw [same] at room
    exact absurd room (Nat.lt_irrefl _)
  · have parent : after.parent? walk.scopes.size = some walk.frame.scope := by
      unfold Outline.parent?
      rw [Outline.scope?_push pushed, if_pos rfl, Option.bind_some]
    rw [Outline.ancestors, parent]
    dsimp only
    rw [if_pos sound.frame, grows.ancestors sound.frame]

namespace Chained

theorem start (layout : Layout) : Chained (Walk.start layout) where
  file := by
    rw [Outline.ancestors]
    rfl
  frames scope outer impossible := nomatch List.suffix_nil.mp impossible

theorem current (chained : Chained walk) : walk.ancestors walk.frame.scope = walk.places.map Prod.fst ++ [0] := by
  rcases frame_scope_cases walk with ⟨none, file⟩ | ⟨last, outer, places⟩
  · rw [none, file, chained.file]
    rfl
  · rw [places, List.map_cons]
    refine chained.frames walk.frame.scope (outer.map Prod.fst) ?_
    rw [places]
    exact List.suffix_refl _

theorem arrive (chained : Chained walk) (position : Nat) : Chained (walk.arrive position) where
  file := by
    rw [arrive_ancestors]
    exact chained.file
  frames scope outer among := by
    rw [arrive_ancestors]
    refine chained.frames scope outer (among.trans ?_)
    rw [places_arrive]
    exact (List.dropWhile_suffix _).map _

/-- Every scope around a word that a step gives to the current scope, or to the one it opens, is among those around the
walk. -/
theorem mem_ancestors (chained : Chained walk) (sound : Sound code walk)
    (grows : Outline.Grows walk.toOutline after.toOutline) (effect : Effect code walk position (after, next))
    {home scope : ScopeId}
    (place : home = walk.frame.scope ∨ home = walk.scopes.size ∧ walk.scopes.size < after.scopes.size)
    (known : scope < walk.scopes.size) :
    scope ∈ after.ancestors home ↔ scope ∈ walk.places.map Prod.fst ++ [0] := by
  rcases place with rfl | ⟨rfl, room⟩
  · rw [grows.ancestors sound.frame, chained.current]
  · rw [effect.ancestors_opened sound grows room, chained.current, List.mem_cons]
    exact or_iff_right (Nat.ne_of_lt known)

theorem step (chained : Chained walk) (sound : Sound code walk) (inside : position < code.size) :
    Chained (walk.step code position).1 := by
  have grows : Outline.Grows walk.toOutline (walk.step code position).1.toOutline := step_grows
  have effect := step_effect walk inside
  generalize walk.step code position = stepped at grows effect ⊢
  obtain ⟨after, next⟩ := stepped
  dsimp only at grows ⊢
  refine ⟨by rw [grows.ancestors sound.file, chained.file], ?_⟩
  intro scope outer among
  -- the frames the step finds are older than the scope it may open
  have older (inner : (scope :: outer) <:+ walk.places.map Prod.fst) :
      after.ancestors scope = scope :: outer ++ [0] := by
    obtain ⟨place, member, rfl⟩ := List.mem_map.mp (inner.subset List.mem_cons_self)
    obtain ⟨frame, listed, rfl⟩ := List.mem_map.mp member
    rw [grows.ancestors (sound.frames frame listed), chained.frames _ outer inner]
  cases effect with
  | stays _ fills =>
      rw [fills.places] at among
      exact older among
  | opens opens opening =>
      have opened := (Effect.opens opens opening).ancestors_opened sound grows (Effect.opened opening)
      rw [opening.places, List.map_cons] at among
      rcases List.suffix_cons_iff.mp among with whole | inner
      · obtain ⟨rfl, rfl⟩ := List.cons.inj whole
        rw [opened, chained.current]
        rfl
      · exact older inner

end Chained

theorem Visits.chained {state : Walk} (visits : Visits code (Walk.start code.layout) 0 state position) :
    Chained state := by
  obtain ⟨walk, rfl, _, chained⟩ := visits.keeps
    (fun walk position inside (kept : Sound code walk ∧ Chained walk) =>
      ⟨(kept.1.arrive position).step position, (kept.2.arrive position).step (kept.1.arrive position) inside⟩)
    ⟨Sound.start code, Chained.start code.layout⟩
  exact chained.arrive position

/-! ### The homes of words -/

/-- A run takes the word into the scope of a method outside the scope, for the list of its type parameters. -/
def TakenFrom (code : Code) (origin : Walk) (first : Nat) (scope : ScopeId) (word : Nat) : Prop :=
  ∃ state position start middle next extent, Visits code origin first state position ∧
    Opens code state position start middle next extent ∧ start ≤ word ∧ word < position ∧
    scope ∉ state.places.map Prod.fst

theorem mem_places_arrive_of_le {place : ScopeId × Nat} (member : place ∈ walk.places) (lasts : position ≤ place.2) :
    place ∈ (walk.arrive position).places := by
  rw [places_arrive]
  rw [← List.takeWhile_append_dropWhile (p := fun place : ScopeId × Nat => decide (place.2 < position))
    (l := walk.places)] at member
  rcases List.mem_append.mp member with left | kept
  · have ended := List.mem_takeWhile_imp left
    rw [decide_eq_true_iff] at ended
    omega
  · exact kept

theorem home_of_same {before after : Outline} (same : after.homeAt? word = before.homeAt? word) :
    after.home word = before.home word := by
  unfold Outline.home
  rw [same]

/-- A word read before stays at home, unless it is listed in front of a scope that opens. -/
theorem Effect.home_of_lt (effect : Effect code walk position (after, next)) (sound : Sound code walk)
    (inside : word < code.size) (read : word < position) :
    after.home word = walk.home word ∨
      (∃ start middle extent, Opens code walk position start middle next extent ∧ start ≤ word) ∧
        after.home word = walk.scopes.size ∧ walk.scopes.size < after.scopes.size := by
  cases effect with
  | stays _ fills => exact Or.inl (home_of_same (fills.kept word fun ahead => absurd ahead.1 (by omega)))
  | @opens _ start middle _ extent opens opening =>
      have ordered := opens.ordered
      by_cases listed : start ≤ word
      · exact Or.inr ⟨⟨start, middle, extent, opens, listed⟩,
          Outline.home_eq (opening.taken (sound.layout ▸ inside) (Or.inl ⟨listed, read⟩)), Effect.opened opening⟩
      · refine Or.inl (home_of_same (opening.kept (fun taken => absurd taken.1 listed) ?_ ?_))
        · rintro ⟨ahead, _⟩
          omega
        · rintro ⟨ahead, _⟩
          omega

/-- A word read now goes to the current scope or to the one that opens. -/
theorem Effect.home_of_le (effect : Effect code (walk.arrive position) position (after, next)) (sound : Sound code walk)
    (inside : word < code.size) (low : position ≤ word) (read : word < next) :
    after.home word = (walk.arrive position).frame.scope ∨
      after.home word = walk.scopes.size ∧ walk.scopes.size < after.scopes.size := by
  have rehomed (moved : Rehomed (walk.arrive position) after word) :
      after.home word = (walk.arrive position).frame.scope ∨
        after.home word = walk.scopes.size ∧ walk.scopes.size < after.scopes.size := by
    obtain ⟨scope, assigned, place⟩ := moved
    rw [Outline.home_eq assigned]
    exact place
  rcases Nat.eq_or_lt_of_le low with rfl | behind
  · rcases effect.kept_or_rehomed position with kept | moved
    · rw [arrive_home position sound inside, if_pos rfl] at kept
      exact Or.inl (Outline.home_eq kept)
    · exact rehomed moved
  · exact rehomed (effect.rehomed behind read inside ((sound.arrive position).layout ▸ inside))

theorem Effect.mem_places (effect : Effect code walk position (after, next)) {scope : ScopeId}
    (known : scope < walk.scopes.size) :
    scope ∈ after.places.map Prod.fst ↔ scope ∈ walk.places.map Prod.fst := by
  cases effect with
  | stays _ fills => rw [fills.places]
  | opens _ opening =>
      rw [opening.places, List.map_cons, List.mem_cons]
      exact or_iff_right (Nat.ne_of_lt known)

/-! ### A scope and one of its words -/

structure Knows (code : Code) (scope : ScopeId) (position : Nat) (walk : Walk) : Prop where
  formed : Formed code position walk
  chained : Chained walk
  known : scope < walk.scopes.size

/-- Up to its last word the scope is among those around the walk, and once a word of it is read it is around that. -/
structure Retains (code : Code) (scope : ScopeId) (last word position : Nat) (walk : Walk) : Prop
    extends Knows code scope position walk where
  kept : position ≤ last → (scope, last) ∈ walk.places
  home : word < position → scope ∈ walk.ancestors (walk.home word)

structure Loses (code : Code) (scope : ScopeId) (word position : Nat) (walk : Walk) : Prop
    extends Knows code scope position walk where
  left : scope ∉ walk.places.map Prod.fst
  read : word < position
  home : scope ∉ walk.ancestors (walk.home word)

variable {scope : ScopeId} {last : Nat}

namespace Knows

theorem home_lt (knows : Knows code scope position walk) (inside : word < code.size) (read : word < position) :
    walk.home word < walk.scopes.size := by
  obtain ⟨home, found, room⟩ := knows.formed.homes word read inside
  rwa [Outline.home_eq found]

theorem step (knows : Knows code scope position walk) (inside : position < code.size) :
    Knows code scope ((walk.arrive position).step code position).2 ((walk.arrive position).step code position).1 where
  formed := knows.formed.step inside
  chained := (knows.chained.arrive position).step (knows.formed.sound.arrive position) inside
  known := by
    have grows : Outline.Grows (walk.arrive position).toOutline ((walk.arrive position).step code position).1.toOutline :=
      step_grows
    exact grows.known knows.known

/-- The scope stays around a word, or does not get around it, as long as the word stays at home. -/
theorem mem_ancestors_home (knows : Knows code scope position walk) (inside : word < code.size) (read : word < position)
    (grows : Outline.Grows (walk.arrive position).toOutline after.toOutline)
    (same : after.home word = (walk.arrive position).home word) :
    scope ∈ after.ancestors (after.home word) ↔ scope ∈ walk.ancestors (walk.home word) := by
  have stays : (walk.arrive position).home word = walk.home word :=
    home_of_same ((homeAt?_arrive _ _ _).trans (if_neg fun here => by omega))
  rw [same, stays, grows.ancestors (knows.home_lt inside read), arrive_ancestors]

end Knows

theorem Retains.step (retains : Retains code scope last word position walk) (inside : position < code.size)
    (within : word ≤ last) (inCode : word < code.size)
    (free : ∀ start middle next extent, Opens code (walk.arrive position) position start middle next extent →
      start ≤ word → word < position → scope ∈ (walk.arrive position).places.map Prod.fst) :
    Retains code scope last word ((walk.arrive position).step code position).2
      ((walk.arrive position).step code position).1 := by
  have knows := retains.toKnows.step inside
  have sound := retains.formed.sound.arrive position
  have grows : Outline.Grows (walk.arrive position).toOutline ((walk.arrive position).step code position).1.toOutline :=
    step_grows
  have effect := step_effect (walk.arrive position) inside
  generalize (walk.arrive position).step code position = stepped at knows grows effect ⊢
  obtain ⟨after, next⟩ := stepped
  dsimp only at knows grows ⊢
  have ahead := effect.ahead
  have kept (early : position ≤ last) : (scope, last) ∈ (walk.arrive position).places :=
    mem_places_arrive_of_le (retains.kept early) early
  have around (place : after.home word = (walk.arrive position).frame.scope ∨
      after.home word = walk.scopes.size ∧ walk.scopes.size < after.scopes.size)
      (member : scope ∈ (walk.arrive position).places.map Prod.fst) : scope ∈ after.ancestors (after.home word) :=
    ((retains.chained.arrive position).mem_ancestors sound grows effect place retains.known).mpr
      (List.mem_append_left _ member)
  refine ⟨knows, ?_, ?_⟩
  · -- the frame outlives every word up to its last one
    intro further
    cases effect with
    | stays _ fills =>
        rw [fills.places]
        exact kept (by omega)
    | opens _ opening =>
        rw [opening.places]
        exact List.mem_cons_of_mem _ (kept (by omega))
  · -- a word read before only moves into a scope that opens, a word read now goes where the walk is
    intro read
    by_cases before : word < position
    · rcases effect.home_of_lt sound inCode before with same | ⟨⟨start, middle, extent, opens, listed⟩, taken⟩
      · exact (retains.mem_ancestors_home inCode before grows same).mpr (retains.home before)
      · exact around (Or.inr taken) (free start middle next extent opens listed before)
    · have low := Nat.le_of_not_lt before
      exact around (effect.home_of_le retains.formed.sound inCode low read) (List.mem_map_of_mem (kept (by omega)))

/-- A method that opens outside the scope takes the word away from it. -/
theorem Opens.loses {start middle : Nat} {extent : Extent}
    (opens : Opens code (walk.arrive position) position start middle next extent)
    (knows : Knows code scope position walk) (inside : position < code.size) (inCode : word < code.size)
    (noFile : scope ≠ 0) (left : scope ∉ (walk.arrive position).places.map Prod.fst) (listed : start ≤ word)
    (read : word < position) :
    Loses code scope word ((walk.arrive position).step code position).2
      ((walk.arrive position).step code position).1 := by
  have stepped := knows.step inside
  have sound := knows.formed.sound.arrive position
  have grows : Outline.Grows (walk.arrive position).toOutline ((walk.arrive position).step code position).1.toOutline :=
    step_grows
  obtain ⟨after, reads, opening⟩ := opens.opening
  rw [reads] at stepped grows ⊢
  have effect := Effect.opens opens opening
  have taken := Outline.home_eq (opening.taken (sound.layout ▸ inCode) (Or.inl ⟨listed, read⟩))
  refine ⟨stepped, ?_, Nat.lt_trans read effect.ahead, ?_⟩
  · rw [effect.mem_places knows.known]
    exact left
  · rw [(knows.chained.arrive position).mem_ancestors sound grows effect (Or.inr ⟨taken, Effect.opened opening⟩)
      knows.known, List.mem_append, List.mem_singleton]
    exact not_or.mpr ⟨left, noFile⟩

theorem Loses.step (loses : Loses code scope word position walk) (inside : position < code.size)
    (inCode : word < code.size) (noFile : scope ≠ 0) :
    Loses code scope word ((walk.arrive position).step code position).2
      ((walk.arrive position).step code position).1 := by
  have left : scope ∉ (walk.arrive position).places.map Prod.fst := by
    intro member
    obtain ⟨place, listed, rfl⟩ := List.mem_map.mp member
    exact loses.left (List.mem_map_of_mem (mem_places_arrive listed))
  by_cases taken : ∃ start middle next extent,
      Opens code (walk.arrive position) position start middle next extent ∧ start ≤ word
  · obtain ⟨start, middle, next, extent, opens, listed⟩ := taken
    exact opens.loses loses.toKnows inside inCode noFile left listed loses.read
  · have knows := loses.toKnows.step inside
    have sound := loses.formed.sound.arrive position
    have grows : Outline.Grows (walk.arrive position).toOutline
        ((walk.arrive position).step code position).1.toOutline := step_grows
    have effect := step_effect (walk.arrive position) inside
    generalize (walk.arrive position).step code position = stepped at knows grows effect ⊢
    obtain ⟨after, next⟩ := stepped
    dsimp only at knows grows ⊢
    refine ⟨knows, ?_, Nat.lt_trans loses.read effect.ahead, ?_⟩
    · rw [effect.mem_places loses.known]
      exact left
    · rcases effect.home_of_lt sound inCode loses.read with same | ⟨⟨start, middle, extent, listed⟩, _⟩
      · rw [loses.mem_ancestors_home inCode loses.read grows same]
        exact loses.home
      · exact absurd ⟨start, middle, next, extent, listed⟩ taken

theorem Retains.mem_of_free (starts : Retains code scope last word position walk) (within : word ≤ last)
    (inside : word < code.size) (free : ¬TakenFrom code walk position scope word) :
    scope ∈ (run code walk position).ancestors ((run code walk position).home word) := by
  have ended : ∃ stop, code.size ≤ stop ∧ Retains code scope last word stop (run code walk position) := by
    refine run_visited (Retains code scope last word) ?_ starts
    intro state place goesOn retains
    refine retains.step goesOn.inside within inside ?_
    intro start middle next extent opens listed read
    by_contra outside
    exact free ⟨state.arrive place, place, start, middle, next, extent, goesOn, opens, listed, read, outside⟩
  obtain ⟨stop, passed, retains⟩ := ended
  exact retains.home (Nat.lt_of_lt_of_le inside passed)

theorem Knows.not_mem_of_taken (knows : Knows code scope position walk) (inside : word < code.size) (noFile : scope ≠ 0)
    (taken : TakenFrom code walk position scope word) :
    scope ∉ (run code walk position).ancestors ((run code walk position).home word) := by
  obtain ⟨state, place, start, middle, next, extent, goesOn, opens, listed, read, outside⟩ := taken
  obtain ⟨before, rfl, known⟩ := goesOn.keeps (fun _ _ inside knows => Knows.step knows inside) knows
  have loses := opens.loses known goesOn.inside inside noFile outside listed read
  obtain ⟨_, _, ended⟩ := run_visited (Loses code scope word)
    (fun _ _ visited loses => loses.step visited.inside inside noFile) loses
  rw [goesOn.run_eq]
  exact ended.home

/-- A scope is around each of its words from where it follows what belongs to the scope around it, unless a later method
outside takes the word. -/
theorem Opens.mem_ancestors_home_iff {state : Walk} {start middle : Nat} {extent : Extent}
    (visits : Visits code (Walk.start code.layout) 0 state position)
    (opens : Opens code state position start middle next extent) (low : middle ≤ word) (high : word ≤ extent.last)
    (inside : word < code.size) :
    state.scopes.size ∈ (Outline.ofCode code).ancestors ((Outline.ofCode code).home word) ↔
      ¬TakenFrom code (state.step code position).1 next state.scopes.size word := by
  have noFile : state.scopes.size ≠ 0 := Nat.ne_of_gt visits.sound.file
  have chained := visits.chained.step visits.sound visits.inside
  obtain ⟨before, arrived, formed⟩ :=
    visits.keeps (fun _ _ inside formed => Formed.step formed inside) (Formed.start code)
  have stepped := formed.step visits.inside
  rw [← arrived] at stepped
  unfold Outline.ofCode
  rw [visits.run_eq]
  obtain ⟨after, reads, opening⟩ := opens.opening
  rw [reads] at chained stepped ⊢
  dsimp only at chained stepped ⊢
  have knows : Knows code state.scopes.size next after := ⟨stepped, chained, Effect.opened opening⟩
  refine ⟨fun around taken => knows.not_mem_of_taken inside noFile taken around, fun free => ?_⟩
  -- the step that opens the scope puts it on the walk's frames and gives it the words it reads
  have starts : Retains code state.scopes.size extent.last word next after := by
    refine ⟨knows, ?_, ?_⟩
    · intro _
      rw [opening.places]
      exact List.mem_cons_self
    · intro read
      rw [Outline.home_eq (opening.taken (visits.sound.layout ▸ inside) (Or.inr ⟨low, read, inside⟩))]
      exact after.self_mem_ancestors _
  exact starts.mem_of_free high inside free

end Walk

end ScopedRename
