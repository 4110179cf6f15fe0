import ScopedRename.Proofs.Code.Statements
import ScopedRename.Proofs.Outline.Bodies
import ScopedRename.Proofs.Outline.WellFormed

/-!
Extents and frames of a walk over balanced code. The scans that find the end of a scope step over groups as a whole, so
what is left of a scope never cuts a group in two. Main statement: at every word that a walk comes to, the extents lie
inside the code, each holds a word that no type is made of, and each frame ends with its scope, where reading stops.
-/

namespace ScopedRename

namespace Code

variable {code : Code}

theorem isOpener_of_isBrace {position : Nat} (brace : code.isPunctuation position openBrace = true) :
    code.isOpener position = true := by
  unfold isOpener
  rw [any_of_isPunctuation brace]
  decide

theorem groupEnd_eq {opener closer : Nat} {later : opener < closer}
    (closed : code.close? opener = some ⟨closer, later⟩) : code.groupEnd opener = closer := by
  unfold groupEnd
  rw [closed]
  rfl

theorem groupEnd_portion (balanced : code.Balanced) {opener : Nat}
    (brace : code.isPunctuation opener openBrace = true) : code.Portion opener (code.groupEnd opener) := by
  obtain ⟨closer, later, closed⟩ := balanced.closed (isOpener_of_isBrace brace)
  rw [groupEnd_eq closed]
  exact Portion.close balanced closed

theorem Level.groupEnd_lt (balanced : code.Balanced) {first next opener : Nat} (level : code.Level first next)
    (brace : code.isPunctuation opener openBrace = true) (low : first ≤ opener) (high : opener < next) :
    code.groupEnd opener < next := by
  obtain ⟨closer, later, closed⟩ := balanced.closed (isOpener_of_isBrace brace)
  rw [groupEnd_eq closed]
  exact level opener closer later low high closed

theorem methodHeader_stops (throwing : Bool) (position : Nat) :
    code.size ≤ (code.methodHeader throwing position).2 ∨
      code.isPunctuation (code.methodHeader throwing position).2 openBrace = true ∨
      code.isPunctuation (code.methodHeader throwing position).2 ";" = true := by
  fun_induction code.methodHeader throwing position with
  | case1 throwing position inside stops => exact Or.inr (Bool.or_eq_true_iff.mp stops)
  | case2 throwing position inside _ here further next later group rest ih => exact ih
  | case3 throwing position inside _ here further noGroup rest ih => exact ih
  | case4 throwing position outside => exact Or.inl (Nat.le_of_not_lt outside)

theorem methodEnd_portion (balanced : code.Balanced) {close : Nat} (inside : close < code.size) :
    code.Level (code.methodBody close + 1) (code.methodEnd close + 1) ∧ code.Ends (code.methodEnd close) ∧
      code.methodEnd close < code.size ∧ min (code.methodBody close) code.last ≤ code.methodEnd close := by
  cases brace : code.isPunctuation (code.methodBody close) openBrace with
  | true =>
      have portion := groupEnd_portion balanced brace
      have last : code.methodEnd close = code.groupEnd (code.methodBody close) := if_pos brace
      rw [last]
      exact ⟨portion.level.mono (Nat.le_succ _), portion.ends, portion.inside,
        Nat.le_trans (Nat.min_le_left _ _) portion.ordered⟩
  | false =>
      have last : code.methodEnd close = min (code.methodBody close) code.last := if_neg (Bool.eq_false_iff.mp brace)
      have whole : code.last + 1 = code.size := by
        unfold Code.last
        omega
      rw [last]
      refine ⟨?_, ?_, by omega, Nat.le_refl _⟩
      · intro opener closer later low high
        omega
      · rcases methodHeader_stops false (close + 1) with outside | opens | semicolon
        · have beyond : code.size ≤ code.methodBody close := outside
          exact Or.inl (by omega)
        · exact absurd (opens.symm.trans brace) (by decide)
        · have here := code.isPunctuation_lt_size semicolon
          have reached : min (code.methodBody close) code.last = code.methodBody close :=
            Nat.min_eq_left (by unfold methodBody; omega)
          rw [reached]
          refine Or.inr (Or.inl ?_)
          unfold isBoundary methodBody
          rw [semicolon, Bool.or_true, Bool.true_or]

theorem headerEnd_portion (balanced : code.Balanced) {position close : Nat} {later : position + 1 < close}
    (closed : code.close? (position + 1) = some ⟨close, later⟩) :
    code.Portion (position + 1) (code.headerEnd position close) := by
  have list := Level.group balanced closed
  have inside := balanced.closer_lt_size closed
  unfold headerEnd
  split
  · refine Portion.prependIf balanced list (by omega) (by omega) ?_ statementEnd_of_size_le
    exact fun left => statementEnd_portion balanced left
  · rename_i braced
    rw [Bool.or_eq_true, not_or, Bool.not_eq_true', Bool.not_eq_false] at braced
    obtain ⟨closer, behind, body⟩ := balanced.closed (isOpener_of_isBrace braced.2)
    rw [body]
    exact (Portion.close balanced body).prepend list (by omega)

theorem lambdaEnd_portion (balanced : code.Balanced) {arrow : Nat} (isArrow : code.isPunctuation arrow "->" = true) :
    code.Portion arrow (code.lambdaEnd arrow) := by
  have inside := code.isPunctuation_lt_size isArrow
  have word := Level.word (balanced.close?_eq_none (isOpener_of_isPunctuation isArrow (by decide)))
  unfold lambdaEnd
  split
  · rename_i brace
    exact (groupEnd_portion balanced brace).prepend word (Nat.le_succ _)
  · refine Portion.prependIf balanced word (Nat.le_succ _) inside ?_ expressionEnd_of_size_le
    exact fun left => expressionEnd_portion balanced left

end Code

namespace Outline

def extent? (outline : Outline) (scope : ScopeId) : Option Extent := (outline.scope? scope).bind (·.extent)

variable {before after : Outline} {scope : ScopeId}

theorem extent?_lt_size {extent : Extent} (found : before.extent? scope = some extent) :
    scope < before.scopes.size := by
  obtain ⟨entry, listed, _⟩ := Option.bind_eq_some_iff.mp found
  exact (Array.getElem?_eq_some_iff.mp listed).1

theorem scope?_push {entry : Scope} (pushed : after.scopes = before.scopes.push entry) (scope : ScopeId) :
    after.scope? scope = if scope = before.scopes.size then some entry else before.scope? scope := by
  unfold scope?
  rw [pushed, Array.getElem?_push]

theorem extent?_push_self {entry : Scope} (pushed : after.scopes = before.scopes.push entry) :
    after.extent? before.scopes.size = entry.extent := by
  unfold extent?
  rw [scope?_push pushed, if_pos rfl, Option.bind_some]

theorem extent?_push_cases {entry : Scope} (pushed : after.scopes = before.scopes.push entry) {extent : Extent}
    (found : after.extent? scope = some extent) :
    scope = before.scopes.size ∧ entry.extent = some extent ∨ before.extent? scope = some extent := by
  unfold extent? at found ⊢
  rw [scope?_push pushed] at found
  split at found
  · rename_i here
    exact Or.inl ⟨here, found⟩
  · exact Or.inr found

theorem extent?_push_of_some {entry : Scope} (pushed : after.scopes = before.scopes.push entry) {extent : Extent}
    (found : before.extent? scope = some extent) : after.extent? scope = some extent := by
  have older := extent?_lt_size found
  unfold extent?
  rw [scope?_push pushed, if_neg (Nat.ne_of_lt older)]
  exact found

theorem Grows.extent? (grows : Grows before after) {extent : Extent} (found : before.extent? scope = some extent) :
    after.extent? scope = some extent := by
  obtain ⟨entry, listed, same⟩ := Option.bind_eq_some_iff.mp found
  exact Option.bind_eq_some_iff.mpr ⟨entry, grows.scopes scope entry listed, same⟩

theorem Grows.parent? (grows : Grows before after) {parent : ScopeId} (found : before.parent? scope = some parent) :
    after.parent? scope = some parent := by
  obtain ⟨entry, listed, same⟩ := Option.bind_eq_some_iff.mp found
  exact Option.bind_eq_some_iff.mpr ⟨entry, grows.scopes scope entry listed, same⟩

end Outline

namespace Walk

variable {code : Code} {walk after : Walk} {position next : Nat}

/-! ### Words that a run comes to -/

private theorem max_step (walk : Walk) (inside : position < code.size) :
    max (position + 1) (walk.step code position).2 = (walk.step code position).2 :=
  Nat.max_eq_right (step_advances walk inside)

/-- What every step that a run makes keeps holds, before its arrival there, at each word it comes to. -/
theorem Visits.keeps_along {origin state : Walk} {first word : Nat} (invariant : Nat → Walk → Prop)
    (step : ∀ walk position, Visits code origin first (walk.arrive position) position → invariant position walk →
      invariant ((walk.arrive position).step code position).2 ((walk.arrive position).step code position).1)
    (visits : Visits code origin first state word) (start : invariant first origin) :
    ∃ walk, state = walk.arrive word ∧ invariant word walk := by
  induction visits with
  | here => exact ⟨_, rfl, start⟩
  | later inside _ ih =>
      refine ih (fun walk position further kept => step walk position (.later inside further) kept) ?_
      rw [max_step _ inside]
      exact step _ _ (.here inside) start

/-- What every step keeps holds, before its arrival there, at each word a run comes to. -/
theorem Visits.keeps {origin state : Walk} {first word : Nat} {invariant : Nat → Walk → Prop}
    (step : ∀ walk position, position < code.size → invariant position walk →
      invariant ((walk.arrive position).step code position).2 ((walk.arrive position).step code position).1)
    (visits : Visits code origin first state word) (start : invariant first origin) :
    ∃ walk, state = walk.arrive word ∧ invariant word walk :=
  visits.keeps_along invariant (fun walk position visited => step walk position visited.inside) start

theorem Visits.trans {origin state other : Walk} {first word further : Nat}
    (visits : Visits code origin first state word)
    (goesOn : Visits code (state.step code word).1 (state.step code word).2 other further) :
    Visits code origin first other further := by
  induction visits with
  | here inside => exact .later inside (by rw [max_step _ inside]; exact goesOn)
  | later inside _ ih => exact .later inside (ih goesOn)

theorem Visits.run_eq {origin state : Walk} {first word : Nat} (visits : Visits code origin first state word) :
    run code origin first = run code (state.step code word).1 (state.step code word).2 := by
  induction visits with
  | here inside => rw [run_step _ inside, max_step _ inside]
  | later inside _ ih => rw [run_step _ inside, ih]

theorem Visits.grows {origin state : Walk} {first word : Nat} (visits : Visits code origin first state word) :
    Outline.Grows origin.toOutline state.toOutline := by
  induction visits with
  | here => exact Outline.Grows.of_same rfl rfl
  | @later walk _ position _ _ _ ih =>
      have arrived : Outline.Grows walk.toOutline (walk.arrive position).toOutline := Outline.Grows.of_same rfl rfl
      exact (arrived.trans step_grows).trans ih

variable (code) in
def visited (walk : Walk) (position : Nat) : List (Walk × Nat) :=
  if position < code.size then
    (walk.arrive position, position) ::
      visited ((walk.arrive position).step code position).1
        (max (position + 1) ((walk.arrive position).step code position).2)
  else
    []
termination_by code.size - position

theorem mem_visited {state : Walk} {word : Nat} :
    (state, word) ∈ visited code walk position ↔ Visits code walk position state word := by
  constructor
  · fun_induction visited code walk position with
    | case1 walk position inside ih =>
        intro member
        rcases List.mem_cons.mp member with here | further
        · cases here
          exact .here inside
        · exact .later inside (ih further)
    | case2 => exact fun impossible => nomatch impossible
  · intro visits
    induction visits with
    | here inside =>
        rw [visited, if_pos inside]
        exact List.mem_cons_self
    | later inside _ ih =>
        rw [visited, if_pos inside]
        exact List.mem_cons_of_mem _ ih

/-! ### How an opened scope lies in the code -/

structure Lies (code : Code) (position start middle next : Nat) (extent : Extent) : Prop where
  ordered : extent.first ≤ extent.last
  inside : extent.last < code.size
  starts : extent.first = start ∧ start < position ∨ start = position ∧ position ≤ extent.first
  early : extent.first ≤ middle
  /-- What the step reads of the scope belongs to it. -/
  reads : ∀ word, word < next → word < code.size → word ≤ extent.last
  anchored : ∃ anchor, extent.first ≤ anchor ∧ anchor < next ∧ code.isTypePart anchor = false
  level : code.Level next (extent.last + 1)
  ends : code.Ends extent.last

/-- A scope that starts with the step lies where the portion that ends with it does. -/
private theorem Lies.of_portion {origin middle : Nat} {extent : Extent} (portion : code.Portion origin extent.last)
    (low : position ≤ extent.first) (early : extent.first ≤ middle) (first : extent.first ≤ origin)
    (enters : origin ≤ next) (reach : next ≤ origin + 1)
    (anchored : ∃ anchor, extent.first ≤ anchor ∧ anchor < next ∧ code.isTypePart anchor = false) :
    Lies code position position middle next extent where
  ordered := Nat.le_trans first portion.ordered
  inside := portion.inside
  starts := Or.inr ⟨rfl, low⟩
  early := early
  reads word before _ := by
    have ordered := portion.ordered
    omega
  anchored := anchored
  level := portion.level.mono enters
  ends := portion.ends

private theorem methodExtent_first {type : Option TypeRun} (close : Nat)
    (typed : ∀ run, type = some run → code.typeBefore? position = some run) :
    (methodExtent code position type close).first = methodStart code position type ∧
        methodStart code position type < position ∨
      methodStart code position type = position ∧ (methodExtent code position type close).first = position + 1 := by
  unfold methodExtent methodStart
  cases found : type.bind code.methodTypeParameters? with
  | none => exact Or.inr ⟨rfl, rfl⟩
  | some generics =>
      obtain ⟨run, given, parameters⟩ := Option.bind_eq_some_iff.mp found
      have bounds := code.methodTypeParameters?_bounds (typed run given) parameters
      exact Or.inl ⟨rfl, Nat.lt_trans bounds.1 bounds.2.1⟩

private theorem method_lies (balanced : code.Balanced) {type : Option TypeRun} {close : Nat}
    {later : position + 1 < close} (closed : code.close? (position + 1) = some ⟨close, later⟩)
    (opener : code.isPunctuation (position + 1) "(" = true)
    (typed : ∀ run, type = some run → code.typeBefore? position = some run) :
    Lies code position (methodStart code position type) (position + 1) (code.methodBody close + 1)
      (methodExtent code position type close) := by
  have body := code.le_methodBody close
  have within := balanced.closer_lt_size closed
  obtain ⟨level, ends, bound, reached⟩ := Code.methodEnd_portion balanced within
  have starts := methodExtent_first close typed
  have last : (methodExtent code position type close).last = code.methodEnd close := rfl
  have whole : code.last + 1 = code.size := by
    unfold Code.last
    omega
  have ordered : (methodExtent code position type close).first ≤ code.methodEnd close := by omega
  exact
    { ordered
      inside := bound
      starts := by
        rcases starts with listed | ⟨here, first⟩
        · exact Or.inl listed
        · exact Or.inr ⟨here, by omega⟩
      early := by omega
      reads := by
        intro word before inCode
        rw [last]
        omega
      anchored := by
        refine ⟨position + 1, by omega, by omega, ?_⟩
        rw [code.isTypePart_of_isPunctuation opener]
        decide
      level
      ends }

theorem Opens.lies (balanced : code.Balanced) {start middle : Nat} {extent : Extent}
    (opens : Opens code walk position start middle next extent) : Lies code position start middle next extent := by
  cases opens with
  | type reads identifier brace =>
      have body := code.le_typeBody position
      have first : position + 1 ≤ code.typeBody position := by omega
      refine .of_portion (Code.groupEnd_portion balanced brace) (Nat.le_succ _) (Nat.le_succ _) first (Nat.le_succ _)
        (Nat.le_refl _) ⟨code.typeBody position, first, Nat.lt_succ_self _, ?_⟩
      rw [code.isTypePart_of_isPunctuation brace]
      decide
  | method reads identifier opener closed typed => exact method_lies balanced closed opener typed
  | block reads keyword header closed =>
      refine .of_portion (Code.headerEnd_portion balanced closed) (Nat.le_refl _) (Nat.le_refl _) (Nat.le_succ _)
        (Nat.le_refl _) (Nat.le_succ _) ⟨position, Nat.le_refl _, Nat.lt_succ_self _, ?_⟩
      rw [code.isTypePart_of_isKeyword keyword]
      rcases List.mem_cons.mp header with rfl | header
      · decide
      · rcases List.mem_cons.mp header with rfl | header
        · decide
        · rw [List.mem_singleton.mp header]
          decide
  | @lambda arrow reads behind isArrow list =>
      refine .of_portion (Code.lambdaEnd_portion balanced isArrow) (Nat.le_refl _) (Nat.le_refl _) (Nat.le_of_lt behind)
        (Nat.le_succ _) (Nat.le_refl _) ⟨arrow, Nat.le_of_lt behind, Nat.lt_succ_self _, ?_⟩
      rw [code.isTypePart_of_isPunctuation isArrow]
      decide
  | brace reads here unclaimed =>
      refine .of_portion (Code.groupEnd_portion balanced here) (Nat.le_refl _) (Nat.le_refl _) (Nat.le_refl _)
        (Nat.le_succ _) (Nat.le_refl _) ⟨position, Nat.le_refl _, Nat.lt_succ_self _, ?_⟩
      rw [code.isTypePart_of_isPunctuation here]
      decide

/-! ### What a walk keeps -/

theorem places_arrive (walk : Walk) (position : Nat) :
    (walk.arrive position).places = walk.places.dropWhile (fun place => decide (place.2 < position)) := by
  have left : (walk.arrive position).places = (walk.leave position).places := rfl
  rw [left]
  unfold leave places
  rw [List.dropWhile_map]
  rfl

theorem mem_places_arrive {place : ScopeId × Nat} (member : place ∈ (walk.arrive position).places) :
    place ∈ walk.places := by
  rw [places_arrive] at member
  exact (List.dropWhile_sublist _).subset member

theorem frame_scope_cases (walk : Walk) :
    walk.places = [] ∧ walk.frame.scope = 0 ∨
      ∃ last outer, walk.places = (walk.frame.scope, last) :: outer := by
  unfold places frame
  cases walk.frames with
  | nil => exact Or.inl ⟨rfl, rfl⟩
  | cons frame outer => exact Or.inr ⟨frame.last, _, rfl⟩

theorem Formed.parent_lt (formed : Formed code position walk) {scope parent : ScopeId}
    (above : walk.parent? scope = some parent) : parent < scope := by
  obtain ⟨entry, listed, recorded⟩ := Option.bind_eq_some_iff.mp above
  have later : 0 < scope := by
    by_contra file
    rw [Nat.eq_zero_of_not_pos file] at listed
    rw [(formed.file entry listed).1] at recorded
    cases recorded
  obtain ⟨known, same, before⟩ := formed.parents scope entry listed later
  rw [recorded] at same
  cases same
  exact before

/-- Extents lie in the code, and what is left of the scopes around the walk consists of whole groups. -/
structure Framed (code : Code) (position : Nat) (walk : Walk) : Prop where
  formed : Formed code position walk
  /-- No later list of type parameters takes in a whole extent. -/
  extents : ∀ scope extent, walk.extent? scope = some extent → extent.first ≤ extent.last ∧ extent.last < code.size ∧
    ∃ anchor, extent.first ≤ anchor ∧ anchor < position ∧ code.isTypePart anchor = false
  frames : ∀ place ∈ walk.places, (∃ extent, walk.extent? place.1 = some extent ∧ extent.last = place.2) ∧
    code.Level position (place.2 + 1) ∧ code.Ends place.2
  homes : ∀ (word : Nat) (scope : ScopeId), walk.homeAt? word = some scope → scope < walk.scopes.size
  bounded : ∀ scope, 0 < scope → scope < walk.scopes.size → ∃ extent, walk.extent? scope = some extent

namespace Framed

theorem start (code : Code) : Framed code 0 (start code.layout) where
  formed := Formed.start code
  extents scope extent found := by
    have inside : scope < 1 := Outline.extent?_lt_size found
    rw [Nat.lt_one_iff.mp inside] at found
    cases found
  frames place impossible := by cases impossible
  homes word scope found := by cases found
  bounded scope later inside := by
    have file : scope < 1 := inside
    omega

theorem extent?_file (framed : Framed code position walk) : walk.extent? 0 = none := by
  have found := Array.getElem?_eq_getElem framed.formed.sound.file
  unfold Outline.extent? Outline.scope?
  rw [found, Option.bind_some]
  exact (framed.formed.file _ found).2.2

theorem homes_arrive (framed : Framed code position walk) {word : Nat} {scope : ScopeId}
    (home : (walk.arrive position).homeAt? word = some scope) : scope < walk.scopes.size := by
  have inCode : word < code.size := by
    have registered := arrive_registered framed.formed.registered position
    have inside := Outline.lt_size_of_homeAt? _ home
    rw [(framed.formed.sound.arrive position).layout] at inside
    exact inside
  rw [arrive_home position framed.formed.sound inCode] at home
  split at home
  · cases home
    exact (framed.formed.sound.arrive position).frame
  · exact framed.homes word scope home

private theorem known_homes (framed : Framed code position walk)
    (effect : Effect code (walk.arrive position) position (after, next)) :
    ∀ (word : Nat) (scope : ScopeId), after.homeAt? word = some scope → scope < after.scopes.size := by
  intro word scope home
  have current := (framed.formed.sound.arrive position).frame
  have larger : walk.scopes.size ≤ after.scopes.size := effect.size_bounds.1
  rcases effect.kept_or_rehomed word with kept | ⟨other, same, place⟩
  · rw [kept] at home
    exact Nat.lt_of_lt_of_le (framed.homes_arrive home) larger
  · rw [Option.some.inj (home.symm.trans same)]
    rcases place with inner | ⟨opened, room⟩
    · rw [inner]
      exact Nat.lt_of_lt_of_le current larger
    · rw [opened]
      exact room

theorem step (balanced : code.Balanced) (framed : Framed code position walk) (inside : position < code.size) :
    Framed code ((walk.arrive position).step code position).2 ((walk.arrive position).step code position).1 := by
  have formed := framed.formed.step inside
  have effect := step_effect (walk.arrive position) inside
  generalize (walk.arrive position).step code position = stepped at formed effect ⊢
  obtain ⟨after, next⟩ := stepped
  dsimp only at formed ⊢
  have ahead := effect.ahead
  -- extents and frames that were there before
  have extents : ∀ scope extent, walk.extent? scope = some extent → extent.first ≤ extent.last ∧
      extent.last < code.size ∧ ∃ anchor, extent.first ≤ anchor ∧ anchor < next ∧ code.isTypePart anchor = false := by
    intro scope extent found
    obtain ⟨ordered, bound, anchor, low, high, other⟩ := framed.extents scope extent found
    exact ⟨ordered, bound, anchor, low, by omega, other⟩
  have frames : ∀ place ∈ (walk.arrive position).places,
      (∃ extent, walk.extent? place.1 = some extent ∧ extent.last = place.2) ∧
        code.Level next (place.2 + 1) ∧ code.Ends place.2 := by
    intro place member
    obtain ⟨known, level, ends⟩ := framed.frames place (mem_places_arrive member)
    exact ⟨known, level.mono (Nat.le_of_lt ahead), ends⟩
  have homes := known_homes framed effect
  cases effect with
  | stays _ fills =>
      have same : ∀ scope, after.extent? scope = walk.extent? scope := by
        intro scope
        unfold Outline.extent? Outline.scope?
        rw [fills.scopes]
        rfl
      refine ⟨formed, ?_, ?_, homes, ?_⟩
      · intro scope extent found
        exact extents scope extent (same scope ▸ found)
      · intro place member
        rw [fills.places] at member
        rw [same]
        exact frames place member
      · intro scope later room
        rw [same]
        exact framed.bounded scope later (fills.scopes ▸ room)
  | @opens _ start middle _ extent opens opening =>
      have lies := opens.lies balanced
      obtain ⟨kind, title, supertypes, _, pushed⟩ := opening.scopes
      refine ⟨formed, ?_, ?_, homes, ?_⟩
      · intro scope found known
        rcases Outline.extent?_push_cases pushed known with ⟨_, new⟩ | former
        · cases new
          exact ⟨lies.ordered, lies.inside, lies.anchored⟩
        · exact extents scope found former
      · intro place member
        rw [opening.places] at member
        rcases List.mem_cons.mp member with rfl | former
        · exact ⟨⟨extent, Outline.extent?_push_self pushed, rfl⟩, lies.level, lies.ends⟩
        · obtain ⟨⟨bounds, known, last⟩, facts⟩ := frames place former
          exact ⟨⟨bounds, Outline.extent?_push_of_some pushed known, last⟩, facts⟩
      · intro scope later room
        rw [pushed, Array.size_push] at room
        rcases Nat.eq_or_lt_of_le (Nat.le_of_lt_succ room) with rfl | older
        · exact ⟨extent, Outline.extent?_push_self pushed⟩
        · obtain ⟨bounds, known⟩ := framed.bounded scope later older
          exact ⟨bounds, Outline.extent?_push_of_some pushed known⟩

/-- The state before the arrival at a word that the walk over the code comes to. -/
theorem visited (balanced : code.Balanced) {state : Walk}
    (visits : Visits code (Walk.start code.layout) 0 state position) :
    ∃ walk, state = walk.arrive position ∧ Framed code position walk :=
  visits.keeps (fun _ _ inside framed => framed.step balanced inside) (Framed.start code)

end Framed

end Walk

end ScopedRename
