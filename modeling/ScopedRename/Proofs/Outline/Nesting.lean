import ScopedRename.Proofs.Outline.Framing

/-!
When the scopes of an outline nest. A scan for the end of a scope may run past the end of the scope around it, a list of
type parameters may reach back into a scope that has ended, and a further variable may stand right behind its scope;
nothing else goes wrong. Main statement: scopes and words lie inside the scopes they belong to, and no two scopes cross,
if and only if the walk comes upon none of these cases.
-/

namespace ScopedRename

namespace Extent

def Within (inner outer : Extent) : Prop := outer.first ≤ inner.first ∧ inner.last ≤ outer.last

def Covers (extent : Extent) (word : Nat) : Prop := extent.first ≤ word ∧ word ≤ extent.last

def Crosses (extent other : Extent) : Prop :=
  extent.first < other.first ∧ other.first ≤ extent.last ∧ extent.last < other.last

end Extent

namespace Outline

/-- Scopes lie inside their parents and words inside their scopes, and no two scopes cross. -/
structure Laminar (outline : Outline) : Prop where
  parents : ∀ scope parent extent bounds, outline.parent? scope = some parent → outline.extent? scope = some extent →
    outline.extent? parent = some bounds → extent.Within bounds
  uncrossed : ∀ scope other extent bounds, outline.extent? scope = some extent → outline.extent? other = some bounds →
    ¬extent.Crosses bounds
  homes : ∀ word scope extent, outline.homeAt? word = some scope → outline.extent? scope = some extent →
    extent.Covers word

end Outline

namespace Walk

variable {code : Code} {walk after : Walk} {position middle next last : Nat} {extent : Extent}

def last? (walk : Walk) : Option Nat := walk.frames.head?.map (·.last)

/-- What is read at a word does not keep to the current scope. -/
inductive Overruns (code : Code) (walk : Walk) (position : Nat) : Prop where
  /-- The search for the body of a type leaves the current scope. -/
  | type {last : Nat} (current : walk.last? = some last)
      (reads : walk.step code position = walk.typeDeclaration code position)
      (identifier : code.isIdentifier (position + 1) = true)
      (brace : code.isPunctuation (code.typeBody position) openBrace = true) (beyond : last < code.typeBody position)
  /-- The search for the body or the end of a method leaves it. -/
  | method {last close : Nat} {type : Option TypeRun} {later : position + 1 < close}
      (current : walk.last? = some last)
      (reads : walk.step code position = walk.methodDeclaration code position type)
      (identifier : code.isIdentifier position = true) (opener : code.isPunctuation (position + 1) "(" = true)
      (closed : code.close? (position + 1) = some ⟨close, later⟩)
      (typed : ∀ run, type = some run → code.typeBefore? position = some run)
      (beyond : last < min (code.methodBody close) code.last)
  /-- The statement that a header governs ends behind it. -/
  | block {last close : Nat} {text : String} {later : position + 1 < close} (current : walk.last? = some last)
      (reads : walk.step code position = walk.headerBlock code position)
      (keyword : code.isKeyword position text = true) (header : text ∈ ["for", "catch", "try"])
      (closed : code.close? (position + 1) = some ⟨close, later⟩) (beyond : last < code.headerEnd position close)
  /-- The body of a lambda ends behind it. -/
  | lambda {last arrow : Nat} (current : walk.last? = some last)
      (reads : walk.step code position = walk.lambda code position arrow) (ordered : position < arrow)
      (isArrow : code.isPunctuation arrow "->" = true)
      (list : code.isIdentifier position = false →
        ∃ close, ∃ later : position < close, code.close? position = some ⟨close, later⟩ ∧ close < arrow)
      (beyond : last < code.lambdaEnd arrow)
  /-- The list of type parameters of a method starts inside a scope that has ended. -/
  | parameters {run : TypeRun} {close start stop : Nat} {later : position + 1 < close} {scope : ScopeId}
      {ended : Extent} (reads : walk.step code position = walk.methodDeclaration code position (some run))
      (identifier : code.isIdentifier position = true) (opener : code.isPunctuation (position + 1) "(" = true)
      (closed : code.close? (position + 1) = some ⟨close, later⟩) (typed : code.typeBefore? position = some run)
      (list : code.methodTypeParameters? run = some (start, stop)) (known : walk.extent? scope = some ended)
      (before : ended.last < position) (reaches : start ≤ ended.last)
  /-- The current scope ends with the comma in front of a further variable. -/
  | declarator {after : Walk} (current : walk.last? = some position)
      (reads : walk.step code position = walk.comma code position)
      (skips : walk.comma code position = (after, position + 2)) (comma : code.isPunctuation position "," = true)
      (identifier : code.isIdentifier (position + 1) = true)

theorem last?_eq_some {last : Nat} (current : walk.last? = some last) :
    ∃ outer, walk.places = (walk.frame.scope, last) :: outer := by
  unfold last? at current
  unfold places frame
  cases frames : walk.frames with
  | nil =>
      rw [frames] at current
      cases current
  | cons frame outer =>
      rw [frames] at current
      cases current
      exact ⟨_, rfl⟩

theorem last?_of_places {place : ScopeId × Nat} {outer : List (ScopeId × Nat)} (frames : walk.places = place :: outer) :
    walk.last? = some place.2 := by
  unfold places at frames
  unfold last?
  obtain ⟨frame, rest, same, rfl, _⟩ := List.map_eq_cons_iff.mp frames
  rw [same]
  rfl

/-! ### Walks that keep to their scopes -/

theorem Opens.last_le {start : Nat} (balanced : code.Balanced)
    (opens : Opens code walk position start middle next extent) (safe : ¬Overruns code walk position)
    (current : walk.last? = some last) (reached : position ≤ last) (level : code.Level position (last + 1)) :
    extent.last ≤ last := by
  cases opens with
  | type reads identifier brace =>
      have body : code.typeBody position ≤ last :=
        Nat.le_of_not_lt fun beyond => safe (.type current reads identifier brace beyond)
      have ahead := code.le_typeBody position
      exact Nat.le_of_lt_succ (level.groupEnd_lt balanced brace (by omega) (Nat.lt_succ_of_le body))
  | @method type close later reads identifier opener closed typed =>
      have body : min (code.methodBody close) code.last ≤ last :=
        Nat.le_of_not_lt fun beyond => safe (.method current reads identifier opener closed typed beyond)
      have ahead := code.le_methodBody close
      unfold methodExtent Code.methodEnd
      dsimp only
      split
      · rename_i brace
        have inside := code.isPunctuation_lt_size brace
        have here : code.methodBody close ≤ last := by
          unfold Code.last at body
          omega
        exact Nat.le_of_lt_succ (level.groupEnd_lt balanced brace (by omega) (Nat.lt_succ_of_le here))
      · exact body
  | block reads keyword header closed =>
      exact Nat.le_of_not_lt fun beyond => safe (.block current reads keyword header closed beyond)
  | lambda reads ordered isArrow list =>
      exact Nat.le_of_not_lt fun beyond => safe (.lambda current reads ordered isArrow list beyond)
  | brace reads here unclaimed =>
      exact Nat.le_of_lt_succ (level.groupEnd_lt balanced here (Nat.le_refl _) (Nat.lt_succ_of_le reached))

theorem Opens.overruns {start : Nat} {scope : ScopeId} {ended : Extent}
    (opens : Opens code walk position start middle next extent) (known : walk.extent? scope = some ended)
    (before : ended.last < position) (reaches : start ≤ ended.last) : Overruns code walk position := by
  cases opens with
  | type => omega
  | @method type close later reads identifier opener closed typed =>
      unfold methodStart at reaches
      cases found : type.bind code.methodTypeParameters? with
      | none =>
          rw [found] at reaches
          exact absurd before (Nat.not_lt_of_le reaches)
      | some generics =>
          obtain ⟨run, rfl, list⟩ := Option.bind_eq_some_iff.mp found
          rw [found] at reaches
          exact .parameters reads identifier opener closed (typed run rfl) list known before reaches
  | block => omega
  | lambda => omega
  | brace => omega

/-- The outline so far is laminar, the frames are nested, and scopes that have not ended are among them. -/
structure Nests (position : Nat) (walk : Walk) : Prop where
  laminar : walk.toOutline.Laminar
  ordered : walk.places.Pairwise fun inner outer => inner.2 ≤ outer.2
  entered : ∀ scope extent, walk.extent? scope = some extent → position ≤ extent.last →
    (scope, extent.last) ∈ walk.places

theorem Framed.first_lt (framed : Framed code position walk) {scope : ScopeId}
    (found : walk.extent? scope = some extent) : extent.first < position := by
  obtain ⟨_, _, anchor, low, high, _⟩ := framed.extents scope extent found
  omega

theorem Framed.innermost (framed : Framed code position walk) {scope : ScopeId} {outer : List (ScopeId × Nat)}
    (places : (walk.arrive position).places = (scope, last) :: outer) :
    ∃ bounds, walk.extent? scope = some bounds ∧ bounds.last = last ∧ position ≤ last ∧
      code.Level position (last + 1) ∧ code.Ends last := by
  have member : (scope, last) ∈ (walk.arrive position).places := by
    rw [places]
    exact List.mem_cons_self
  obtain ⟨⟨bounds, known, ends⟩, facts⟩ := framed.frames _ (mem_places_arrive member)
  refine ⟨bounds, known, ends, ?_, facts⟩
  rw [places_arrive] at places
  have kept := List.head?_dropWhile_not (fun place : ScopeId × Nat => decide (place.2 < position)) walk.places
  rw [places] at kept
  exact Nat.le_of_not_lt (of_decide_eq_false kept)

/-- The current scope, if it has bounds, covers the word the walk arrives at. -/
theorem Framed.current (framed : Framed code position walk)
    (found : walk.extent? (walk.arrive position).frame.scope = some extent) :
    (walk.arrive position).last? = some extent.last ∧ position ≤ extent.last ∧
      code.Level position (extent.last + 1) ∧ code.Ends extent.last := by
  rcases frame_scope_cases (walk.arrive position) with ⟨_, file⟩ | ⟨last, outer, places⟩
  · rw [file, framed.extent?_file] at found
    cases found
  · obtain ⟨bounds, known, rfl, facts⟩ := framed.innermost places
    rw [found] at known
    cases known
    exact ⟨last?_of_places places, facts⟩

theorem Nests.start (layout : Layout) : Nests 0 (start layout) where
  laminar := by
    have none (scope : ScopeId) : (Walk.start layout).extent? scope = none := by
      cases found : (Walk.start layout).extent? scope with
      | none => rfl
      | some extent =>
          have inside : scope < 1 := Outline.extent?_lt_size found
          rw [Nat.lt_one_iff.mp inside] at found
          cases found
    refine ⟨?_, ?_, ?_⟩
    · intro scope parent extent bounds _ found
      rw [none] at found
      cases found
    · intro scope other extent bounds found
      rw [none] at found
      cases found
    · intro word scope extent _ found
      rw [none] at found
      cases found
  ordered := List.Pairwise.nil
  entered scope extent found := by
    have inside : scope < 1 := Outline.extent?_lt_size found
    rw [Nat.lt_one_iff.mp inside] at found
    cases found

theorem Nests.arrive (framed : Framed code position walk) (nests : Nests position walk) :
    Nests position (walk.arrive position) where
  laminar := by
    refine ⟨nests.laminar.parents, nests.laminar.uncrossed, ?_⟩
    intro word scope extent home found
    by_cases here : position = word
    · subst here
      have current : scope = (walk.arrive position).frame.scope := by
        have registered := arrive_registered framed.formed.registered position
        have within := Outline.lt_size_of_homeAt? _ home
        rw [homeAt?_arrive, if_pos ⟨rfl, within⟩] at home
        exact (Option.some.inj home).symm
      subst current
      exact ⟨Nat.le_of_lt (framed.first_lt found), (framed.current found).2.1⟩
    · refine nests.laminar.homes word scope extent ?_ found
      rw [homeAt?_arrive, if_neg fun place => here place.1] at home
      exact home
  ordered := by
    rw [places_arrive]
    exact nests.ordered.sublist (List.dropWhile_sublist _)
  entered scope extent found reached := by
    rw [places_arrive]
    have member := nests.entered scope extent found reached
    rw [← List.takeWhile_append_dropWhile (p := fun place : ScopeId × Nat => decide (place.2 < position))
      (l := walk.places)] at member
    rcases List.mem_append.mp member with dropped | kept
    · have before := List.mem_takeWhile_imp (p := fun place : ScopeId × Nat => decide (place.2 < position)) dropped
      exact absurd (of_decide_eq_true before) (Nat.not_lt_of_le reached)
    · exact kept

theorem Nests.reached (framed : Framed code position walk) (nests : Nests position walk) {place : ScopeId × Nat}
    (member : place ∈ (walk.arrive position).places) : position ≤ place.2 := by
  rcases frame_scope_cases (walk.arrive position) with ⟨none, _⟩ | ⟨last, outer, places⟩
  · rw [none] at member
    cases member
  · obtain ⟨_, _, _, here, _⟩ := framed.innermost places
    have ordered := (nests.arrive framed).ordered
    rw [places] at member ordered
    rcases List.mem_cons.mp member with same | outside
    · rw [same]
      exact here
    · exact Nat.le_trans here ((List.pairwise_cons.mp ordered).1 place outside)

/-- Words that are read without opening a scope keep to the current one. -/
theorem Framed.covers (framed : Framed code position walk) (stays : Stays code (walk.arrive position) position next)
    (safe : ¬Overruns code (walk.arrive position) position)
    (found : walk.extent? (walk.arrive position).frame.scope = some extent) {word : Nat} (behind : position < word)
    (before : word < next) : extent.Covers word := by
  have first := framed.first_lt found
  obtain ⟨current, reached, _, ends⟩ := framed.current found
  refine ⟨by omega, ?_⟩
  cases stays with
  | word => omega
  | path inFile ahead =>
      obtain ⟨entry, listed, bounded⟩ := Option.bind_eq_some_iff.mp found
      have kind : entry.kind = .file := by
        unfold kindOfScope at inFile
        have arrived : (walk.arrive position).scope? (walk.arrive position).frame.scope = some entry := listed
        rw [arrived] at inFile
        exact inFile
      have file : (walk.arrive position).frame.scope = 0 :=
        Nat.eq_zero_of_not_pos fun later => framed.formed.kinds _ entry listed later kind
      rw [file, framed.extent?_file] at found
      cases found
  | typeName keyword identifier =>
      have inside := code.isIdentifier_lt_size identifier
      by_contra beyond
      have last : extent.last = position := by omega
      rw [last] at ends
      rcases ends with size | here | behind
      · omega
      · obtain ⟨mark, punctuation⟩ := Code.isPunctuation_of_isBoundary here
        rw [code.isPunctuation_of_isKeyword keyword] at punctuation
        cases punctuation
      · obtain ⟨mark, punctuation⟩ := Code.isPunctuation_of_isBoundary behind
        rw [code.isPunctuation_of_isIdentifier identifier] at punctuation
        cases punctuation
  | declarator reads skips comma identifier =>
      by_contra beyond
      have last : extent.last = position := by omega
      rw [last] at current
      exact safe (.declarator current reads skips comma identifier)

/-- A scope that has not ended surrounds the one that is opened, if that keeps to the current scope. -/
theorem Nests.within {start : Nat} (balanced : code.Balanced) (framed : Framed code position walk)
    (nests : Nests position walk) (opens : Opens code (walk.arrive position) position start middle next extent)
    (safe : ¬Overruns code (walk.arrive position) position) {scope : ScopeId} {bounds : Extent}
    (found : walk.extent? scope = some bounds) (reached : position ≤ bounds.last) : extent.Within bounds := by
  have arrived := nests.arrive framed
  constructor
  · obtain ⟨_, _, anchor, low, high, noPart⟩ := framed.extents scope bounds found
    rcases (opens.lies balanced).starts with ⟨first, listed⟩ | ⟨_, later⟩
    · -- the words from the list to the name are parts of types, and the extent holds a word that is not
      rw [first]
      by_contra after
      rw [(opens.listed listed).1 anchor (by omega) high] at noPart
      cases noPart
    · omega
  · have member := arrived.entered scope bounds found reached
    rcases frame_scope_cases (walk.arrive position) with ⟨none, _⟩ | ⟨last, outer, places⟩
    · rw [none] at member
      cases member
    · obtain ⟨_, _, _, here, level, _⟩ := framed.innermost places
      have inner : extent.last ≤ last := opens.last_le balanced safe (last?_of_places places) here level
      have ordered := arrived.ordered
      rw [places] at member ordered
      rcases List.mem_cons.mp member with same | outside
      · cases same
        exact inner
      · exact Nat.le_trans inner ((List.pairwise_cons.mp ordered).1 _ outside)

/-- A scope that has ended lies before the one that is opened, unless a list of type parameters reaches back. -/
theorem Opens.last_lt {start : Nat} (balanced : code.Balanced)
    (opens : Opens code walk position start middle next extent) (safe : ¬Overruns code walk position)
    {scope : ScopeId} {ended : Extent} (found : walk.extent? scope = some ended) (before : ended.last < position) :
    ended.last < extent.first := by
  by_contra reaches
  rcases (opens.lies balanced).starts with ⟨first, _⟩ | ⟨_, later⟩
  · exact safe (opens.overruns found before (by omega))
  · omega

theorem Nests.step_stays (formed : Formed code next after) (framed : Framed code position walk)
    (nests : Nests position walk)
    (stays : Stays code (walk.arrive position) position next) (safe : ¬Overruns code (walk.arrive position) position)
    {names : Nat → Prop} (fills : Fills (walk.arrive position).frame.scope (fun word => position < word ∧ word < next)
      names (walk.arrive position) after) : Nests next after := by
  have registered := formed.registered
  have arrived := nests.arrive framed
  have ahead := stays.ahead
  have extents : ∀ scope, after.extent? scope = walk.extent? scope := by
    intro scope
    unfold Outline.extent? Outline.scope?
    rw [fills.scopes]
    rfl
  have parents : ∀ scope, after.parent? scope = walk.parent? scope := by
    intro scope
    unfold Outline.parent? Outline.scope?
    rw [fills.scopes]
    rfl
  refine ⟨⟨?_, ?_, ?_⟩, ?_, ?_⟩
  · intro scope parent extent bounds
    rw [extents, extents, parents]
    exact nests.laminar.parents scope parent extent bounds
  · intro scope other extent bounds
    rw [extents, extents]
    exact nests.laminar.uncrossed scope other extent bounds
  · intro word scope extent home found
    rw [extents] at found
    by_cases among : position < word ∧ word < next
    · have inside : word < (walk.arrive position).layout.size := fills.layout ▸ Outline.lt_size_of_homeAt? _ home
      rw [Option.some.inj (home.symm.trans (fills.assigned word inside among))] at found
      exact framed.covers stays safe found among.1 among.2
    · rw [fills.kept word fun here => absurd here among] at home
      exact arrived.laminar.homes word scope extent home found
  · rw [fills.places]
    exact arrived.ordered
  · intro scope extent found reached
    rw [extents] at found
    rw [fills.places]
    exact arrived.entered scope extent found (by omega)

section Opening

variable {start : Nat} (balanced : code.Balanced) (framed : Framed code position walk) (nests : Nests position walk)
  (opens : Opens code (walk.arrive position) position start middle next extent)
  (safe : ¬Overruns code (walk.arrive position) position)

include balanced framed nests opens safe

/-- A known scope surrounds the one that is opened or lies before it. -/
theorem Nests.within_or_before {scope : ScopeId} {bounds : Extent} (found : walk.extent? scope = some bounds) :
    extent.Within bounds ∨ bounds.last < extent.first := by
  by_cases reached : position ≤ bounds.last
  · exact Or.inl (nests.within balanced framed opens safe found reached)
  · exact Or.inr (opens.last_lt balanced safe found (Nat.lt_of_not_le reached))

variable (opening : Opening code position start middle next extent (walk.arrive position) after)

include opening

theorem Nests.parents_of_opens {scope parent : ScopeId} {inner bounds : Extent}
    (above : after.parent? scope = some parent) (below : parent < scope)
    (found : after.extent? scope = some inner) (outer : after.extent? parent = some bounds) : inner.Within bounds := by
  obtain ⟨kind, title, supertypes, _, pushed⟩ := opening.scopes
  rcases Outline.extent?_push_cases pushed found with ⟨new, same⟩ | former
  · cases same
    have current : parent = (walk.arrive position).frame.scope := by
      unfold Outline.parent? at above
      rw [new, Outline.scope?_push pushed, if_pos rfl] at above
      cases above
      rfl
    rcases Outline.extent?_push_cases pushed outer with ⟨again, _⟩ | known
    · exact absurd (again.trans new.symm) (Nat.ne_of_lt below)
    · exact nests.within balanced framed opens safe known (framed.current (current ▸ known)).2.1
  · have older := Outline.extent?_lt_size former
    have kept : walk.parent? scope = some parent := by
      unfold Outline.parent? at above
      rw [Outline.scope?_push pushed, if_neg (Nat.ne_of_lt older)] at above
      exact above
    rcases Outline.extent?_push_cases pushed outer with ⟨again, _⟩ | known
    · exact absurd again (Nat.ne_of_lt (Nat.lt_trans below older))
    · exact nests.laminar.parents scope parent inner bounds kept former known

theorem Nests.uncrossed_of_opens {scope other : ScopeId} {left right : Extent}
    (found : after.extent? scope = some left) (known : after.extent? other = some right) : ¬left.Crosses right := by
  have ordered := (opens.lies balanced).ordered
  obtain ⟨kind, title, supertypes, _, pushed⟩ := opening.scopes
  rcases Outline.extent?_push_cases pushed found with ⟨_, new⟩ | former
  · cases new
    rcases Outline.extent?_push_cases pushed known with ⟨_, new⟩ | old
    · cases new
      exact fun crosses => Nat.lt_irrefl _ crosses.1
    · rintro ⟨starts, meets, ends⟩
      rcases nests.within_or_before balanced framed opens safe old with within | before
      · exact absurd starts (Nat.not_lt_of_le within.1)
      · omega
  · rcases Outline.extent?_push_cases pushed known with ⟨_, new⟩ | old
    · cases new
      rintro ⟨starts, meets, ends⟩
      rcases nests.within_or_before balanced framed opens safe former with within | before
      · exact absurd ends (Nat.not_lt_of_le within.2)
      · omega
    · exact nests.laminar.uncrossed scope other left right former old

theorem Nests.homes_of_opens {word : Nat} {scope : ScopeId} {inner : Extent} (inside : word < code.size)
    (home : after.homeAt? word = some scope) (found : after.extent? scope = some inner) : inner.Covers word := by
  have within : word < (walk.arrive position).layout.size := (framed.formed.sound.arrive position).layout ▸ inside
  have lies := opens.lies balanced
  have ordered := opens.ordered
  obtain ⟨kind, title, supertypes, _, pushed⟩ := opening.scopes
  by_cases taken : start ≤ word ∧ word < position ∨ middle ≤ word ∧ word < next ∧ word < code.size
  · rw [Option.some.inj (home.symm.trans (opening.taken within taken)), Outline.extent?_push_self pushed] at found
    cases found
    have starts := lies.starts
    have early := lies.early
    have read := lies.reads word (by omega) inside
    exact ⟨by omega, read⟩
  · by_cases passed : position < word ∧ word < middle
    · rw [Option.some.inj (home.symm.trans (opening.passed within passed))] at found
      rcases Outline.extent?_push_cases pushed found with ⟨impossible, _⟩ | known
      · exact absurd impossible (Nat.ne_of_lt (framed.formed.sound.arrive position).frame)
      · have within := nests.within balanced framed opens safe known (framed.current known).2.1
        have first := framed.first_lt known
        have read := lies.reads word (by omega) inside
        exact ⟨by omega, Nat.le_trans read within.2⟩
    · rw [opening.kept (fun listed => absurd (Or.inl listed) taken) (fun ahead => absurd ahead passed)
        fun behind => absurd (Or.inr behind) taken] at home
      rcases Outline.extent?_push_cases pushed found with ⟨new, _⟩ | known
      · exact absurd new (Nat.ne_of_lt (framed.homes_arrive home))
      · exact (nests.arrive framed).laminar.homes word scope inner home known

theorem Nests.step_opens (formed : Formed code next after) : Nests next after := by
  have arrived := nests.arrive framed
  have ahead := opens.ordered.2.2
  obtain ⟨kind, title, supertypes, _, pushed⟩ := opening.scopes
  refine ⟨⟨?_, ?_, ?_⟩, ?_, ?_⟩
  · intro scope parent inner bounds above found outer
    exact nests.parents_of_opens balanced framed opens safe opening above (formed.parent_lt above) found outer
  · intro scope other left right found known
    exact nests.uncrossed_of_opens balanced framed opens safe opening found known
  · intro word scope inner home found
    have registered := formed.registered
    have inside := Outline.lt_size_of_homeAt? _ home
    rw [formed.sound.layout] at inside
    exact nests.homes_of_opens balanced framed opens safe opening inside home found
  · rw [opening.places]
    refine List.pairwise_cons.mpr ⟨?_, arrived.ordered⟩
    intro place member
    obtain ⟨⟨bounds, known, ends⟩, _⟩ := framed.frames place (mem_places_arrive member)
    have reached := nests.reached framed member
    exact ends ▸ (nests.within balanced framed opens safe known (ends ▸ reached)).2
  · intro scope inner found reached
    rw [opening.places]
    rcases Outline.extent?_push_cases pushed found with ⟨new, same⟩ | former
    · cases same
      rw [new]
      exact List.mem_cons_self
    · exact List.mem_cons_of_mem _ (arrived.entered scope inner former (by omega))

end Opening

theorem Nests.step (balanced : code.Balanced) (framed : Framed code position walk) (nests : Nests position walk)
    (inside : position < code.size) (safe : ¬Overruns code (walk.arrive position) position) :
    Nests ((walk.arrive position).step code position).2 ((walk.arrive position).step code position).1 := by
  have effect := step_effect (walk.arrive position) inside
  have formed := framed.formed.step inside
  generalize (walk.arrive position).step code position = stepped at effect formed ⊢
  cases effect with
  | stays stays fills => exact nests.step_stays formed framed stays safe fills
  | opens opens opening => exact nests.step_opens balanced framed opens safe opening formed

/-! ### What an overrun leaves -/

/-- The scope that a step opens stays with its parent, as do the scopes known before. -/
theorem Opens.kept {start : Nat} {state : Walk} (visits : Visits code (Walk.start code.layout) 0 state position)
    (opens : Opens code state position start middle next extent) :
    (Outline.ofCode code).extent? state.scopes.size = some extent ∧
      (Outline.ofCode code).parent? state.scopes.size = some state.frame.scope ∧
      ∀ scope bounds, state.extent? scope = some bounds → (Outline.ofCode code).extent? scope = some bounds := by
  obtain ⟨after, stepped, opening⟩ := opens.opening
  obtain ⟨kind, title, supertypes, _, pushed⟩ := opening.scopes
  have grows : Outline.Grows after.toOutline (Outline.ofCode code) := by
    unfold Outline.ofCode
    rw [visits.run_eq, stepped]
    exact run_grows after next
  refine ⟨grows.extent? (Outline.extent?_push_self pushed), grows.parent? ?_, ?_⟩
  · unfold Outline.parent?
    rw [Outline.scope?_push pushed, if_pos rfl, Option.bind_some]
  · intro scope bounds found
    exact grows.extent? (Outline.extent?_push_of_some pushed found)

theorem Opens.not_laminar_of_beyond {start : Nat} {state : Walk} (balanced : code.Balanced)
    (visits : Visits code (Walk.start code.layout) 0 state position)
    (opens : Opens code state position start middle next extent) (current : state.last? = some last)
    (beyond : last < extent.last) : ¬(Outline.ofCode code).Laminar := by
  intro laminar
  obtain ⟨walk, rfl, framed⟩ := Framed.visited balanced visits
  obtain ⟨outer, places⟩ := last?_eq_some current
  obtain ⟨bounds, known, ends, _⟩ := framed.innermost places
  obtain ⟨opened, parent, kept⟩ := opens.kept visits
  have inner := (laminar.parents _ _ extent bounds parent opened (kept _ _ known)).2
  omega

/-- A list of type parameters that starts inside a scope that has ended makes the two scopes cross. -/
theorem Opens.not_laminar_of_listed {start : Nat} {state : Walk} (balanced : code.Balanced)
    (visits : Visits code (Walk.start code.layout) 0 state position)
    (opens : Opens code state position start middle next extent) {scope : ScopeId} {ended : Extent}
    (known : state.extent? scope = some ended) (before : ended.last < position) (reaches : start ≤ ended.last) :
    ¬(Outline.ofCode code).Laminar := by
  intro laminar
  obtain ⟨walk, rfl, framed⟩ := Framed.visited balanced visits
  obtain ⟨_, _, anchor, low, high, noPart⟩ := framed.extents scope ended known
  obtain ⟨opened, _, kept⟩ := opens.kept visits
  have lies := opens.lies balanced
  have here := lies.reads position opens.ordered.2.2 visits.inside
  rcases lies.starts with ⟨first, listed⟩ | ⟨same, _⟩
  · have outside : anchor < start := by
      by_contra among
      rw [(opens.listed listed).1 anchor (by omega) high] at noPart
      cases noPart
    refine laminar.uncrossed scope _ ended extent (kept scope ended known) opened ⟨?_, ?_, ?_⟩
    · omega
    · omega
    · omega
  · omega

/-- A word that was read keeps its home, unless a later list of type parameters takes it in. -/
theorem run_home_or_listed (code : Code) (origin : Walk) {first word : Nat} (read : word < first) :
    (run code origin first).homeAt? word = origin.homeAt? word ∨
      ∃ state position start middle next extent, Visits code origin first state position ∧
        Opens code state position start middle next extent ∧ start ≤ word ∧ word < position := by
  let listed : Prop := ∃ state position start middle next extent, Visits code origin first state position ∧
    Opens code state position start middle next extent ∧ start ≤ word ∧ word < position
  have stopped : ∃ stop, code.size ≤ stop ∧ word < stop ∧
      ((run code origin first).homeAt? word = origin.homeAt? word ∨ listed) := by
    refine run_visited (fun stop walk => word < stop ∧ (walk.homeAt? word = origin.homeAt? word ∨ listed)) ?_
      ⟨read, Or.inl rfl⟩
    intro walk position visits ⟨before, kept⟩
    have effect := step_effect (walk.arrive position) visits.inside
    generalize (walk.arrive position).step code position = stepped at effect ⊢
    obtain ⟨after, next⟩ := stepped
    have ahead := effect.ahead
    refine ⟨Nat.lt_trans before ahead, ?_⟩
    have arrived : (walk.arrive position).homeAt? word = walk.homeAt? word := by
      rw [homeAt?_arrive, if_neg (by omega)]
    rcases kept with same | found
    · cases effect with
      | stays _ fills =>
          left
          rw [fills.kept word (by omega), arrived, same]
      | @opens _ start middle _ extent opens opening =>
          have ordered := opens.ordered
          by_cases takes : start ≤ word
          · exact Or.inr ⟨_, position, start, middle, next, extent, visits, opens, takes, before⟩
          · left
            rw [opening.kept (by omega) (by omega) (by omega), arrived, same]
    · exact Or.inr found
  obtain ⟨_, _, _, result⟩ := stopped
  exact result

private theorem homes_of_comma (skips : walk.comma code position = (after, position + 2)) :
    after.homeAt? = (walk.assign (position + 1) walk.frame.scope).homeAt? := by
  have stays (other : Walk) : (other, position + 1) ≠ (after, position + 2) :=
    fun same => Nat.succ_ne_self _ (congrArg Prod.snd same).symm
  unfold comma at skips
  split at skips
  · exact absurd skips (stays _)
  · dsimp only at skips
    split at skips
    · cases skips
      rfl
    · exact absurd skips (stays _)

/-- A further variable behind the end of its scope is not covered by it, and a list of type parameters that takes the
variable in also takes in the end of the scope. -/
theorem not_laminar_of_declarator {state : Walk} (balanced : code.Balanced)
    (visits : Visits code (Walk.start code.layout) 0 state position) (current : state.last? = some position)
    (stepped : state.step code position = (after, position + 2))
    (skips : state.comma code position = (after, position + 2))
    (identifier : code.isIdentifier (position + 1) = true) : ¬(Outline.ofCode code).Laminar := by
  intro laminar
  obtain ⟨walk, rfl, framed⟩ := Framed.visited balanced visits
  obtain ⟨outer, places⟩ := last?_eq_some current
  obtain ⟨bounds, known, ends, _⟩ := framed.innermost places
  have grows : Outline.Grows (walk.arrive position).toOutline after.toOutline := by
    have grown : Outline.Grows _ ((walk.arrive position).step code position).1.toOutline := step_grows
    rw [stepped] at grown
    exact grown
  have home : after.homeAt? (position + 1) = some (walk.arrive position).frame.scope := by
    have within : position + 1 < (walk.arrive position).layout.size :=
      (framed.formed.sound.arrive position).layout ▸ code.isIdentifier_lt_size identifier
    rw [homes_of_comma skips, homeAt?_assign, if_pos ⟨rfl, within⟩]
  have final : Outline.ofCode code = (run code after (position + 2)).toOutline := by
    unfold Outline.ofCode
    rw [visits.run_eq, stepped]
  rcases run_home_or_listed code after (Nat.lt_succ_self (position + 1)) with
    same | ⟨state, later, start, middle, next, extent, further, opens, low, high⟩
  · have covers := laminar.homes (position + 1) (walk.arrive position).frame.scope bounds
      (by rw [final, same, home]) (by rw [final]; exact (grows.trans (run_grows after _)).extent? known)
    have inner := covers.2
    omega
  · have angle := (opens.listed (by omega)).2.2.2
    have before : start ≤ position := by
      by_contra behind
      have here : start = position + 1 := by omega
      rw [here, code.isPunctuation_of_isIdentifier identifier] at angle
      cases angle
    have whole := visits.trans (by rw [stepped]; exact further)
    exact opens.not_laminar_of_listed balanced whole ((grows.trans further.grows).extent? known) (by omega)
      (by omega) laminar

theorem Overruns.not_laminar {state : Walk} (balanced : code.Balanced)
    (visits : Visits code (Walk.start code.layout) 0 state position) (overruns : Overruns code state position) :
    ¬(Outline.ofCode code).Laminar := by
  cases overruns with
  | type current reads identifier brace beyond =>
      have portion := Code.groupEnd_portion balanced brace
      exact (Opens.type reads identifier brace).not_laminar_of_beyond balanced visits current
        (Nat.lt_of_lt_of_le beyond portion.ordered)
  | method current reads identifier opener closed typed beyond =>
      have bounds := Code.methodEnd_portion balanced (balanced.closer_lt_size closed)
      exact (Opens.method reads identifier opener closed typed).not_laminar_of_beyond balanced visits current
        (Nat.lt_of_lt_of_le beyond bounds.2.2.2)
  | block current reads keyword header closed beyond =>
      exact (Opens.block reads keyword header closed).not_laminar_of_beyond balanced visits current beyond
  | lambda current reads ordered isArrow list beyond =>
      exact (Opens.lambda reads ordered isArrow list).not_laminar_of_beyond balanced visits current beyond
  | @parameters run close start stop later scope ended reads identifier opener closed typed list known before reaches =>
      have typedRun : ∀ other, some run = some other → code.typeBefore? position = some other := by
        rintro other ⟨⟩
        exact typed
      have opens := Opens.method reads identifier opener closed typedRun
      have first : methodStart code position (some run) = start := by
        unfold methodStart
        rw [Option.bind_some, list]
        rfl
      rw [first] at opens
      exact opens.not_laminar_of_listed balanced visits known before reaches
  | @declarator after current reads skips comma identifier =>
      exact not_laminar_of_declarator balanced visits current (reads.trans skips) skips identifier

theorem run_framed (balanced : code.Balanced) :
    ∃ stop, code.size ≤ stop ∧ Framed code stop (run code (Walk.start code.layout) 0) :=
  run_visited (Framed code) (fun _ _ visits framed => framed.step balanced visits.inside) (Framed.start code)

/-- The outline of balanced code is laminar if and only if the walk keeps to its scopes. -/
theorem laminar_iff (balanced : code.Balanced) :
    (Outline.ofCode code).Laminar ↔
      ∀ state position, Visits code (Walk.start code.layout) 0 state position → ¬Overruns code state position := by
  constructor
  · intro laminar state position visits overruns
    exact overruns.not_laminar balanced visits laminar
  · intro safe
    have stopped : ∃ stop, code.size ≤ stop ∧ Framed code stop (run code (Walk.start code.layout) 0) ∧
        Nests stop (run code (Walk.start code.layout) 0) := by
      refine run_visited (fun stop walk => Framed code stop walk ∧ Nests stop walk) ?_
        ⟨Framed.start code, Nests.start code.layout⟩
      intro walk position visits ⟨framed, nests⟩
      exact ⟨framed.step balanced visits.inside,
        nests.step balanced framed visits.inside (safe _ position visits)⟩
    obtain ⟨_, _, _, nests⟩ := stopped
    exact nests.laminar

end Walk

/-! ### In the text -/

namespace Outline

def spanOf (layout : Layout) (outline : Outline) (scope : ScopeId) : Span :=
  (outline.scope? scope).elim ⟨0, 0⟩ layout.extent

/-- Scopes nest like brackets: each lies inside its parent, two are apart or one lies inside the other, and words lie
inside the scopes they are assigned to. -/
structure Nested (layout : Layout) (outline : Outline) : Prop where
  parents : ∀ scope < outline.scopes.size, ∀ parent ∈ outline.parent? scope,
    (outline.spanOf layout parent).encloses (outline.spanOf layout scope) = true
  apart : ∀ scope < outline.scopes.size, ∀ other < outline.scopes.size,
    (outline.spanOf layout scope).overlaps (outline.spanOf layout other) = false ∨
      (outline.spanOf layout scope).encloses (outline.spanOf layout other) = true ∨
      (outline.spanOf layout other).encloses (outline.spanOf layout scope) = true
  words : ∀ position < layout.size,
    (outline.spanOf layout (outline.home position)).encloses (layout.span position) = true

instance (layout : Layout) (outline : Outline) : Decidable (outline.Nested layout) :=
  decidable_of_iff
    ((∀ scope < outline.scopes.size, ∀ parent ∈ outline.parent? scope,
        (outline.spanOf layout parent).encloses (outline.spanOf layout scope) = true) ∧
      (∀ scope < outline.scopes.size, ∀ other < outline.scopes.size,
        (outline.spanOf layout scope).overlaps (outline.spanOf layout other) = false ∨
          (outline.spanOf layout scope).encloses (outline.spanOf layout other) = true ∨
          (outline.spanOf layout other).encloses (outline.spanOf layout scope) = true) ∧
      ∀ position < layout.size,
        (outline.spanOf layout (outline.home position)).encloses (layout.span position) = true)
    ⟨fun ⟨parents, apart, words⟩ => ⟨parents, apart, words⟩,
      fun nested => ⟨nested.parents, nested.apart, nested.words⟩⟩

variable {tokens : List Token} {outline : Outline} {scope other : ScopeId} {extent bounds : Extent} {word : Nat}

theorem spanOf_file (inside : scope < outline.scopes.size) (unbounded : outline.extent? scope = none)
    (layout : Layout) : outline.spanOf layout scope = ⟨0, layout.stop⟩ := by
  unfold extent? scope? at unbounded
  unfold spanOf scope? Layout.extent
  rw [Array.getElem?_eq_getElem inside] at unbounded ⊢
  rw [Option.bind_some] at unbounded
  rw [Option.elim_some, unbounded]

theorem spanOf_extent (tiled : Token.Tiled tokens) (found : outline.extent? scope = some extent)
    (ordered : extent.first ≤ extent.last) (inside : extent.last < (Token.significant tokens).length) :
    outline.spanOf (Layout.ofTokens tokens) scope =
      ⟨((Layout.ofTokens tokens).span extent.first).start, ((Layout.ofTokens tokens).span extent.last).stop⟩ := by
  obtain ⟨entry, listed, bounded⟩ := Option.bind_eq_some_iff.mp found
  have proper := (Layout.start_lt_stop_iff tiled (by omega) inside).mpr ordered
  have first := (Layout.token?_ofTokens tokens extent.first).trans (List.getElem?_eq_getElem (by omega))
  have last := (Layout.token?_ofTokens tokens extent.last).trans (List.getElem?_eq_getElem inside)
  rw [Layout.span_of_token? first, Layout.span_of_token? last] at proper ⊢
  unfold spanOf Layout.extent
  rw [listed, Option.elim_some, bounded]
  dsimp only
  rw [first, last, Option.elim_some, Option.elim_some, Nat.max_eq_right (Nat.le_of_lt proper)]

variable (tokens outline) in
def Bounded : Prop :=
  ∀ scope extent, outline.extent? scope = some extent →
    extent.first ≤ extent.last ∧ extent.last < (Token.significant tokens).length

theorem encloses_spanOf (tiled : Token.Tiled tokens) (bounded : Bounded tokens outline)
    (found : outline.extent? scope = some extent) (known : outline.extent? other = some bounds) :
    (outline.spanOf (Layout.ofTokens tokens) other).encloses (outline.spanOf (Layout.ofTokens tokens) scope) = true ↔
      extent.Within bounds := by
  obtain ⟨ordered, inside⟩ := bounded scope extent found
  obtain ⟨outerOrdered, outerInside⟩ := bounded other bounds known
  rw [spanOf_extent tiled found ordered inside, spanOf_extent tiled known outerOrdered outerInside]
  unfold Span.encloses Extent.Within
  rw [Bool.and_eq_true, decide_eq_true_iff, decide_eq_true_iff,
    Layout.start_le_start_iff tiled (by omega) (by omega), Layout.stop_le_stop_iff tiled inside outerInside]

theorem overlaps_spanOf (tiled : Token.Tiled tokens) (bounded : Bounded tokens outline)
    (found : outline.extent? scope = some extent) (known : outline.extent? other = some bounds) :
    (outline.spanOf (Layout.ofTokens tokens) scope).overlaps (outline.spanOf (Layout.ofTokens tokens) other) = true ↔
      extent.first ≤ bounds.last ∧ bounds.first ≤ extent.last := by
  obtain ⟨ordered, inside⟩ := bounded scope extent found
  obtain ⟨otherOrdered, otherInside⟩ := bounded other bounds known
  rw [spanOf_extent tiled found ordered inside, spanOf_extent tiled known otherOrdered otherInside]
  unfold Span.overlaps
  rw [Bool.and_eq_true, decide_eq_true_iff, decide_eq_true_iff,
    Layout.start_lt_stop_iff tiled (by omega) otherInside, Layout.start_lt_stop_iff tiled (by omega) inside]

theorem encloses_span (tiled : Token.Tiled tokens) (bounded : Bounded tokens outline)
    (found : outline.extent? scope = some extent) (inside : word < (Token.significant tokens).length) :
    (outline.spanOf (Layout.ofTokens tokens) scope).encloses ((Layout.ofTokens tokens).span word) = true ↔
      extent.Covers word := by
  obtain ⟨ordered, bound⟩ := bounded scope extent found
  rw [spanOf_extent tiled found ordered bound]
  unfold Span.encloses Extent.Covers
  rw [Bool.and_eq_true, decide_eq_true_iff, decide_eq_true_iff,
    Layout.start_le_start_iff tiled (by omega) inside, Layout.stop_le_stop_iff tiled inside bound]

theorem stop_spanOf_le (tiled : Token.Tiled tokens) (bounded : Bounded tokens outline)
    (inside : scope < outline.scopes.size) :
    (outline.spanOf (Layout.ofTokens tokens) scope).stop ≤ (Layout.ofTokens tokens).stop := by
  cases found : outline.extent? scope with
  | none =>
      rw [spanOf_file inside found]
  | some extent =>
      obtain ⟨ordered, bound⟩ := bounded scope extent found
      rw [spanOf_extent tiled found ordered bound]
      exact Layout.stop_le_stop tiled bound

theorem file_encloses (inside : scope < outline.scopes.size) (unbounded : outline.extent? scope = none)
    {layout : Layout} {span : Span} (inText : span.stop ≤ layout.stop) :
    (outline.spanOf layout scope).encloses span = true := by
  rw [spanOf_file inside unbounded]
  unfold Span.encloses
  rw [Bool.and_eq_true, decide_eq_true_iff, decide_eq_true_iff]
  exact ⟨Nat.zero_le _, inText⟩

/-- In the text the scopes nest if and only if their extents do. -/
theorem nested_iff_laminar (tiled : Token.Tiled tokens) (bounded : Bounded tokens outline)
    (parents : ∀ scope parent, outline.parent? scope = some parent →
      parent < outline.scopes.size ∧ ∃ extent, outline.extent? scope = some extent)
    (fits : ∀ word scope, outline.homeAt? word = some scope → word < (Token.significant tokens).length)
    (homes : ∀ word < (Token.significant tokens).length,
      ∃ scope < outline.scopes.size, outline.homeAt? word = some scope) :
    outline.Nested (Layout.ofTokens tokens) ↔ outline.Laminar := by
  have home {word : Nat} {scope : ScopeId} (found : outline.homeAt? word = some scope) :
      outline.home word = scope := by
    unfold Outline.home
    rw [found, Option.getD_some]
  -- both sides say the same of each pair of scopes, in bytes and in words; the file, which has no extent, holds all
  constructor
  · intro nested
    refine ⟨?_, ?_, ?_⟩
    · intro scope parent extent bounds above found known
      exact (encloses_spanOf tiled bounded found known).mp (nested.parents scope (extent?_lt_size found) parent above)
    · rintro scope other extent bounds found known ⟨starts, meets, ends⟩
      have ordered := bounded scope extent found
      rcases nested.apart scope (extent?_lt_size found) other (extent?_lt_size known) with apart | outer | inner
      · rw [(overlaps_spanOf tiled bounded found known).mpr ⟨by omega, meets⟩] at apart
        cases apart
      · have within := (encloses_spanOf tiled bounded known found).mp outer
        exact absurd ends (Nat.not_lt_of_le within.2)
      · have within := (encloses_spanOf tiled bounded found known).mp inner
        exact absurd starts (Nat.not_lt_of_le within.1)
    · intro word scope extent assigned found
      have inside := fits word scope assigned
      have enclosed := nested.words word (Layout.size_ofTokens tokens ▸ inside)
      rw [home assigned] at enclosed
      exact (encloses_span tiled bounded found inside).mp enclosed
  · intro laminar
    refine ⟨?_, ?_, ?_⟩
    · intro scope inside parent above
      obtain ⟨listed, extent, found⟩ := parents scope parent above
      cases known : outline.extent? parent with
      | none => exact file_encloses listed known (stop_spanOf_le tiled bounded inside)
      | some bounds =>
          exact (encloses_spanOf tiled bounded found known).mpr
            (laminar.parents scope parent extent bounds above found known)
    · intro scope inside other known
      cases found : outline.extent? scope with
      | none => exact Or.inr (Or.inl (file_encloses inside found (stop_spanOf_le tiled bounded known)))
      | some extent =>
          cases otherFound : outline.extent? other with
          | none => exact Or.inr (Or.inr (file_encloses known otherFound (stop_spanOf_le tiled bounded inside)))
          | some bounds =>
              have left := laminar.uncrossed scope other extent bounds found otherFound
              have right := laminar.uncrossed other scope bounds extent otherFound found
              unfold Extent.Crosses at left right
              rw [← Bool.not_eq_true, overlaps_spanOf tiled bounded found otherFound,
                encloses_spanOf tiled bounded otherFound found, encloses_spanOf tiled bounded found otherFound]
              unfold Extent.Within
              omega
    · intro word inside
      rw [Layout.size_ofTokens] at inside
      obtain ⟨scope, known, assigned⟩ := homes word inside
      rw [home assigned]
      cases found : outline.extent? scope with
      | none => exact file_encloses known found (Layout.stop_le_stop tiled inside)
      | some extent =>
          exact (encloses_span tiled bounded found inside).mpr (laminar.homes word scope extent assigned found)

end Outline

/-- The scopes of a text nest if and only if drawing up its outline keeps to the scopes. -/
theorem outline_nested_iff {source : String} {tokens : List Token} {code : Code}
    (split : Token.ofText source = .ok tokens) (paired : Code.ofTokens tokens = .ok code) :
    (Outline.ofCode code).Nested (Layout.ofTokens tokens) ↔
      ∀ state position, Walk.Visits code (Walk.start code.layout) 0 state position →
        ¬Walk.Overruns code state position := by
  have tiled := Token.ofText_tiled split
  have balanced := Code.ofTokens_balanced paired
  have size : code.size = (Token.significant tokens).length := Code.size_ofTokens paired
  obtain ⟨stop, passed, framed⟩ := Walk.run_framed balanced
  rw [← Walk.laminar_iff balanced]
  refine Outline.nested_iff_laminar tiled ?_ ?_ ?_ ?_
  · intro scope extent found
    obtain ⟨ordered, inside, _⟩ := framed.extents scope extent found
    exact ⟨ordered, size ▸ inside⟩
  · intro scope parent above
    have below := framed.formed.parent_lt above
    obtain ⟨entry, listed, _⟩ := Option.bind_eq_some_iff.mp above
    have inside : scope < (Outline.ofCode code).scopes.size := (Array.getElem?_eq_some_iff.mp listed).1
    exact ⟨Nat.lt_trans below inside, framed.bounded scope (Nat.lt_of_le_of_lt (Nat.zero_le _) below) inside⟩
  · intro word scope assigned
    have inside := Outline.lt_size_of_homeAt? _ assigned
    rw [show (Outline.ofCode code).layout = code.layout from framed.formed.sound.layout] at inside
    exact size ▸ inside
  · intro word inside
    rw [← size] at inside
    obtain ⟨scope, found, room⟩ := framed.formed.homes word (Nat.lt_of_lt_of_le inside passed) inside
    exact ⟨scope, room, found⟩

/-- Nested classes, a generic method, a loop without braces and a lambda. -/
theorem outline_nested_iff_class :
    ∃ tokens code,
      Token.ofText "class A { <U> void f() { for (;;) g(x -> x + 1, 2); } class B { int y, z; } }" = .ok tokens ∧
      Code.ofTokens tokens = .ok code ∧ (Outline.ofCode code).scopes.size = 6 ∧
      (Outline.ofCode code).Nested (Layout.ofTokens tokens) ∧
      ∀ state position, Walk.Visits code (Walk.start code.layout) 0 state position →
        ¬Walk.Overruns code state position := by
  have computed :
      ((Token.ofText "class A { <U> void f() { for (;;) g(x -> x + 1, 2); } class B { int y, z; } }").toOption.any
        fun tokens => (Code.ofTokens tokens).toOption.any fun code =>
          decide ((Outline.ofCode code).scopes.size = 6 ∧
            (Outline.ofCode code).Nested (Layout.ofTokens tokens))) = true := by
    decide +kernel
  obtain ⟨tokens, split, further⟩ := exists_ok_of_any computed
  obtain ⟨code, paired, read⟩ := exists_ok_of_any further
  obtain ⟨count, nested⟩ := of_decide_eq_true read
  exact ⟨tokens, code, split, paired, count, nested, (outline_nested_iff split paired).mp nested⟩

/-- A method without a body or a semicolon, as the last of its class, goes on into the next class. -/
theorem outline_not_nested :
    ∃ tokens code, Token.ofText "class A { int f() } class B { int x; }" = .ok tokens ∧
      Code.ofTokens tokens = .ok code ∧ ¬(Outline.ofCode code).Nested (Layout.ofTokens tokens) := by
  have computed :
      ((Token.ofText "class A { int f() } class B { int x; }").toOption.any fun tokens =>
        (Code.ofTokens tokens).toOption.any fun code =>
          decide ¬(Outline.ofCode code).Nested (Layout.ofTokens tokens)) = true := by
    decide +kernel
  obtain ⟨tokens, split, further⟩ := exists_ok_of_any computed
  obtain ⟨code, paired, read⟩ := exists_ok_of_any further
  exact ⟨tokens, code, split, paired, of_decide_eq_true read⟩

end ScopedRename
