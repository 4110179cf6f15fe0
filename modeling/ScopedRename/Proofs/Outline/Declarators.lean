import ScopedRename.Proofs.Outline.Initialisers
import ScopedRename.Proofs.Outline.Methods

/-!
Statements that declare several variables. The walk remembers one declaration in progress, to which a comma adds a
variable if no group is open that was not open at its start. A semicolon in the body of a lambda and a variable that is
declared there make the walk give it up, and a comma among the type arguments of a created type is taken for one of the
statement. Main statement: the variables that a declaration adds are those behind the statement's own commas if and only
if the commas at which the declaration has been given up are the ones among type arguments of created types.
-/

namespace ScopedRename

def Code.declaratorCommas (code : Code) (first stop : Nat) : List Nat :=
  (code.ownCommas first stop).filter fun comma => code.isIdentifier (comma + 1) && code.endsDeclarator (comma + 2)

theorem Code.mem_declaratorCommas {code : Code} {first stop comma : Nat} :
    comma ∈ code.declaratorCommas first stop ↔
      comma ∈ code.ownCommas first stop ∧ code.isIdentifier (comma + 1) = true ∧
        code.endsDeclarator (comma + 2) = true := by
  unfold declaratorCommas
  rw [List.mem_filter, Bool.and_eq_true]

namespace Walk

variable {code : Code} {state walk origin other : Walk} {first stop position : Nat}

def declaresVariable (code : Code) (walk : Walk) (position : Nat) : Bool :=
  (code.typeBefore? position).any fun run =>
    decide (walk.step code position = (walk.variableDeclaration code position run, position + 1))

def addsDeclarator (code : Code) (walk : Walk) (position : Nat) : Bool :=
  code.isPunctuation position "," && (walk.step code position).2 == position + 2

def Adds (code : Code) (origin : Walk) (first word : Nat) : Prop :=
  ∃ read ∈ visited code origin first, addsDeclarator code read.1 read.2 = true ∧ read.2 + 1 = word ∧
    ∀ earlier ∈ visited code origin first, earlier.2 < read.2 → declaresVariable code earlier.1 earlier.2 = false

/-- The walk gives up the declaration in progress since `first`: for a variable with a type of its own, or at a semicolon
with no parenthesis or square bracket open around it. -/
def GivesUp (code : Code) (first : Nat) (walk : Walk) (position : Nat) : Prop :=
  declaresVariable code walk position = true ∨
    code.isPunctuation position ";" = true ∧ code.openRounds first position = ∅

def GivenUp (code : Code) (origin : Walk) (first position : Nat) : Prop :=
  ∃ read ∈ visited code origin first, read.2 < position ∧ GivesUp code first read.1 read.2

instance (code : Code) (origin : Walk) (first word : Nat) : Decidable (Adds code origin first word) := by
  unfold Adds
  infer_instance

instance (code : Code) (first : Nat) (walk : Walk) (position : Nat) :
    Decidable (GivesUp code first walk position) := by
  unfold GivesUp
  infer_instance

instance (code : Code) (origin : Walk) (first position : Nat) : Decidable (GivenUp code origin first position) := by
  unfold GivenUp
  infer_instance

/-! ### The declaration in progress -/

theorem step_semicolon (here : code.isPunctuation position ";" = true) :
    walk.step code position = (walk.semicolon, position + 1) := by
  rw [step_of_isPunctuation here]
  rfl

/-- A step keeps the declaration in progress, unless a semicolon or the end of a group makes it give that up. -/
theorem step_declarators (balanced : code.Balanced)
    (declares : declaresVariable code walk position = false) :
    (walk.step code position).1.declarators =
      if code.isPunctuation position ";" then walk.declarators.filter fun list => list.depth != walk.depth
      else if code.closesRound position then walk.declarators.filter fun list => list.depth ≤ walk.depth - 1
      else walk.declarators := by
  cases semicolon : code.isPunctuation position ";" with
  | true =>
      rw [step_semicolon semicolon]
      rfl
  | false =>
      have keeps := step_keeps balanced walk position
      rw [if_neg Bool.false_ne_true]
      generalize stepped : walk.step code position = result at keeps ⊢
      cases keeps with
      | quiet books places ahead noCloser =>
          rw [noCloser]
          exact congrArg (·.2.1) books
      | @declares run identifier typed =>
          unfold declaresVariable at declares
          rw [typed, Option.any_some, decide_eq_true stepped] at declares
          cases declares
      | opening opens =>
          have noCloser : code.closesRound position = false := by
            cases closes : code.closesRound position with
            | false => rfl
            | true =>
                have opener := Code.isOpener_of_opensRound opens
                rw [Code.isOpener_of_isCloser (Code.isCloser_of_closesRound closes)] at opener
                cases opener
          rw [noCloser]
          rfl
      | closing closes =>
          rw [closes]
          rfl
      | semicolon here =>
          rw [semicolon] at here
          cases here
      | claimed brace =>
          rw [Code.closesRound_of_isPunctuation brace (by decide) (by decide)]
          rfl
      | scope places depth declarators claims ahead noCloser =>
          rw [noCloser]
          exact declarators

/-- A comma adds a variable to a declaration in progress that started at the same depth and in the same number of
scopes. -/
theorem addsDeclarator_iff :
    addsDeclarator code walk position = true ↔
      code.isPunctuation position "," = true ∧ code.isIdentifier (position + 1) = true ∧
        code.endsDeclarator (position + 2) = true ∧
        ∃ list, walk.declarators = some list ∧ list.depth = walk.depth ∧ list.frames = walk.frames.length := by
  unfold addsDeclarator
  rw [Bool.and_eq_true, beq_iff_eq]
  refine and_congr_right fun here => ?_
  have reads : walk.step code position = walk.comma code position := step_of_isPunctuation here
  rw [reads]
  unfold comma
  cases walk.declarators with
  | none => simp
  | some list =>
      dsimp only
      split
      · rename_i follows
        simp only [Bool.and_eq_true, beq_iff_eq] at follows
        simp [follows]
      · rename_i other
        simp only [Bool.and_eq_true, beq_iff_eq] at other
        constructor
        · intro same
          dsimp only at same
          omega
        · rintro ⟨identifier, follows, found, same, depth, frames⟩
          cases same
          exact absurd ⟨⟨⟨depth, frames⟩, identifier⟩, follows⟩ other

/-- In front of where a step goes on a run comes to that step's word and to the words before it. -/
theorem Visits.lt_step {word : Nat} (visits : Visits code origin first walk position)
    (others : Visits code origin first other word) (before : word < (walk.step code position).2) :
    word < position ∨ other = walk ∧ word = position := by
  induction visits with
  | here inside =>
      cases others with
      | here => exact Or.inr ⟨rfl, rfl⟩
      | later _ further =>
          have behind := further.le
          omega
  | later inside further ih =>
      cases others with
      | here =>
          have behind := further.le
          omega
      | later _ others => exact ih others before

theorem GivenUp.mono {further : Nat} (given : GivenUp code origin first position) (ahead : position ≤ further) :
    GivenUp code origin first further := by
  obtain ⟨read, member, before, gives⟩ := given
  exact ⟨read, member, by omega, gives⟩

theorem givenUp_step (visits : Visits code origin first walk position) :
    GivenUp code origin first (walk.step code position).2 ↔
      GivenUp code origin first position ∨ GivesUp code first walk position := by
  have ahead := step_advances walk visits.inside
  constructor
  · rintro ⟨⟨other, word⟩, member, before, gives⟩
    rcases visits.lt_step (mem_visited.mp member) before with earlier | ⟨rfl, rfl⟩
    · exact Or.inl ⟨(other, word), member, earlier, gives⟩
    · exact Or.inr gives
  · rintro (given | gives)
    · exact given.mono (by omega)
    · exact ⟨(walk, position), mem_visited.mpr visits, ahead, gives⟩

def Redeclares (code : Code) (origin : Walk) (first position : Nat) : Prop :=
  ∃ read ∈ visited code origin first, read.2 < position ∧ declaresVariable code read.1 read.2 = true

theorem Redeclares.givenUp (declares : Redeclares code origin first position) : GivenUp code origin first position := by
  obtain ⟨read, member, before, declares⟩ := declares
  exact ⟨read, member, before, Or.inl declares⟩

theorem Redeclares.step (visits : Visits code origin first walk position)
    (declares : Redeclares code origin first position ∨ declaresVariable code walk position = true) :
    Redeclares code origin first (walk.step code position).2 := by
  have ahead := step_advances walk visits.inside
  rcases declares with ⟨read, member, before, declares⟩ | declares
  · exact ⟨read, member, by omega, declares⟩
  · exact ⟨(walk, position), mem_visited.mpr visits, ahead, declares⟩

/-- What has become of the declaration `list`: there is another one since, or it is still in progress, or it was given
up. -/
inductive Pending (code : Code) (origin : Walk) (first : Nat) (list : Declarators) (position : Nat)
    (current : Option Declarators) : Prop where
  | replaced (declares : Redeclares code origin first position)
  | kept (never : ¬GivenUp code origin first position) (same : current = some list)
  | dropped (given : GivenUp code origin first position) (none : current = none)

/-- Inside the statement the declaration is in progress until it is given up. -/
theorem Pending.step (matched : code.Matched) (concludes : code.Concludes first stop) {list : Declarators}
    {inner : List (ScopeId × Nat)} (visits : Visits code origin first walk position)
    (tracks : Tracks code state first stop position walk inner) (base : list.depth = state.depth)
    (pending : Pending code origin first list position walk.declarators) (low : first ≤ position)
    (high : position < stop) :
    Pending code origin first list (walk.step code position).2 (walk.step code position).1.declarators := by
  cases declares : declaresVariable code walk position with
  | true => exact .replaced (.step visits (Or.inr declares))
  | false =>
      have after := step_declarators matched.toBalanced declares
      cases pending with
      | replaced before => exact .replaced (.step visits (Or.inl before))
      | dropped given none =>
          rw [none, Option.filter_none, Option.filter_none, ite_self, ite_self] at after
          exact .dropped ((givenUp_step visits).mpr (Or.inl given)) after
      | kept never same =>
          have depth := tracks.depth
          rw [same] at after
          cases semicolon : code.isPunctuation position ";" with
          | true =>
              rw [if_pos semicolon] at after
              by_cases free : code.openRounds first position = ∅
              · rw [free, Finset.card_empty] at depth
                have given := (givenUp_step visits).mpr (Or.inr (Or.inr ⟨semicolon, free⟩))
                refine .dropped given (after.trans ?_)
                simp [Option.filter, base, depth]
              · have someOpen := Finset.card_pos.mpr (Finset.nonempty_iff_ne_empty.mpr free)
                refine .kept (fun given => ?_) (after.trans ?_)
                · rcases (givenUp_step visits).mp given with before | known | ⟨_, none⟩
                  · exact never before
                  · rw [declares] at known
                    cases known
                  · exact free none
                · have other : list.depth ≠ walk.depth := by omega
                  simp [Option.filter, other]
          | false =>
              have never : ¬GivenUp code origin first (walk.step code position).2 := by
                intro given
                rcases (givenUp_step visits).mp given with before | known | ⟨known, _⟩
                · exact never before
                · rw [declares] at known
                  cases known
                · rw [semicolon] at known
                  cases known
              rw [if_neg (Bool.eq_false_iff.mp semicolon)] at after
              refine .kept never (after.trans ?_)
              split
              · rename_i closes
                -- the group that ends here opened in the statement
                obtain ⟨opener, later, closed, inStatement⟩ :=
                  concludes.opened matched low high (Code.isCloser_of_closesRound closes)
                have card := Code.card_openRounds_closing matched closed closes inStatement
                have within : list.depth ≤ walk.depth - 1 := by omega
                simp [Option.filter, within]
              · rfl

theorem Pending.ends {list : Declarators} {inner : List (ScopeId × Nat)} (balanced : code.Balanced)
    (concludes : code.Concludes first stop) (visits : Visits code origin first walk stop)
    (tracks : Tracks code state first stop stop walk inner) (base : list.depth = state.depth)
    (ends : code.isPunctuation stop ";" = true ∨ code.closesRound stop = true ∧ 0 < state.depth)
    (pending : Pending code origin first list stop walk.declarators) :
    Redeclares code origin first (walk.step code stop).2 ∨ (walk.step code stop).1.declarators = none := by
  cases declares : declaresVariable code walk stop with
  | true => exact Or.inl (.step visits (Or.inr declares))
  | false =>
      have after := step_declarators balanced declares
      have depth := tracks.depth
      rw [Code.openRounds_of_outer concludes.outer, Finset.card_empty, Nat.add_zero] at depth
      cases pending with
      | replaced before => exact Or.inl (.step visits (Or.inl before))
      | dropped _ none =>
          rw [none, Option.filter_none, Option.filter_none, ite_self, ite_self] at after
          exact Or.inr after
      | kept _ same =>
          refine Or.inr (after.trans ?_)
          rw [same]
          rcases ends with semicolon | ⟨closes, inGroup⟩
          · rw [if_pos semicolon]
            simp [Option.filter, base, depth]
          · split
            · simp [Option.filter, base, depth]
            · have beyond : ¬list.depth ≤ walk.depth - 1 := by omega
              simp [Option.filter, beyond]

/-- A statement in which a walk, after declaring a variable in a state, has the declaration `list` in progress. -/
structure Declares (code : Code) (state origin : Walk) (first stop : Nat) (list : Declarators) : Prop where
  concludes : code.Concludes first stop
  ends : code.isPunctuation stop ";" = true ∨ code.closesRound stop = true ∧ 0 < state.depth
  /-- The scope around the statement goes on to its end. -/
  lasts : ∀ place ∈ state.places.head?, stop ≤ place.2
  orderly : Orderly code origin first stop
  start : Tracks code state first stop first origin []
  current : origin.declarators = some list
  depth : list.depth = state.depth
  frames : list.frames = state.frames.length

namespace Declares

variable {list : Declarators}

theorem tracks (declares : Declares code state origin first stop list) (matched : code.Matched)
    (visits : Visits code origin first walk position) (bound : position ≤ stop) :
    ∃ inner, Tracks code state first stop position walk inner ∧
      (position ∈ code.ownCommas first stop → walk.depth = state.depth ∧ walk.places = state.places) := by
  have lasts : ∀ place ∈ state.places.head?, position ≤ place.2 := fun place member =>
    Nat.le_trans bound (declares.lasts place member)
  obtain ⟨before, inner, rfl, tracks⟩ :=
    declares.orderly.tracks matched declares.concludes declares.lasts declares.start visits bound
  exact ⟨_, tracks.arrive lasts, fun own => tracks.at_comma own lasts⟩

/-- What has become of the declaration at a word that the run comes to. -/
theorem pending (declares : Declares code state origin first stop list) (matched : code.Matched)
    (visits : Visits code origin first walk position) :
    (position ≤ stop → Pending code origin first list position walk.declarators) ∧
      (stop < position → Redeclares code origin first position ∨ walk.declarators = none) := by
  have kept := visits.keeps_along (fun position walk =>
    (position ≤ stop → Pending code origin first list position walk.declarators) ∧
      (stop < position → Redeclares code origin first position ∨ walk.declarators = none)) ?_ ⟨?_, ?_⟩
  · obtain ⟨before, rfl, facts⟩ := kept
    exact facts
  · intro before position visits ⟨within, beyond⟩
    generalize arrived : before.arrive position = walk at visits ⊢
    have same : walk.declarators = before.declarators := by rw [← arrived]; rfl
    rw [← same] at within beyond
    have ahead := step_advances walk visits.inside
    -- in progress inside the statement, dropped at its end, and not taken up again behind it
    rcases Nat.lt_trichotomy position stop with inside | rfl | behind
    · obtain ⟨_, limits⟩ := declares.orderly.limits visits inside
      have limit : isLimit code first stop position stop = true := by
        unfold isLimit
        rw [beq_self_eq_true, Bool.true_or, Bool.true_or]
      have short := limits stop inside (Nat.le_refl _) limit
      have reads := next_le_reach walk (walk.step code position)
      obtain ⟨inner, tracks, _⟩ := declares.tracks matched visits (Nat.le_of_lt inside)
      refine ⟨fun _ => ?_, fun crossed => by omega⟩
      exact (within (Nat.le_of_lt inside)).step matched declares.concludes visits tracks declares.depth visits.le inside
    · obtain ⟨inner, tracks, _⟩ := declares.tracks matched visits (Nat.le_refl _)
      refine ⟨fun back => by omega, fun _ => ?_⟩
      exact (within (Nat.le_refl _)).ends matched.toBalanced declares.concludes visits tracks declares.depth declares.ends
    · refine ⟨fun back => by omega, fun _ => ?_⟩
      cases typed : declaresVariable code walk position with
      | true => exact Or.inl (.step visits (Or.inr typed))
      | false =>
          rcases beyond behind with before | none
          · exact Or.inl (.step visits (Or.inl before))
          · have after := step_declarators matched.toBalanced typed
            rw [none, Option.filter_none, Option.filter_none, ite_self, ite_self] at after
            exact Or.inr after
  · refine fun _ => .kept ?_ declares.current
    rintro ⟨⟨other, word⟩, member, before, _⟩
    have behind := (mem_visited.mp member).le
    dsimp only at before
    omega
  · intro beyond
    have ordered := declares.concludes.ordered
    omega

/-- A declaration that has not been given up is in progress. -/
theorem current_of_not_givenUp (declares : Declares code state origin first stop list) (matched : code.Matched)
    (visits : Visits code origin first walk position) (bound : position ≤ stop)
    (never : ¬GivenUp code origin first position) : walk.declarators = some list := by
  cases (declares.pending matched visits).1 bound with
  | replaced before => exact absurd before.givenUp never
  | dropped given _ => exact absurd given never
  | kept _ same => exact same

theorem visits_comma (declares : Declares code state origin first stop list) {comma : Nat}
    (own : comma ∈ code.ownCommas first stop) : ∃ walk, Visits code origin first walk comma := by
  obtain ⟨bounds, here, _⟩ := Code.mem_ownCommas.mp own
  obtain ⟨walk, position, visits, before, read⟩ :=
    Visits.exists_reading origin bounds.1 (code.isPunctuation_lt_size here)
  rcases Nat.eq_or_lt_of_le before with rfl | earlier
  · exact ⟨walk, visits⟩
  · obtain ⟨_, limits⟩ := declares.orderly.limits visits (by omega)
    have short := limits comma earlier (by omega) (isLimit_of_mem_ownCommas own)
    have reads := next_le_reach walk (walk.step code position)
    omega

/-- A declaration adds the names behind the statement's own commas, up to where it is given up. -/
theorem adds_iff (declares : Declares code state origin first stop list) (matched : code.Matched) (word : Nat) :
    Adds code origin first word ↔
      ∃ comma ∈ code.declaratorCommas first stop, ¬GivenUp code origin first comma ∧ comma + 1 = word := by
  constructor
  · rintro ⟨⟨walk, comma⟩, member, adds, follows, plain⟩
    have visits := mem_visited.mp member
    have fresh : ¬Redeclares code origin first comma := by
      rintro ⟨read, known, before, typed⟩
      rw [plain read known before] at typed
      cases typed
    obtain ⟨here, identifier, ending, current, found, depth, frames⟩ := addsDeclarator_iff.mp adds
    obtain ⟨within, beyond⟩ := declares.pending matched visits
    have bound : comma ≤ stop := by
      by_contra behind
      rcases beyond (by omega) with before | none
      · exact fresh before
      · rw [none] at found
        cases found
    cases within bound with
    | replaced before => exact absurd before fresh
    | dropped _ none =>
        dsimp only at found none
        rw [none] at found
        cases found
    | kept never same =>
        dsimp only at found same depth frames
        rw [same] at found
        cases found
        have high : comma < stop := by
          refine Nat.lt_of_le_of_ne bound ?_
          rintro rfl
          rcases declares.concludes.ends with semicolon | closes
          · rw [code.isPunctuation_of_ne semicolon (by decide)] at here
            cases here
          · rw [Code.isCloser_of_isPunctuation here (by decide)] at closes
            cases closes
        obtain ⟨inner, tracks, _⟩ := declares.tracks matched visits bound
        have outer := tracks.outer_of_same matched declares.concludes high (depth.symm.trans declares.depth)
          (frames.symm.trans declares.frames)
        have own := Code.mem_ownCommas.mpr ⟨⟨visits.le, high⟩, here, outer⟩
        exact ⟨comma, Code.mem_declaratorCommas.mpr ⟨own, identifier, ending⟩, never, follows⟩
  · rintro ⟨comma, member, never, follows⟩
    obtain ⟨own, identifier, ending⟩ := Code.mem_declaratorCommas.mp member
    obtain ⟨bounds, here, _⟩ := Code.mem_ownCommas.mp own
    obtain ⟨walk, visits⟩ := declares.visits_comma own
    obtain ⟨inner, _, level⟩ := declares.tracks matched visits (by omega)
    obtain ⟨depth, places⟩ := level own
    refine ⟨(walk, comma), mem_visited.mpr visits, ?_, follows, ?_⟩
    · have current := declares.current_of_not_givenUp matched visits (by omega) never
      refine addsDeclarator_iff.mpr ⟨here, identifier, ending, list, current, declares.depth.trans depth.symm, ?_⟩
      have size := congrArg List.length places
      unfold Walk.places at size
      rw [List.length_map, List.length_map] at size
      rw [declares.frames, size]
    · intro read known before
      cases typed : declaresVariable code read.1 read.2 with
      | false => rfl
      | true => exact absurd ⟨read, known, before, Or.inl typed⟩ never

end Declares

/-! ### Kind and scope -/

theorem step_entries (inside : position < code.size) :
    ∃ added, (walk.step code position).1.entries = walk.entries ++ added := by
  have effect := step_effect walk inside
  generalize walk.step code position = stepped at effect ⊢
  obtain ⟨after, next⟩ := stepped
  have entries {added : List Declaration} (list : after.declarations.toList = walk.declarations.toList ++ added) :
      ∃ added, after.entries = walk.entries ++ added := by
    unfold Outline.entries
    rw [list, List.map_append]
    exact ⟨_, rfl⟩
  cases effect with
  | stays _ fills =>
      obtain ⟨added, list, _⟩ := fills.declared
      exact entries list
  | opens _ opening =>
      obtain ⟨first, second, third, list, _⟩ := opening.declared
      exact entries list

theorem run_entries (code : Code) (walk : Walk) (position : Nat) {entry : DeclarationKind × ScopeId × Nat}
    (member : entry ∈ walk.entries) : entry ∈ (run code walk position).entries := by
  obtain ⟨_, _, kept⟩ := run_visited (fun _ walk => entry ∈ walk.entries) (fun walk position visits member => by
    obtain ⟨added, list⟩ := @step_entries code (walk.arrive position) position visits.inside
    rw [list]
    exact List.mem_append_left added member) member
  exact kept

theorem mem_entries_declare (walk : Walk) (declaration : Declaration) :
    (declaration.kind, declaration.scope, declaration.position) ∈ (walk.declare declaration).entries := by
  have declared := Enters.declare walk (@rfl _ (declaration.kind, declaration.scope, declaration.position))
  rw [declared.entries]
  exact List.mem_append_right _ (List.mem_singleton_self _)

theorem variableDeclaration_starts (code : Code) (walk : Walk) (position : Nat) (run : TypeRun) :
    ∃ kind type, (kind, walk.frame.scope, position) ∈ (walk.variableDeclaration code position run).entries ∧
      (walk.variableDeclaration code position run).declarators =
        some ⟨kind, type, walk.depth, walk.frames.length⟩ := by
  refine ⟨_, _, ?_, rfl⟩
  exact mem_entries_declare (walk.markTypes code run.identifiers) _

/-- A variable that a comma adds has the kind of the declaration in progress. -/
theorem addsDeclarator_enters {list : Declarators} (adds : addsDeclarator code walk position = true)
    (current : walk.declarators = some list) :
    (list.kind, walk.frame.scope, position + 1) ∈ (walk.step code position).1.entries := by
  obtain ⟨here, identifier, ending, found, same, depth, frames⟩ := addsDeclarator_iff.mp adds
  rw [current] at same
  cases same
  have follows : (list.depth == walk.depth && list.frames == walk.frames.length && code.isIdentifier (position + 1)
      && code.endsDeclarator (position + 2)) = true := by
    rw [depth, frames, identifier, ending, beq_self_eq_true, beq_self_eq_true]
    rfl
  have reads : walk.step code position = walk.comma code position := step_of_isPunctuation here
  rw [reads]
  unfold comma
  rw [current]
  dsimp only
  rw [if_pos follows]
  exact mem_entries_declare (walk.assign (position + 1) walk.frame.scope) _

namespace Declares

variable {list : Declarators}

/-- What a declaration adds has its kind, and the scope of its first variable. -/
theorem mem_entries (declares : Declares code state origin first stop list) (matched : code.Matched) {word : Nat}
    (adds : Adds code origin first word) :
    (list.kind, state.frame.scope, word) ∈ (run code origin first).entries := by
  obtain ⟨comma, member, never, follows⟩ := (declares.adds_iff matched word).mp adds
  obtain ⟨⟨walk, position⟩, visited, adds, here, _⟩ := adds
  dsimp only at adds here
  have same : position = comma := by omega
  subst same
  obtain ⟨own, _, _⟩ := Code.mem_declaratorCommas.mp member
  have bounds := (Code.mem_ownCommas.mp own).1
  have visits := mem_visited.mp visited
  obtain ⟨inner, _, level⟩ := declares.tracks matched visits (by omega)
  have current := declares.current_of_not_givenUp matched visits (by omega) never
  have entered := addsDeclarator_enters adds current
  rw [frame_scope_of_places (level own).2, here] at entered
  rw [visits.run_eq]
  exact run_entries code _ _ entered

end Declares

end Walk

open Walk

/-- A declaration of variables that ends with a semicolon, or with the group around it, adds variables of its own kind
and scope. They are the ones behind its own commas if and only if it has been given up at those of these commas that
stand among the type arguments of a created type, and only there. -/
theorem declarators_exact_iff {tokens : List Token} {code : Code} (paired : Code.ofTokens tokens = .ok code)
    {state : Walk} {position stop : Nat} {run : TypeRun}
    (visits : Visits code (Walk.start code.layout) 0 state position) (identifier : code.isIdentifier position = true)
    (reads : state.step code position = (state.variableDeclaration code position run, position + 1))
    (concludes : code.declarationEnd? (position + 1) = some stop)
    (ends : code.isPunctuation stop ";" = true ∨ code.closesRound stop = true ∧ 0 < state.depth)
    (lasts : ∀ place ∈ state.places.head?, stop ≤ place.2)
    (orderly : Orderly code (state.variableDeclaration code position run) (position + 1) stop) :
    (∃ kind, (kind, state.frame.scope, position) ∈ (Outline.ofCode code).entries ∧
      ∀ word, Adds code (state.variableDeclaration code position run) (position + 1) word →
        (kind, state.frame.scope, word) ∈ (Outline.ofCode code).entries) ∧
      ((∀ word, Adds code (state.variableDeclaration code position run) (position + 1) word ↔
          ∃ comma ∈ code.declaratorCommas (position + 1) stop,
            code.isCreationArgument comma = false ∧ comma + 1 = word) ↔
        ∀ comma ∈ code.declaratorCommas (position + 1) stop,
          (GivenUp code (state.variableDeclaration code position run) (position + 1) comma ↔
            code.isCreationArgument comma = true)) := by
  have matched := Code.ofTokens_matched paired
  have statement := Code.concludes_of_declarationEnd? concludes
  have outline : (Outline.ofCode code).entries =
      (Walk.run code (state.variableDeclaration code position run) (position + 1)).entries := by
    unfold Outline.ofCode
    rw [visits.run_eq, reads]
  obtain ⟨kind, type, entered, current⟩ := variableDeclaration_starts code state position run
  have unclaimed : ∀ brace ∈ state.claimed, brace < position + 1 ∨ stop ≤ brace := by
    intro brace known
    rcases (visits.claimsAhead matched.toBalanced).outside matched.toBalanced identifier statement known with
      before | behind
    · exact Or.inl (Nat.lt_succ_of_le before)
    · exact Or.inr behind
  have declares : Declares code state (state.variableDeclaration code position run) (position + 1) stop _ :=
    ⟨statement, ends, lasts, orderly, .start rfl rfl unclaimed, current, rfl, rfl⟩
  rw [outline]
  refine ⟨⟨kind, run_entries code _ _ entered, fun word adds => declares.mem_entries matched adds⟩, ?_⟩
  constructor
  · intro added comma member
    have only (holds : Nat → Prop) :
        (∃ other ∈ code.declaratorCommas (position + 1) stop, holds other ∧ other + 1 = comma + 1) ↔ holds comma :=
      ⟨fun ⟨_, _, here, same⟩ => Nat.succ.inj same ▸ here, fun here => ⟨comma, member, here, rfl⟩⟩
    have here := added (comma + 1)
    rw [declares.adds_iff matched, only, only] at here
    rw [← not_iff_not, here, Bool.not_eq_true]
  · intro given word
    rw [declares.adds_iff matched]
    refine exists_congr fun comma => and_congr_right fun member => and_congr_left fun _ => ?_
    rw [given comma member, Bool.not_eq_true]

/-- Four variables, with a call, an array and a lambda in their initialisers. -/
theorem declarators_exact_iff_initialised :
    ∃ tokens code state run stop,
      Token.ofText "class K { X a = g(1, 2), b[] = { 3 }, c = x -> x, d; }" = .ok tokens ∧
      Code.ofTokens tokens = .ok code ∧ Visits code (Walk.start code.layout) 0 state 4 ∧
      code.isIdentifier 4 = true ∧
      state.step code 4 = (state.variableDeclaration code 4 run, 5) ∧
      code.declarationEnd? 5 = some stop ∧ code.isPunctuation stop ";" = true ∧
      (∀ place ∈ state.places.head?, stop ≤ place.2) ∧
      Orderly code (state.variableDeclaration code 4 run) 5 stop ∧
      code.declaratorCommas 5 stop = [12, 20, 26] ∧
      ∀ word, Adds code (state.variableDeclaration code 4 run) 5 word ↔
        ∃ comma ∈ code.declaratorCommas 5 stop, code.isCreationArgument comma = false ∧ comma + 1 = word := by
  have computed : ((Token.ofText "class K { X a = g(1, 2), b[] = { 3 }, c = x -> x, d; }").toOption.any fun tokens =>
      (Code.ofTokens tokens).toOption.any fun code =>
        (visited code (Walk.start code.layout) 0).any fun read => decide (read.2 = 4) &&
          (code.typeBefore? 4).any fun run => (code.declarationEnd? 5).any fun stop =>
            decide (code.isIdentifier 4 = true ∧
              read.1.step code 4 = (read.1.variableDeclaration code 4 run, 5) ∧
              code.isPunctuation stop ";" = true ∧ (∀ place ∈ read.1.places.head?, stop ≤ place.2) ∧
              Orderly code (read.1.variableDeclaration code 4 run) 5 stop ∧
              code.declaratorCommas 5 stop = [12, 20, 26] ∧
              ∀ comma ∈ code.declaratorCommas 5 stop,
                (GivenUp code (read.1.variableDeclaration code 4 run) 5 comma ↔
                  code.isCreationArgument comma = true))) = true := by
    decide +kernel
  obtain ⟨tokens, split, further⟩ := exists_ok_of_any computed
  obtain ⟨code, paired, walked⟩ := exists_ok_of_any further
  obtain ⟨⟨state, position⟩, member, read⟩ := List.any_eq_true.mp walked
  obtain ⟨here, typed⟩ := Bool.and_eq_true_iff.mp read
  obtain ⟨run, _, ended⟩ := (Option.any_eq_true _ _).mp typed
  obtain ⟨stop, concludes, facts⟩ := (Option.any_eq_true _ _).mp ended
  obtain ⟨identifier, reads, ends, lasts, orderly, commas, given⟩ := of_decide_eq_true facts
  cases of_decide_eq_true here
  have visits := mem_visited.mp member
  exact ⟨tokens, code, state, run, stop, split, paired, visits, identifier, reads, concludes, ends, lasts, orderly, commas,
    (declarators_exact_iff paired visits identifier reads concludes (Or.inl ends) lasts orderly).2.mpr given⟩

/-- A type argument of a created object is declared as if it were another variable of the statement. -/
theorem type_argument_declared_as_variable :
    ∃ tokens code state run stop, Token.ofText "class K { Foo m = new Foo<A, B, C>(); }" = .ok tokens ∧
      Code.ofTokens tokens = .ok code ∧ Visits code (Walk.start code.layout) 0 state 4 ∧ code.isIdentifier 4 = true ∧
      state.step code 4 = (state.variableDeclaration code 4 run, 5) ∧ code.declarationEnd? 5 = some stop ∧
      code.isPunctuation stop ";" = true ∧ Adds code (state.variableDeclaration code 4 run) 5 11 ∧
      ¬∃ comma ∈ code.declaratorCommas 5 stop, code.isCreationArgument comma = false ∧ comma + 1 = 11 := by
  have computed : ((Token.ofText "class K { Foo m = new Foo<A, B, C>(); }").toOption.any fun tokens =>
      (Code.ofTokens tokens).toOption.any fun code => (visited code (Walk.start code.layout) 0).any fun read =>
        decide (read.2 = 4) && (code.typeBefore? 4).any fun run => (code.declarationEnd? 5).any fun stop =>
          decide (code.isIdentifier 4 = true ∧
            read.1.step code 4 = (read.1.variableDeclaration code 4 run, 5) ∧ code.isPunctuation stop ";" = true ∧
            Adds code (read.1.variableDeclaration code 4 run) 5 11 ∧
            ¬∃ comma ∈ code.declaratorCommas 5 stop,
              code.isCreationArgument comma = false ∧ comma + 1 = 11)) = true := by
    decide +kernel
  obtain ⟨tokens, split, further⟩ := exists_ok_of_any computed
  obtain ⟨code, paired, walked⟩ := exists_ok_of_any further
  obtain ⟨⟨state, position⟩, member, read⟩ := List.any_eq_true.mp walked
  obtain ⟨here, typed⟩ := Bool.and_eq_true_iff.mp read
  obtain ⟨run, _, ended⟩ := (Option.any_eq_true _ _).mp typed
  obtain ⟨stop, concludes, facts⟩ := (Option.any_eq_true _ _).mp ended
  obtain ⟨identifier, reads, ends, added, unlisted⟩ := of_decide_eq_true facts
  cases of_decide_eq_true here
  exact ⟨tokens, code, state, run, stop, split, paired, mem_visited.mp member, identifier, reads, concludes, ends, added,
    unlisted⟩

end ScopedRename
