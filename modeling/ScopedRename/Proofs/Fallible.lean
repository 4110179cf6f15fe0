/-! Computations that can fail, taken apart step by step when they succeed and when they fail. -/

namespace ScopedRename

variable {failure value result : Type} {outcome : Except failure value} {answer : result}

theorem bind_eq_ok {next : value → Except failure result} :
    (outcome >>= next) = .ok answer ↔ ∃ reached, outcome = .ok reached ∧ next reached = .ok answer := by
  cases outcome with
  | error _ => simp [bind, Except.bind]
  | ok _ => simp [bind, Except.bind]

theorem bind_eq_error {next : value → Except failure result} {trouble : failure} :
    (outcome >>= next) = .error trouble ↔
      outcome = .error trouble ∨ ∃ reached, outcome = .ok reached ∧ next reached = .error trouble := by
  cases outcome with
  | error _ => simp [bind, Except.bind]
  | ok _ => simp [bind, Except.bind]

theorem map_eq_ok {change : value → result} :
    outcome.map change = .ok answer ↔ ∃ reached, outcome = .ok reached ∧ change reached = answer := by
  cases outcome with
  | error _ => simp [Except.map]
  | ok _ => simp [Except.map]

theorem mapError_eq_ok {other : Type} {explain : failure → other} {reached : value} :
    outcome.mapError explain = .ok reached ↔ outcome = .ok reached := by
  cases outcome with
  | error _ =>
      constructor
      · intro taken
        cases taken
      · intro taken
        cases taken
  | ok _ =>
      constructor
      · intro taken
        cases taken
        rfl
      · intro taken
        cases taken
        rfl

theorem mapError_eq_error {other : Type} {explain : failure → other} {trouble : other} :
    outcome.mapError explain = .error trouble ↔ ∃ cause, outcome = .error cause ∧ explain cause = trouble := by
  cases outcome with
  | error cause =>
      constructor
      · intro taken
        cases taken
        exact ⟨cause, rfl, rfl⟩
      · rintro ⟨_, taken, rfl⟩
        cases taken
        rfl
  | ok _ =>
      constructor
      · intro taken
        cases taken
      · rintro ⟨_, taken, _⟩
        cases taken

theorem eq_ok_of_toOption {reached : value} (taken : outcome.toOption = some reached) : outcome = .ok reached := by
  cases outcome with
  | error _ => cases taken
  | ok _ =>
      cases taken
      rfl

theorem check_eq_ok {test : Prop} [Decidable test] {trouble : failure} {next : Unit → Except failure result} :
    (if test then (throw trouble >>= next) else next ()) = .ok answer ↔ ¬test ∧ next () = .ok answer := by
  split
  · simp [throw, throwThe, MonadExceptOf.throw, bind, Except.bind, *]
  · simp [*]

section Together

variable {step : value → Except failure result} {items : List value} {answers : List result}

theorem mapM_cons_eq_ok {item : value} :
    (item :: items).mapM step = .ok answers ↔
      ∃ first others, step item = .ok first ∧ items.mapM step = .ok others ∧ answers = first :: others := by
  rw [List.mapM_cons, bind_eq_ok]
  constructor
  · rintro ⟨first, here, taken⟩
    obtain ⟨others, further, taken⟩ := bind_eq_ok.mp taken
    cases taken
    exact ⟨first, others, here, further, rfl⟩
  · rintro ⟨first, others, here, further, rfl⟩
    exact ⟨first, here, bind_eq_ok.mpr ⟨others, further, rfl⟩⟩

theorem exists_mapM_ok (steps : ∀ item ∈ items, ∃ answer, step item = .ok answer) :
    ∃ answers, items.mapM step = .ok answers := by
  induction items with
  | nil => exact ⟨[], rfl⟩
  | cons item rest ih =>
      obtain ⟨first, here⟩ := steps item List.mem_cons_self
      obtain ⟨others, further⟩ := ih fun later member => steps later (List.mem_cons_of_mem _ member)
      exact ⟨first :: others, mapM_cons_eq_ok.mpr ⟨first, others, here, further, rfl⟩⟩

theorem mapM_eq_ok_map {given : value → result} (steps : ∀ item ∈ items, step item = .ok (given item)) :
    items.mapM step = .ok (items.map given) := by
  induction items with
  | nil => rfl
  | cons item rest ih =>
      have further := ih fun later member => steps later (List.mem_cons_of_mem _ member)
      exact mapM_cons_eq_ok.mpr ⟨given item, rest.map given, steps item List.mem_cons_self, further, rfl⟩

/-- Each of the steps that succeeded together has its answer among theirs. -/
theorem answer_of_mapM_eq_ok (taken : items.mapM step = .ok answers) :
    ∀ item ∈ items, ∃ answer ∈ answers, step item = .ok answer := by
  induction items generalizing answers with
  | nil => simp
  | cons item rest ih =>
      obtain ⟨first, others, here, further, rfl⟩ := mapM_cons_eq_ok.mp taken
      intro entry member
      rcases List.mem_cons.mp member with rfl | later
      · exact ⟨first, List.mem_cons_self, here⟩
      · obtain ⟨answer, listed, same⟩ := ih further entry later
        exact ⟨answer, List.mem_cons_of_mem _ listed, same⟩

theorem step_of_mapM_eq_ok (taken : items.mapM step = .ok answers) :
    ∀ answer ∈ answers, ∃ item ∈ items, step item = .ok answer := by
  induction items generalizing answers with
  | nil =>
      cases taken
      simp
  | cons item rest ih =>
      obtain ⟨first, others, here, further, rfl⟩ := mapM_cons_eq_ok.mp taken
      intro answer member
      rcases List.mem_cons.mp member with rfl | later
      · exact ⟨item, List.mem_cons_self, here⟩
      · obtain ⟨entry, listed, same⟩ := ih further answer later
        exact ⟨entry, List.mem_cons_of_mem _ listed, same⟩

/-- Steps that fail together fail as one of them does. -/
theorem step_of_mapM_eq_error {trouble : failure} (stopped : items.mapM step = .error trouble) :
    ∃ item ∈ items, step item = .error trouble := by
  induction items with
  | nil => cases stopped
  | cons item rest ih =>
      rw [List.mapM_cons, bind_eq_error] at stopped
      rcases stopped with here | ⟨first, _, later⟩
      · exact ⟨item, List.mem_cons_self, here⟩
      · rcases bind_eq_error.mp later with further | ⟨others, _, impossible⟩
        · obtain ⟨entry, listed, same⟩ := ih further
          exact ⟨entry, List.mem_cons_of_mem _ listed, same⟩
        · cases impossible

end Together

end ScopedRename
