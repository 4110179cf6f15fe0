import ScopedRename.Proofs.Code.Separators

/-!
Where a lambda starts and where its body ends. A body without braces goes on up to a comma or semicolon outside its
groups and outside the type arguments of the types it creates, or up to the closer of the group around it. The scan for
the end of an expression steps over groups only. Main statement: it stops where the body ends if and only if none of the
body's own commas stands among the type arguments of a created type.
-/

namespace ScopedRename.Code

variable (code : Code)

/-- The parameters of a lambda start at a position, and its arrow stands at another: behind a bare name that is no case
label, or behind a list in parentheses. -/
inductive StartsLambda (position : Nat) : Nat → Prop where
  | name (identifier : code.isIdentifier position = true) (arrow : code.isPunctuation (position + 1) "->" = true)
      (noLabel : code.isCaseLabel position = false) : StartsLambda position (position + 1)
  | list {close : Nat} {later : position < close} (opens : code.isPunctuation position "(" = true)
      (closed : code.close? position = some ⟨close, later⟩) (arrow : code.isPunctuation (close + 1) "->" = true) :
      StartsLambda position (close + 1)

def endsBody (first position : Nat) : Bool :=
  code.isOuter first position
    && (code.isCloser position
      || (code.isPunctuation position "," || code.isPunctuation position ";") && !code.isCreationArgument position)

def bodyStop (first : Nat) : Nat :=
  ((List.range' first (code.size - first)).find? (code.endsBody first)).getD code.size

structure Stretch (first last : Nat) : Prop where
  stops : code.size ≤ last + 1 ∨ code.isBoundary (last + 1) = true
  inner : ∀ word, first ≤ word → word ≤ last → code.Level first word → code.isBoundary word = false

variable {code} {first position stop : Nat}

namespace StartsLambda

variable {arrow : Nat}

theorem ordered (starts : code.StartsLambda position arrow) : position < arrow := by
  cases starts with
  | name => exact Nat.lt_succ_self _
  | list _ closed => omega

theorem isArrow (starts : code.StartsLambda position arrow) : code.isPunctuation arrow "->" = true := by
  cases starts with
  | name _ here => exact here
  | list _ _ here => exact here

end StartsLambda

/-! ### The scan -/

theorem expressionEndFrom_stretch (reached : stop + 1 = position) (low : first ≤ position)
    (inner : ∀ word, first ≤ word → word ≤ stop → code.Level first word → code.isBoundary word = false) :
    code.Stretch first (code.expressionEndFrom stop position) := by
  fun_induction code.expressionEndFrom stop position with
  | case1 stop position _ boundary =>
      refine ⟨Or.inr ?_, inner⟩
      rw [reached]
      exact boundary
  | case2 stop position _ noBoundary next later group ih =>
      obtain ⟨closer, behind, closed, rfl⟩ := afterGroup?_eq_some group
      refine ih rfl (by omega) ?_
      intro word ahead before outer
      rcases Nat.lt_trichotomy word position with earlier | rfl | inside
      · exact inner word ahead (by omega) outer
      · exact Bool.eq_false_iff.mpr noBoundary
      · -- the group that opens at the position is still open there
        have ends := outer position closer behind low inside closed
        omega
  | case3 stop position _ noBoundary noGroup ih =>
      refine ih rfl (by omega) ?_
      intro word ahead before outer
      rcases Nat.eq_or_lt_of_le before with rfl | earlier
      · exact Bool.eq_false_iff.mpr noBoundary
      · exact inner word ahead (by omega) outer
  | case4 stop position outside => exact ⟨Or.inl (by omega), inner⟩

theorem expressionEnd_stretch (inside : first < code.size) (starts : code.isBoundary first = false) :
    code.Stretch first (code.expressionEnd first) := by
  have start : min first code.last = first := by
    unfold Code.last
    omega
  have goesOn : ¬(code.isPunctuation first "," || code.isPunctuation first ";" || code.isCloser first) = true :=
    Bool.eq_false_iff.mp starts
  unfold expressionEnd
  rw [start, expressionEndFrom, if_pos inside, if_neg goesOn]
  have alone : ∀ word, first ≤ word → word ≤ first → code.Level first word → code.isBoundary word = false := by
    intro word low high _
    rwa [Nat.le_antisymm high low]
  split
  · rename_i next later group
    obtain ⟨closer, behind, closed, rfl⟩ := afterGroup?_eq_some group
    refine expressionEndFrom_stretch rfl (by omega) ?_
    intro word low high outer
    rcases Nat.eq_or_lt_of_le low with rfl | inner
    · exact starts
    · have ends := outer first closer behind (Nat.le_refl _) inner closed
      omega
  · exact expressionEndFrom_stretch rfl (Nat.le_succ _) alone

/-! ### The body -/

theorem endsBody_iff :
    code.endsBody first position = true ↔
      code.Level first position ∧ (code.isCloser position = true ∨
        (code.isPunctuation position "," = true ∨ code.isPunctuation position ";" = true) ∧
          code.isCreationArgument position = false) := by
  unfold endsBody
  rw [Bool.and_eq_true, isOuter_iff, Bool.or_eq_true, Bool.and_eq_true, Bool.or_eq_true, Bool.not_eq_true']

theorem bodyStop_le (code : Code) (first : Nat) : code.bodyStop first ≤ code.size := by
  unfold bodyStop
  cases found : (List.range' first (code.size - first)).find? (code.endsBody first) with
  | none => exact Nat.le_refl _
  | some stop =>
      have bounds := List.mem_range'_1.mp (List.mem_of_find?_eq_some found)
      rw [Option.getD_some]
      omega

theorem endsBody_of_lt (low : first ≤ position) (before : position < code.bodyStop first) :
    code.endsBody first position = false := by
  unfold bodyStop at before
  cases found : (List.range' first (code.size - first)).find? (code.endsBody first) with
  | none =>
      rw [found, Option.getD_none] at before
      exact Bool.eq_false_iff.mpr (List.find?_eq_none.mp found position (List.mem_range'_1.mpr ⟨low, by omega⟩))
  | some stop =>
      rw [found, Option.getD_some] at before
      have earlier := (List.find?_range'_eq_some.mp found).2.2 position low before
      rwa [Bool.not_eq_true'] at earlier

theorem endsBody_bodyStop (inside : code.bodyStop first < code.size) :
    code.endsBody first (code.bodyStop first) = true := by
  unfold bodyStop at inside ⊢
  cases found : (List.range' first (code.size - first)).find? (code.endsBody first) with
  | none =>
      rw [found] at inside
      exact absurd inside (Nat.lt_irrefl _)
  | some stop => exact List.find?_some found

theorem isTypePart_of_isCreationArgument {word : Nat} (inside : code.isCreationArgument word = true)
    (near : position = word ∨ position + 1 = word) : code.isTypePart position = true := by
  obtain ⟨start, close, closed, behind, before⟩ := isCreationArgument_iff.mp inside
  unfold isTypePart
  rw [(creationClose?_parts closed).2.2 position (by omega) (by omega), Bool.true_or]

theorem isBoundary_of_endsBody (ends : code.endsBody first position = true) : code.isBoundary position = true := by
  unfold isBoundary
  rw [Bool.or_eq_true, Bool.or_eq_true]
  rcases (endsBody_iff.mp ends).2 with closer | ⟨mark, _⟩
  · exact Or.inr closer
  · exact Or.inl mark

theorem endsBody_of_isBoundary (outer : code.Level first position) (boundary : code.isBoundary position = true)
    (free : code.isCreationArgument position = false) : code.endsBody first position = true := by
  unfold isBoundary at boundary
  rw [Bool.or_eq_true, Bool.or_eq_true] at boundary
  exact endsBody_iff.mpr ⟨outer, boundary.symm.imp id fun mark => ⟨mark, free⟩⟩

/-- The scan never gets past the body. -/
theorem expressionEnd_lt_bodyStop (portion : code.Portion first (code.expressionEnd first))
    (stretch : code.Stretch first (code.expressionEnd first)) (nonempty : first < code.bodyStop first) :
    code.expressionEnd first < code.bodyStop first := by
  by_contra within
  have last := portion.inside
  have ends : code.endsBody first (code.bodyStop first) = true := endsBody_bodyStop (by omega)
  have goesOn := stretch.inner (code.bodyStop first) (Nat.le_of_lt nonempty) (by omega) (endsBody_iff.mp ends).1
  rw [isBoundary_of_endsBody ends] at goesOn
  cases goesOn

/-- The scan for the end of an expression that goes on with a word stops where the body ends if and only if no comma of
the body's level stands among the type arguments of a created type. -/
theorem expressionEnd_eq_bodyStop_iff (balanced : code.Balanced) (nonempty : first < code.bodyStop first)
    (free : code.isCreationArgument first = false) :
    code.expressionEnd first + 1 = code.bodyStop first ↔
      ∀ comma ∈ code.ownCommas first (code.bodyStop first), code.isCreationArgument comma = false := by
  have bound := code.bodyStop_le first
  have inside : first < code.size := Nat.lt_of_lt_of_le nonempty bound
  have starts : code.isBoundary first = false := by
    rw [Bool.eq_false_iff]
    intro boundary
    have goesOn := endsBody_of_lt (Nat.le_refl _) nonempty
    rw [endsBody_of_isBoundary (Level.refl _) boundary free] at goesOn
    cases goesOn
  have portion := expressionEnd_portion balanced inside
  have stretch := expressionEnd_stretch inside starts
  have before := expressionEnd_lt_bodyStop portion stretch nonempty
  constructor
  · intro same comma own
    obtain ⟨bounds, here, outer⟩ := mem_ownCommas.mp own
    have other := stretch.inner comma bounds.1 (by omega) outer
    unfold isBoundary at other
    rw [here] at other
    cases other
  · intro plain
    by_contra different
    have further : code.expressionEnd first + 1 < code.bodyStop first := by omega
    have goesOn := endsBody_of_lt (Nat.le_succ_of_le portion.ordered) further
    rw [Bool.eq_false_iff] at goesOn
    have boundary := stretch.stops.resolve_left (by omega)
    unfold isBoundary at boundary
    rw [Bool.or_eq_true, Bool.or_eq_true] at boundary
    -- of the marks that stop the scan only a comma can stand among type arguments
    refine goesOn (endsBody_iff.mpr ⟨portion.level, ?_⟩)
    rcases boundary with (comma | semicolon) | closer
    · have own := mem_ownCommas.mpr ⟨⟨Nat.le_succ_of_le portion.ordered, further⟩, comma, portion.level⟩
      exact Or.inr ⟨Or.inl comma, plain _ own⟩
    · refine Or.inr ⟨Or.inr semicolon, ?_⟩
      rw [Bool.eq_false_iff]
      intro argument
      have part := isTypePart_of_isCreationArgument argument (Or.inl rfl)
      rw [code.isTypePart_of_isPunctuation semicolon] at part
      exact absurd part (by decide)
    · exact Or.inl closer

theorem isCreationArgument_of_isArrow {arrow : Nat} (isArrow : code.isPunctuation arrow "->" = true) :
    code.isCreationArgument (arrow + 1) = false := by
  rw [Bool.eq_false_iff]
  intro argument
  have part := isTypePart_of_isCreationArgument argument (Or.inr rfl)
  rw [code.isTypePart_of_isPunctuation isArrow] at part
  exact absurd part (by decide)

end ScopedRename.Code
