import ScopedRename.Proofs.Code.Reach
import ScopedRename.Proofs.Code.Statements

/-!
The headers of declarations as code has them: where the header of a type or a method ends, where what it governs ends,
which words it declares and which of its words name types. A type lists its name, its type parameters, its components
and its supertypes in this order, and each of these lists keeps to its place.
-/

namespace ScopedRename.Code

variable (code : Code)

/-! ### Where headers end -/

def groupEnd (opener : Nat) : Nat := (code.close? opener).elim code.last (·.val)

def typeListEnd? (position : Nat) : Option Nat :=
  if code.isPunctuation (position + 2) "<" then code.angleClose? (position + 2) else none

def componentsStart (position : Nat) : Nat := (code.typeListEnd? position).elim (position + 2) (· + 1)

def componentsEnd (position : Nat) : Nat :=
  (code.afterParentheses? (code.componentsStart position)).elim (code.componentsStart position) (·.val)

def typeBody (position : Nat) : Nat := code.headerStop (code.componentsEnd position)

theorem le_componentsStart (position : Nat) : position + 2 ≤ code.componentsStart position := by
  unfold componentsStart typeListEnd?
  split
  · cases closed : code.angleClose? (position + 2) with
    | none => exact Nat.le_refl _
    | some close => exact Nat.le_succ_of_le (code.angleCloseFrom_bounds closed).1
  · exact Nat.le_refl _

theorem componentsStart_le (position : Nat) : code.componentsStart position ≤ code.componentsEnd position := by
  unfold componentsEnd
  cases code.afterParentheses? (code.componentsStart position) with
  | none => exact Nat.le_refl _
  | some next => exact Nat.le_of_lt next.property

theorem componentsEnd_le (position : Nat) : code.componentsEnd position ≤ code.typeBody position :=
  code.le_headerStop _

def methodBody (close : Nat) : Nat := (code.methodHeader false (close + 1)).2

def methodEnd (close : Nat) : Nat :=
  if code.isPunctuation (code.methodBody close) openBrace then code.groupEnd (code.methodBody close)
  else min (code.methodBody close) code.last

def headerEnd (position close : Nat) : Nat :=
  if code.isKeyword position "for" || !code.isPunctuation (close + 1) openBrace then code.statementEnd (close + 1)
  else (code.close? (close + 1)).elim (close + 1) (·.val)

def lambdaEnd (arrow : Nat) : Nat :=
  if code.isPunctuation (arrow + 1) openBrace then code.groupEnd (arrow + 1) else code.expressionEnd (arrow + 1)

theorem le_typeBody (position : Nat) : position + 2 ≤ code.typeBody position :=
  Nat.le_trans (code.le_componentsStart position)
    (Nat.le_trans (code.componentsStart_le position) (code.componentsEnd_le position))

theorem le_methodBody (close : Nat) : close + 1 ≤ code.methodBody close := code.le_methodHeader false (close + 1)

/-! ### What headers declare -/

def parameterNames (opener : Nat) : List Nat :=
  (code.segments opener true).filterMap fun segment => code.parameterName? segment.1 segment.2

def parameterTypes (opener : Nat) : List Nat :=
  (code.segments opener true).flatMap fun segment =>
    (code.parameterName? segment.1 segment.2).elim [] fun name => code.parameterTypeWords name segment.1

def typeParameters (position : Nat) : List Nat :=
  (code.typeListEnd? position).elim [] fun close => code.typeParametersFrom close 0 (position + 2)

/-- The other words of its header that name types: bounds of its type parameters, and its supertypes. -/
def headerTypes (position : Nat) : List Nat :=
  ((code.typeListEnd? position).elim [] fun close =>
      (code.identifiersIn (position + 2) (close + 1)).filter (!(code.typeParameters position).contains ·)) ++
    code.identifiersIn (code.componentsEnd position) (code.typeBody position)

def componentNames (position : Nat) : List Nat :=
  if code.isPunctuation (code.componentsStart position) "(" then code.parameterNames (code.componentsStart position)
  else []

def componentTypes (position : Nat) : List Nat :=
  if code.isPunctuation (code.componentsStart position) "(" then code.parameterTypes (code.componentsStart position)
  else []

def listedParameters (run : TypeRun) : List Nat :=
  (code.methodTypeParameters? run).elim [] fun list =>
    (code.identifiersIn (list.1 + 1) list.2).filter code.startsTypeParameter

variable {code}

theorem mem_parameterNames {opener name : Nat} :
    name ∈ code.parameterNames opener ↔
      ∃ segment ∈ code.segments opener true, code.parameterName? segment.1 segment.2 = some name := List.mem_filterMap

theorem mem_parameterTypes {opener word : Nat} :
    word ∈ code.parameterTypes opener ↔ ∃ segment ∈ code.segments opener true, ∃ name,
      code.parameterName? segment.1 segment.2 = some name ∧ word ∈ code.parameterTypeWords name segment.1 := by
  unfold parameterTypes
  rw [List.mem_flatMap]
  refine exists_congr fun segment => and_congr_right fun _ => ?_
  cases code.parameterName? segment.1 segment.2 with
  | none => simp
  | some name => simp

theorem close?_of_mem_segments {opener : Nat} {generics : Bool} {segment : Nat × Nat}
    (member : segment ∈ code.segments opener generics) :
    ∃ close, ∃ later : opener < close, code.close? opener = some ⟨close, later⟩ := by
  unfold segments at member
  split at member
  · rename_i close later closed
    exact ⟨close, later, closed⟩
  · cases member

theorem parameterNames_bounds {opener name : Nat} (member : name ∈ code.parameterNames opener) :
    ∃ close, ∃ later : opener < close, code.close? opener = some ⟨close, later⟩ ∧ opener < name ∧ name < close := by
  obtain ⟨segment, listed, named⟩ := mem_parameterNames.mp member
  obtain ⟨close, later, closed⟩ := close?_of_mem_segments listed
  have bounds := code.segments_bounds closed listed
  have place := code.parameterName?_bounds bounds.2.1 named
  exact ⟨close, later, closed, by omega, by omega⟩

theorem lt_parameterNames {opener name : Nat} (member : name ∈ code.parameterNames opener) : opener < name := by
  obtain ⟨_, _, _, before, _⟩ := parameterNames_bounds member
  exact before

theorem lt_parameterTypes {opener word : Nat} (member : word ∈ code.parameterTypes opener) : opener < word := by
  obtain ⟨segment, listed, name, named, typed⟩ := mem_parameterTypes.mp member
  obtain ⟨close, later, closed⟩ := close?_of_mem_segments listed
  exact Nat.lt_of_lt_of_le (code.segments_bounds closed listed).1 (code.le_parameterTypeWords typed)

/-- No dot follows the name of a parameter. -/
theorem Balanced.undotted (balanced : code.Balanced) {opener name : Nat} {segment : Nat × Nat}
    (member : segment ∈ code.segments opener true) (named : code.parameterName? segment.1 segment.2 = some name) :
    code.isPunctuation (name + 1) "." = false := by
  obtain ⟨close, later, closed⟩ := close?_of_mem_segments member
  unfold parameterName? at named
  dsimp only at named
  split at named
  · cases named
    rcases code.beforeBrackets_followed segment.1 segment.2 with last | closer | opens
    · rw [last]
      rcases code.segments_followed closed member with ends | comma
      · rw [ends]
        have closes := balanced.closes closed
        rw [Bool.eq_false_iff]
        intro dot
        unfold isCloser at closes
        rw [any_of_isPunctuation dot] at closes
        exact absurd closes (by decide)
      · exact code.isPunctuation_of_ne comma (by decide)
    · exact code.isPunctuation_of_ne closer (by decide)
    · exact code.isPunctuation_of_ne opens (by decide)
  · cases named

/-- A word that names a parameter and stands among the types of a list is the annotation of that very parameter. -/
theorem annotation_of_mem (balanced : code.Balanced) {opener name : Nat} (member : name ∈ code.parameterNames opener)
    (typed : name ∈ code.parameterTypes opener) :
    ∃ segment ∈ code.segments opener true, code.parameterName? segment.1 segment.2 = some name ∧
      name ∈ code.parameterTypeWords name segment.1 := by
  obtain ⟨segment, listed, named⟩ := mem_parameterNames.mp member
  obtain ⟨other, otherListed, otherName, otherNamed, inside⟩ := mem_parameterTypes.mp typed
  obtain ⟨close, later, closed⟩ := close?_of_mem_segments listed
  have place := code.parameterName?_bounds (code.segments_bounds closed listed).2.1 named
  have otherPlace := code.parameterName?_bounds (code.segments_bounds closed otherListed).2.1 otherNamed
  have low := code.le_parameterTypeWords inside
  have high := code.parameterTypeWords_le otherPlace.1 (balanced.undotted otherListed otherNamed) inside
  have apart := code.segments_ascending opener true
  have same : segment = other := by
    obtain ⟨first, inFirst, rfl⟩ := List.getElem_of_mem listed
    obtain ⟨second, inSecond, rfl⟩ := List.getElem_of_mem otherListed
    rw [List.pairwise_iff_getElem] at apart
    rcases Nat.lt_trichotomy first second with before | here | behind
    · have := apart first second inFirst inSecond before
      omega
    · subst here
      rfl
    · have := apart second first inSecond inFirst behind
      omega
  subst same
  rw [named] at otherNamed
  cases otherNamed
  exact ⟨segment, listed, named, inside⟩

theorem typeParameters_bounds {position word : Nat} (member : word ∈ code.typeParameters position) :
    code.isIdentifier word = true ∧ position + 2 ≤ word ∧ word < code.componentsStart position := by
  unfold typeParameters at member
  unfold componentsStart
  cases ends : code.typeListEnd? position with
  | none =>
      rw [ends] at member
      cases member
  | some close =>
      rw [ends] at member
      have bounds := code.mem_typeParametersFrom member
      exact ⟨bounds.1, bounds.2.1, Nat.lt_succ_of_le bounds.2.2⟩

theorem typeParameters_ascending (position : Nat) : (code.typeParameters position).Pairwise (· < ·) := by
  unfold typeParameters
  cases code.typeListEnd? position with
  | none => exact List.Pairwise.nil
  | some close => exact code.typeParametersFrom_ascending _ _ _

theorem componentNames_bounds {position name : Nat} (member : name ∈ code.componentNames position) :
    code.isPunctuation (code.componentsStart position) "(" = true ∧
      name ∈ code.parameterNames (code.componentsStart position) ∧ code.componentsStart position < name ∧
      name < code.componentsEnd position := by
  unfold componentNames at member
  split at member
  · rename_i opens
    obtain ⟨close, later, closed, low, high⟩ := parameterNames_bounds member
    refine ⟨opens, member, low, ?_⟩
    unfold componentsEnd afterParentheses? afterGroup?
    rw [if_pos opens, closed]
    exact Nat.lt_succ_of_lt high
  · cases member

theorem componentTypes_bounds {position word : Nat} (member : word ∈ code.componentTypes position) :
    word ∈ code.parameterTypes (code.componentsStart position) ∧ code.componentsStart position < word := by
  unfold componentTypes at member
  split at member
  · exact ⟨member, lt_parameterTypes member⟩
  · cases member

/-- The words of a header that name types stand among its type parameters or behind its components. -/
theorem headerTypes_bounds {position word : Nat} (member : word ∈ code.headerTypes position) :
    position + 2 ≤ word ∧ word < code.componentsStart position ∧ word ∉ code.typeParameters position ∨
      code.componentsEnd position ≤ word := by
  unfold headerTypes at member
  rcases List.mem_append.mp member with bound | further
  · unfold componentsStart
    cases ends : code.typeListEnd? position with
    | none =>
        rw [ends] at bound
        cases bound
    | some close =>
        rw [ends] at bound
        obtain ⟨inside, other⟩ := List.mem_filter.mp bound
        have bounds := (code.mem_identifiersIn.mp inside).1
        refine Or.inl ⟨bounds.1, bounds.2, ?_⟩
        simpa using other
  · exact Or.inr (code.mem_identifiersIn.mp further).1.1

theorem le_headerTypes {position word : Nat} (member : word ∈ code.headerTypes position) : position + 2 ≤ word := by
  have start := code.le_componentsStart position
  have components := code.componentsStart_le position
  rcases headerTypes_bounds member with bound | further
  · exact bound.1
  · omega

theorem lt_typeNames {position name : Nat}
    (member : name ∈ (position + 1) :: (code.typeParameters position ++ code.componentNames position)) :
    position < name := by
  have start := code.le_componentsStart position
  rcases List.mem_cons.mp member with here | further
  · omega
  · rcases List.mem_append.mp further with parameter | component
    · have := typeParameters_bounds parameter
      omega
    · have := componentNames_bounds component
      omega

theorem listedParameters_lt {run : TypeRun} {name : Nat} (listed : name ∈ code.listedParameters run) :
    name < run.start := by
  unfold listedParameters at listed
  cases found : code.methodTypeParameters? run with
  | none =>
      rw [found] at listed
      cases listed
  | some list =>
      rw [found] at listed
      have stop := code.methodTypeParameters?_stop found
      have bounds := (code.mem_identifiersIn.mp (List.mem_filter.mp listed).1).1
      omega

end ScopedRename.Code
