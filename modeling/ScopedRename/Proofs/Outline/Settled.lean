import ScopedRename.Proofs.Outline.Framing
import ScopedRename.Proofs.Outline.Roles

/-!
Words that a walk has done with. A step goes back over words that were read only where a name has a type, or a list of
type parameters, directly in front of it. Main statement: once a word that no type is made of was read behind a word, no
later step declares that word, marks it, clears its mark or gives it another home.
-/

namespace ScopedRename

namespace Outline

def declaredAt (outline : Outline) (word : Nat) : List Declaration :=
  outline.declarations.toList.filter (·.position == word)

theorem mem_declaredAt {outline : Outline} {word : Nat} {declaration : Declaration} :
    declaration ∈ outline.declaredAt word ↔ declaration ∈ outline.declarations ∧ declaration.position = word := by
  unfold declaredAt
  rw [List.mem_filter, Array.mem_toList_iff, beq_iff_eq]

theorem count_names (outline : Outline) (word : Nat) :
    outline.names.count word = (outline.declaredAt word).length := by
  unfold names declaredAt
  rw [List.count_eq_countP, List.countP_map, List.countP_eq_length_filter]
  rfl

end Outline

namespace Walk

variable {code : Code} {walk before middle after : Walk} {position word : Nat}

structure Settles (word : Nat) (before after : Walk) : Prop where
  declared : after.declaredAt word = before.declaredAt word
  marked : after.isTypeWord word = before.isTypeWord word
  home : after.homeAt? word = before.homeAt? word

namespace Settles

theorem refl (word : Nat) (walk : Walk) : Settles word walk walk := ⟨rfl, rfl, rfl⟩

theorem trans (left : Settles word before middle) (right : Settles word middle after) : Settles word before after :=
  ⟨right.declared.trans left.declared, right.marked.trans left.marked, right.home.trans left.home⟩

theorem arrive (walk : Walk) (other : position ≠ word) : Settles word walk (walk.arrive position) :=
  ⟨rfl, rfl, (homeAt?_arrive _ _ _).trans (if_neg fun here => other here.1)⟩

theorem count (settles : Settles word before after) : after.names.count word = before.names.count word := by
  rw [Outline.count_names, Outline.count_names, settles.declared]

theorem mem_names (settles : Settles word before after) : word ∈ after.names ↔ word ∈ before.names := by
  rw [← List.count_pos_iff, ← List.count_pos_iff, settles.count]

theorem mem_declarations (settles : Settles word before after) {declaration : Declaration}
    (here : declaration.position = word) : declaration ∈ after.declarations ↔ declaration ∈ before.declarations := by
  have same : declaration ∈ after.declaredAt word ↔ declaration ∈ before.declaredAt word := by rw [settles.declared]
  rw [Outline.mem_declaredAt, Outline.mem_declaredAt, and_iff_left here, and_iff_left here] at same
  exact same

end Settles

/-- A word that no type is made of stands at the word or behind it, in front of the position. -/
def Barred (code : Code) (word position : Nat) : Prop :=
  ∃ barrier, word ≤ barrier ∧ barrier < position ∧ code.isTypePart barrier = false

/-- Parentheses, braces and semicolons bar. -/
theorem Barred.of_isPunctuation {barrier : Nat} {mark : String} (here : code.isPunctuation barrier mark = true)
    (noType : [",", ".", "?", "&", "[", "]", "<", ">", "..."].contains mark = false) (low : word ≤ barrier)
    (high : barrier < position) : Barred code word position :=
  ⟨barrier, low, high, (code.isTypePart_of_isPunctuation here).trans noType⟩

theorem Barred.lt (barred : Barred code word position) : word < position := by
  obtain ⟨barrier, low, high, _⟩ := barred
  omega

theorem Barred.mono (barred : Barred code word position) {further : Nat} (ahead : position ≤ further) :
    Barred code word further := by
  obtain ⟨barrier, low, high, other⟩ := barred
  exact ⟨barrier, low, by omega, other⟩

private theorem declaredAt_append {added : List Declaration}
    (list : after.declarations.toList = before.declarations.toList ++ added)
    (elsewhere : ∀ declaration ∈ added, declaration.position ≠ word) :
    after.declaredAt word = before.declaredAt word := by
  have none : added.filter (·.position == word) = [] :=
    List.filter_eq_nil_iff.mpr fun declaration member here => elsewhere declaration member (beq_iff_eq.mp here)
  unfold Outline.declaredAt
  rw [list, List.filter_append, none, List.append_nil]

/-- A list of type parameters in front of a method does not reach over a barrier. -/
private theorem Opens.before_barrier {start middle next : Nat} {extent : Extent}
    (opens : Opens code walk position start middle next extent) (barred : Barred code word position) :
    ¬(start ≤ word ∧ word < position) := by
  obtain ⟨barrier, low, high, other⟩ := barred
  rintro ⟨taken, _⟩
  have part := (opens.listed (by omega)).1 barrier (by omega) high
  rw [other] at part
  cases part

theorem step_declaredAt (barred : Barred code word position) (inside : position < code.size) :
    (walk.step code position).1.declaredAt word = walk.declaredAt word ∧
      (walk.step code position).1.homeAt? word = walk.homeAt? word := by
  have effect := step_effect walk inside
  have behind := barred.lt
  generalize walk.step code position = stepped at effect ⊢
  obtain ⟨after, next⟩ := stepped
  cases effect with
  | stays _ fills =>
      obtain ⟨added, list, _, facts⟩ := fills.declared
      refine ⟨declaredAt_append list fun declaration member => ?_, fills.kept word (by omega)⟩
      have place := (facts declaration member).2.2.1
      omega
  | @opens _ start middle _ extent opens opening =>
      have ordered := opens.ordered
      have untaken := opens.before_barrier barred
      refine ⟨?_, opening.kept (fun taken => absurd taken untaken) (by omega) (by omega)⟩
      obtain ⟨first, second, third, list, ⟨_, outer⟩, ⟨_, listed⟩, ⟨_, inner⟩⟩ := opening.declared
      refine declaredAt_append list fun declaration member => ?_
      rcases List.mem_append.mp member with early | last
      · rcases List.mem_append.mp early with around | list
        · have place := (outer declaration around).2.2.1
          omega
        · have place := (listed declaration list).2.2.1
          omega
      · have place := (inner declaration last).2.2.1
        omega

theorem step_settles (barred : Barred code word position) (inside : position < code.size) :
    Settles word walk (walk.step code position).1 := by
  obtain ⟨declared, home⟩ := @step_declaredAt code walk position word barred inside
  refine ⟨declared, ?_, home⟩
  obtain ⟨roles, casts⟩ := step_plays code walk position
  rename_i names types freed
  -- what is cleared of its mark is declared, and the word is not declared again
  have unnamed : word ∉ names := by
    have count := casts.declared
    have same := congrArg (List.count word) count
    rw [List.count_append, Outline.count_names, Outline.count_names, declared] at same
    exact List.count_eq_zero.mp (by omega)
  have kept : word ∉ freed := fun cleared => unnamed (roles.freed_subset word cleared).1
  have untyped : word ∉ types := by
    intro typed
    obtain ⟨barrier, low, high, other⟩ := barred
    rcases roles.types_ahead typed with ahead | ⟨run, found, _, _, among⟩
    · omega
    · have bounds := code.typeBefore?_identifiers found among
      have part := code.typeBefore?_parts found barrier (by omega) high
      rw [other] at part
      cases part
  rw [Bool.eq_iff_iff, casts.marked]
  simp [kept, untyped]

/-- The rest of a run leaves a word behind a barrier alone. -/
theorem run_settles (code : Code) (origin : Walk) {first : Nat} (barred : Barred code word first) :
    Settles word origin (run code origin first) := by
  have stopped : ∃ stop, code.size ≤ stop ∧ (Barred code word stop ∧ Settles word origin (run code origin first)) := by
    refine run_visited (fun stop walk => Barred code word stop ∧ Settles word origin walk) ?_
      ⟨barred, Settles.refl word origin⟩
    intro walk position visits ⟨reached, settled⟩
    have inside := visits.inside
    have ahead := step_advances (walk.arrive position) inside
    refine ⟨reached.mono (Nat.le_of_lt ahead), ?_⟩
    exact (settled.trans (Settles.arrive walk (Nat.ne_of_gt reached.lt))).trans (step_settles reached inside)
  obtain ⟨_, _, _, settled⟩ := stopped
  exact settled

theorem Visits.passed {state : Walk} (visits : Visits code (Walk.start code.layout) 0 state position) :
    Passed position state := by
  obtain ⟨walk, rfl, passed⟩ :=
    visits.keeps (fun _ _ inside passed => passed.arrive.step inside) (Passed.start code.layout)
  exact passed.arrive

theorem Visits.sound {state : Walk} (visits : Visits code (Walk.start code.layout) 0 state position) :
    Sound code state := by
  obtain ⟨walk, rfl, formed⟩ := visits.keeps (fun _ _ inside formed => Formed.step formed inside) (Formed.start code)
  exact formed.sound.arrive position

/-- What a step leaves of a word behind a barrier is what the outline has of it. -/
theorem Visits.settles {state : Walk} (visits : Visits code (Walk.start code.layout) 0 state position)
    (barred : Barred code word (state.step code position).2) :
    Settles word (state.step code position).1 (run code (Walk.start code.layout) 0) := by
  rw [visits.run_eq]
  exact run_settles code _ barred

end Walk

end ScopedRename
