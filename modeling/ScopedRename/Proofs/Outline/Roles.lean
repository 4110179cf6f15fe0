import ScopedRename.Proofs.Outline.Casting
import ScopedRename.Proofs.Outline.Framing

/-!
The roles of words in an outline. How many roles a word has never falls, for where a mark is cleared a declaration takes
its place; so a word that gets a second role keeps two to the end. Main statement: no word has two roles if and only if
the walk never comes to a word where it gives a role to one that has a role already, and there are four ways to do so.
-/

namespace ScopedRename

namespace Outline

structure Exclusive (outline : Outline) : Prop where
  distinct : outline.names.Nodup
  untyped : ∀ name ∈ outline.names, outline.isTypeWord name = false

instance (outline : Outline) : Decidable outline.Exclusive :=
  decidable_of_iff (outline.names.Nodup ∧ ∀ name ∈ outline.names, outline.isTypeWord name = false)
    ⟨fun ⟨distinct, untyped⟩ => ⟨distinct, untyped⟩, fun exclusive => ⟨exclusive.distinct, exclusive.untyped⟩⟩

def load (outline : Outline) (word : Nat) : Nat := outline.names.count word + (outline.isTypeWord word).toNat

theorem exclusive_iff_load {outline : Outline} : outline.Exclusive ↔ ∀ word, outline.load word ≤ 1 := by
  constructor
  · rintro ⟨distinct, untyped⟩ word
    unfold load
    by_cases named : word ∈ outline.names
    · rw [untyped word named]
      exact List.nodup_iff_count.mp distinct word
    · rw [List.count_eq_zero.mpr named, Nat.zero_add]
      exact Bool.toNat_le _
  · intro light
    unfold load at light
    refine ⟨List.nodup_iff_count.mpr fun word => Nat.le_trans (Nat.le_add_right _ _) (light word), ?_⟩
    intro name named
    have once := List.count_pos_iff.mpr named
    have bound := light name
    cases marked : outline.isTypeWord name with
    | false => rfl
    | true =>
        rw [marked, Bool.toNat_true] at bound
        omega

theorem two_le_load {outline : Outline} {word : Nat} (named : word ∈ outline.names)
    (marked : outline.isTypeWord word = true) : 2 ≤ outline.load word := by
  unfold load
  have once := List.count_pos_iff.mpr named
  rw [marked, Bool.toNat_true]
  omega

end Outline

namespace Walk

variable {code : Code} {walk before after : Walk} {position : Nat}

/-! ### Second roles -/

inductive Lists (code : Code) (walk : Walk) (position : Nat) : Nat → Prop where
  | method {type : Option TypeRun} (reads : walk.step code position = walk.methodDeclaration code position type)
      (typed : ∀ run, type = some run → code.typeBefore? position = some run) :
      Lists code walk position (position + 1)
  | lambda {arrow : Nat} (reads : walk.step code position = walk.lambda code position arrow)
      (list : code.isIdentifier position = false) : Lists code walk position position
  /-- The components of a record. -/
  | components (reads : walk.step code position = walk.typeDeclaration code position)
      (brace : code.isPunctuation (code.typeBody position) openBrace = true)
      (opens : code.isPunctuation (code.componentsStart position) "(" = true) :
      Lists code walk position (code.componentsStart position)

/-- What is read at a word gives a role to one that has a role already. -/
inductive Reuses (code : Code) (walk : Walk) (position : Nat) : Prop where
  /-- A name declared here or ahead was marked before, when a type name or the header of a type was read. -/
  | marked {name : Nat} (declares : name ∈ (walk.step code position).1.names) (ahead : position ≤ name)
      (isType : walk.isTypeWord name = true)
  /-- A type parameter in front of a method was declared before. -/
  | listed {run : TypeRun} {close name : Nat} {later : position + 1 < close}
      (reads : walk.step code position = walk.methodDeclaration code position (some run))
      (typed : code.typeBefore? position = some run) (closed : code.close? (position + 1) = some ⟨close, later⟩)
      (among : name ∈ code.listedParameters run) (known : name ∈ walk.names)
  /-- A word of the type in front of the name declared here was declared before. -/
  | typed {run : TypeRun} {word : Nat} (declares : position ∈ (walk.step code position).1.names)
      (plain : code.isPunctuation (position + 1) "->" = false) (before : code.typeBefore? position = some run)
      (among : word ∈ run.identifiers) (known : word ∈ walk.names)
  /-- A parameter without a name of its own is declared under that of its annotation. -/
  | annotated {opener name : Nat} {segment : Nat × Nat} (lists : Lists code walk position opener)
      (among : segment ∈ code.segments opener true) (named : code.parameterName? segment.1 segment.2 = some name)
      (inside : name ∈ code.parameterTypeWords name segment.1)

/-- A method is read, and one of the type parameters in front of it was declared before. -/
inductive Relists (code : Code) (walk : Walk) (position : Nat) : Prop where
  | listed {run : TypeRun} {close name : Nat} {later : position + 1 < close}
      (reads : walk.step code position = walk.methodDeclaration code position (some run))
      (typed : code.typeBefore? position = some run) (closed : code.close? (position + 1) = some ⟨close, later⟩)
      (among : name ∈ code.listedParameters run) (known : name ∈ walk.names)

theorem Relists.reuses (relists : Relists code walk position) : Reuses code walk position := by
  cases relists with
  | listed reads typed closed among known => exact .listed reads typed closed among known

namespace Roles

variable {names types freed : List Nat}

/-- Marks are cleared only where names are declared that stand behind the walk. -/
theorem freed_subset (roles : Roles code walk position names types freed) :
    ∀ word ∈ freed, word ∈ names ∧ word < position := by
  cases roles with
  | @method run close later reads opener typed closed =>
      intro word member
      have before := Code.listedParameters_lt member
      have start := code.typeBefore?_start_lt typed
      exact ⟨List.mem_cons_of_mem _ (List.mem_append_left _ member), by omega⟩
  | _ => exact fun _ impossible => nomatch impossible

theorem listed (roles : Roles code walk position names types freed) {name : Nat} (cleared : name ∈ freed)
    (known : name ∈ walk.names) : Relists code walk position := by
  cases roles with
  | method reads opener typed closed => exact .listed reads typed closed cleared known
  | _ => cases cleared

/-- All other names stand where the walk does or ahead of it. -/
theorem ahead (roles : Roles code walk position names types freed) {name : Nat} (declared : name ∈ names)
    (unlisted : name ∉ freed) : position ≤ name := by
  cases roles with
  | idle => cases declared
  | typeName => cases declared
  | bare => exact Nat.le_of_eq (List.mem_singleton.mp declared).symm
  | declarator => exact Nat.le_of_succ_le (Nat.le_of_eq (List.mem_singleton.mp declared).symm)
  | written => exact Nat.le_of_eq (List.mem_singleton.mp declared).symm
  | header => exact Nat.le_of_succ_le (Nat.le_of_eq (List.mem_singleton.mp declared).symm)
  | type => exact Nat.le_of_lt (Code.lt_typeNames declared)
  | method =>
      rcases List.mem_cons.mp declared with here | further
      · omega
      · rcases List.mem_append.mp further with listed | parameter
        · exact absurd listed unlisted
        · have := Code.lt_parameterNames parameter
          omega
  | constructor =>
      have := Code.lt_parameterNames declared
      omega
  | lambda => exact Nat.le_of_lt (Code.lt_parameterNames declared)

/-- Words behind the walk are marked only in the type in front of the name it declares. -/
theorem types_ahead (roles : Roles code walk position names types freed) {word : Nat} (marked : word ∈ types) :
    position ≤ word ∨ ∃ run, code.typeBefore? position = some run ∧
      code.isPunctuation (position + 1) "->" = false ∧ position ∈ names ∧ word ∈ run.identifiers := by
  cases roles with
  | idle => cases marked
  | typeName ahead => exact Or.inl (Nat.le_of_lt (ahead word marked))
  | bare => cases marked
  | declarator => cases marked
  | @written run typed plain => exact Or.inr ⟨run, typed, plain, List.mem_singleton_self _, marked⟩
  | header =>
      have := Code.le_headerTypes marked
      omega
  | type =>
      have := code.le_componentsStart position
      rcases List.mem_append.mp marked with header | component
      · have := Code.le_headerTypes header
        omega
      · have := Code.componentTypes_bounds component
        omega
  | @method run close later reads opener typed closed =>
      rcases List.mem_append.mp marked with front | parameter
      · rcases List.mem_append.mp front with thrown | written
        · have := code.mem_methodHeader thrown
          omega
        · exact Or.inr ⟨run, typed, code.isPunctuation_of_ne opener (by decide), List.mem_cons_self, written⟩
      · have := Code.lt_parameterTypes parameter
        omega
  | @constructor close later reads closed =>
      rcases List.mem_append.mp marked with front | parameter
      · rcases List.mem_append.mp front with thrown | here
        · have := code.mem_methodHeader thrown
          omega
        · exact Or.inl (Nat.le_of_eq (List.mem_singleton.mp here).symm)
      · have := Code.lt_parameterTypes parameter
        omega
  | lambda => exact Or.inl (Nat.le_of_lt (Code.lt_parameterTypes marked))

/-- The type in front of the name that a step declares is marked and stays so. -/
theorem marks_type (roles : Roles code walk position names types freed) (declared : position ∈ names)
    (plain : code.isPunctuation (position + 1) "->" = false) {run : TypeRun}
    (before : code.typeBefore? position = some run) {word : Nat} (among : word ∈ run.identifiers) :
    word ∈ types ∧ word ∉ freed := by
  cases roles with
  | idle => cases declared
  | typeName => cases declared
  | bare untyped =>
      rw [untyped plain] at before
      cases before
  | declarator => exact absurd (List.mem_singleton.mp declared) (by omega)
  | written typed =>
      rw [typed] at before
      cases before
      exact ⟨among, fun impossible => nomatch impossible⟩
  | header => exact absurd (List.mem_singleton.mp declared) (by omega)
  | type => exact absurd (Code.lt_typeNames declared) (Nat.lt_irrefl _)
  | method reads opener typed closed =>
      rw [typed] at before
      cases before
      refine ⟨List.mem_append_left _ (List.mem_append_right _ among), ?_⟩
      intro listed
      have := Code.listedParameters_lt listed
      have := (code.typeBefore?_identifiers typed among).2.1
      omega
  | constructor =>
      have := Code.lt_parameterNames declared
      omega
  | lambda => exact absurd (Code.lt_parameterNames declared) (Nat.lt_irrefl _)

/-- In the header of a type only a component is both named and marked. -/
private theorem component_of_both {name : Nat}
    (declared : name ∈ (position + 1) :: (code.typeParameters position ++ code.componentNames position))
    (marked : name ∈ code.headerTypes position ++ code.componentTypes position) :
    code.isPunctuation (code.componentsStart position) "(" = true ∧
      name ∈ code.parameterNames (code.componentsStart position) ∧
      name ∈ code.parameterTypes (code.componentsStart position) := by
  have start := code.le_componentsStart position
  have ends := code.componentsStart_le position
  rcases List.mem_append.mp marked with header | typed
  · have place := Code.headerTypes_bounds header
    rcases List.mem_cons.mp declared with here | further
    · omega
    · rcases List.mem_append.mp further with parameter | component
      · have := Code.typeParameters_bounds parameter
        rcases place with ⟨_, _, other⟩ | behind
        · exact absurd parameter other
        · omega
      · have := Code.componentNames_bounds component
        omega
  · obtain ⟨among, behind⟩ := Code.componentTypes_bounds typed
    rcases List.mem_cons.mp declared with here | further
    · omega
    · rcases List.mem_append.mp further with parameter | component
      · have := Code.typeParameters_bounds parameter
        omega
      · obtain ⟨opens, parameter, _⟩ := Code.componentNames_bounds component
        exact ⟨opens, parameter, among⟩

/-- A word between the parentheses of a method is marked only as the type of a parameter. -/
private theorem parameterTypes_of_marked {close name : Nat} {later : position + 1 < close} {front : List Nat}
    (closed : code.close? (position + 1) = some ⟨close, later⟩) (before : ∀ word ∈ front, word ≤ position)
    (parameter : name ∈ code.parameterNames (position + 1))
    (marked : name ∈ (code.methodHeader false (close + 1)).1 ++ front ++ code.parameterTypes (position + 1)) :
    name ∈ code.parameterTypes (position + 1) := by
  obtain ⟨stop, _, same, low, high⟩ := Code.parameterNames_bounds parameter
  rw [closed] at same
  cases same
  rcases List.mem_append.mp marked with outside | among
  · rcases List.mem_append.mp outside with thrown | written
    · have := code.mem_methodHeader thrown
      omega
    · have := before name written
      omega
  · exact among

/-- A step gives one word both roles only where an annotation stands for a parameter. -/
theorem annotated (roles : Roles code walk position names types freed) (balanced : code.Balanced) {name : Nat}
    (declared : name ∈ names) (unlisted : name ∉ freed) (marked : name ∈ types) : Reuses code walk position := by
  have overlap {opener : Nat} (lists : Lists code walk position opener)
      (parameter : name ∈ code.parameterNames opener) (typed : name ∈ code.parameterTypes opener) :
      Reuses code walk position := by
    obtain ⟨segment, among, named, inside⟩ := Code.annotation_of_mem balanced parameter typed
    exact .annotated lists among named inside
  cases roles with
  | idle => cases declared
  | typeName => cases declared
  | bare => cases marked
  | declarator => cases marked
  | written typed =>
      have := (code.typeBefore?_identifiers typed marked).2.2
      exact absurd (List.mem_singleton.mp declared) (by omega)
  | header =>
      have := Code.le_headerTypes marked
      exact absurd (List.mem_singleton.mp declared) (by omega)
  | type reads brace =>
      obtain ⟨opens, parameter, typed⟩ := component_of_both declared marked
      exact overlap (.components reads brace opens) parameter typed
  | @method run close later reads opener typed closed =>
      have before : ∀ word ∈ run.identifiers, word < position := fun word written =>
        (code.typeBefore?_identifiers typed written).2.2
      rcases List.mem_cons.mp declared with here | further
      · -- the method's own name stands between its type and its parameters
        rcases List.mem_append.mp marked with outside | parameter
        · rcases List.mem_append.mp outside with thrown | written
          · have := code.mem_methodHeader thrown
            omega
          · have := before name written
            omega
        · have := Code.lt_parameterTypes parameter
          omega
      · have parameter := (List.mem_append.mp further).resolve_left unlisted
        refine overlap (.method reads ?_) parameter
          (parameterTypes_of_marked closed (fun word written => Nat.le_of_lt (before word written)) parameter marked)
        intro other same
        cases same
        exact typed
  | constructor reads closed =>
      refine overlap (.method reads ?_) declared (parameterTypes_of_marked closed ?_ declared marked)
      · intro other impossible
        cases impossible
      · exact fun word here => Nat.le_of_eq (List.mem_singleton.mp here)
  | lambda reads list => exact overlap (.lambda reads list) declared marked

end Roles

/-! ### What a step leaves -/

private theorem names_of_added {added : List Declaration}
    (list : after.declarations.toList = walk.declarations.toList ++ added) :
    after.names = walk.names ++ added.map (·.position) := by
  unfold Outline.names
  rw [list, List.map_append]

/-- Opening a scope declares names around it, in the list in front of it and inside it; the three stand apart. -/
private theorem Opening.names {start middle next : Nat} {extent : Extent}
    (opens : Opens code walk position start middle next extent)
    (opening : Opening code position start middle next extent walk after) :
    ∃ names, after.names = walk.names ++ names ∧ names.Nodup ∧ ∀ name ∈ names, name < next := by
  have ordered := opens.ordered
  obtain ⟨outer, listed, inner, list, ⟨outerAscending, outerFacts⟩, ⟨listedAscending, listedFacts⟩,
    ⟨innerAscending, innerFacts⟩⟩ := opening.declared
  refine ⟨_, names_of_added list, ?_, ?_⟩
  · rw [List.map_append, List.map_append]
    refine List.nodup_append.mpr ⟨List.nodup_append.mpr ⟨nodup_positions outerAscending,
      nodup_positions listedAscending, ?_⟩,
      nodup_positions innerAscending, ?_⟩
    · intro one outside other front
      obtain ⟨first, here, rfl⟩ := List.mem_map.mp outside
      obtain ⟨second, there, rfl⟩ := List.mem_map.mp front
      have := outerFacts first here
      have := listedFacts second there
      omega
    · intro one earlier other inside
      obtain ⟨second, there, rfl⟩ := List.mem_map.mp inside
      have := innerFacts second there
      rcases List.mem_append.mp earlier with outside | front
      · obtain ⟨first, here, rfl⟩ := List.mem_map.mp outside
        have := outerFacts first here
        omega
      · obtain ⟨first, here, rfl⟩ := List.mem_map.mp front
        have := listedFacts first here
        omega
  · intro name member
    obtain ⟨declaration, inside, rfl⟩ := List.mem_map.mp member
    rcases List.mem_append.mp inside with earlier | last
    · rcases List.mem_append.mp earlier with outside | front
      · have := outerFacts declaration outside
        omega
      · have := listedFacts declaration front
        omega
    · exact (innerFacts declaration last).2.2.2

theorem Effect.names {next : Nat} (effect : Effect code walk position (after, next)) :
    ∃ names, after.names = walk.names ++ names ∧ names.Nodup ∧ ∀ name ∈ names, name < next := by
  cases effect with
  | stays _ fills =>
      obtain ⟨declarations, list, ascending, facts⟩ := fills.declared
      refine ⟨_, names_of_added list, nodup_positions ascending, ?_⟩
      intro name member
      obtain ⟨declaration, inside, rfl⟩ := List.mem_map.mp member
      exact (facts declaration inside).2.2.2
  | opens opens opening => exact Opening.names opens opening

theorem step_names (walk : Walk) (inside : position < code.size) :
    ∃ names, (walk.step code position).1.names = walk.names ++ names ∧ names.Nodup ∧
      ∀ name ∈ names, name < (walk.step code position).2 :=
  (step_effect walk inside).names

theorem Casts.load_le {names types freed : List Nat} (casts : Casts code names types freed before after)
    (declared : ∀ word ∈ freed, word ∈ names) (word : Nat) : before.load word ≤ after.load word := by
  unfold Outline.load
  rw [casts.declared, List.count_append]
  by_cases cleared : word ∈ freed
  · have once := List.count_pos_iff.mpr (declared word cleared)
    have bit := Bool.toNat_le (before.isTypeWord word)
    omega
  · cases marked : before.isTypeWord word with
    | false =>
        rw [Bool.toNat_false]
        omega
    | true =>
        rw [(casts.marked word).mpr ⟨cleared, Or.inl marked⟩]
        omega

/-- A word never loses a role without getting another. -/
theorem step_load_le (walk : Walk) (position word : Nat) :
    walk.load word ≤ (walk.step code position).1.load word := by
  obtain ⟨roles, casts⟩ := step_plays code walk position
  exact casts.load_le (fun word cleared => (roles.freed_subset word cleared).1) word

variable (code) in
theorem run_load_le (walk : Walk) (position word : Nat) : walk.load word ≤ (run code walk position).load word := by
  have stopped : ∃ stop, code.size ≤ stop ∧ walk.load word ≤ (run code walk position).load word := by
    refine run_visited (fun _ state => walk.load word ≤ state.load word) ?_ (Nat.le_refl _)
    intro state place _ kept
    exact Nat.le_trans kept (step_load_le (state.arrive place) place word)
  obtain ⟨_, _, kept⟩ := stopped
  exact kept

/-- Only words that were read name declarations. -/
def Passed (position : Nat) (walk : Walk) : Prop := ∀ name ∈ walk.names, name < position

theorem Passed.start (layout : Layout) : Passed 0 (start layout) := by
  intro name impossible
  cases impossible

theorem Passed.arrive (passed : Passed position walk) : Passed position (walk.arrive position) := passed

theorem Passed.step (passed : Passed position walk) (inside : position < code.size) :
    Passed (walk.step code position).2 (walk.step code position).1 := by
  intro name declared
  obtain ⟨names, added, _, bound⟩ := step_names walk inside
  rw [added] at declared
  rcases List.mem_append.mp declared with former | new
  · exact Nat.lt_trans (passed name former) (step_advances walk inside)
  · exact bound name new

/-- Other names than those of type parameters in front of a method are declared where the walk is or ahead of it. -/
theorem nodup_step (passed : Passed position walk) (inside : position < code.size)
    (distinct : walk.names.Nodup) (safe : ¬Relists code walk position) :
    (walk.step code position).1.names.Nodup := by
  obtain @⟨_, _, freed, roles, casts⟩ := step_plays code walk position
  obtain ⟨names, added, new, _⟩ := step_names walk inside
  rw [List.append_cancel_left (casts.declared.symm.trans added)] at roles casts
  rw [casts.declared]
  refine List.nodup_append.mpr ⟨distinct, new, ?_⟩
  rintro name former other declared rfl
  by_cases listed : name ∈ freed
  · exact safe (roles.listed listed former)
  · exact absurd (passed name former) (Nat.not_lt_of_le (roles.ahead declared listed))

/-- A step that gives no word a second role keeps them apart. -/
theorem exclusive_step (balanced : code.Balanced) (passed : Passed position walk) (inside : position < code.size)
    (exclusive : walk.Exclusive) (safe : ¬Reuses code walk position) : (walk.step code position).1.Exclusive := by
  refine ⟨nodup_step passed inside exclusive.distinct fun relists => safe relists.reuses, ?_⟩
  obtain @⟨_, _, freed, roles, casts⟩ := step_plays code walk position
  obtain ⟨names, added, _, _⟩ := step_names walk inside
  rw [List.append_cancel_left (casts.declared.symm.trans added)] at roles casts
  · intro name declared
    rw [Bool.eq_false_iff]
    intro marked
    obtain ⟨unlisted, marks⟩ := (casts.marked name).mp marked
    have known := declared
    rw [casts.declared] at known
    rcases List.mem_append.mp known with former | new
    · rcases marks with before | ⟨typed, _⟩
      · rw [exclusive.untyped name former] at before
        cases before
      · rcases roles.types_ahead typed with ahead | ⟨run, before, plain, here, among⟩
        · exact absurd (passed name former) (Nat.not_lt_of_le ahead)
        · refine safe (.typed ?_ plain before among former)
          rw [casts.declared]
          exact List.mem_append_right _ here
    · rcases marks with before | ⟨typed, _⟩
      · exact safe (.marked declared (roles.ahead new unlisted) before)
      · exact safe (roles.annotated balanced new unlisted typed)

theorem Lists.casts {opener name : Nat} (lists : Lists code walk position opener)
    (parameter : name ∈ code.parameterNames opener) :
    ∃ names types freed, Casts code names types freed walk (walk.step code position).1 ∧ name ∈ names ∧
      (∀ word ∈ code.parameterTypes opener, word ∈ types) ∧ name ∉ freed := by
  have behind := Code.lt_parameterNames parameter
  obtain ⟨close, later, closed, _⟩ := Code.parameterNames_bounds parameter
  cases lists with
  | @method type reads typed =>
      rw [reads]
      cases type with
      | none =>
          refine ⟨_, _, _, constructor_casts code walk closed, parameter, ?_, fun impossible => nomatch impossible⟩
          exact fun word among => List.mem_append_right _ among
      | some run =>
          refine ⟨_, _, _, methodDeclaration_casts code walk (typed run rfl) closed, ?_, ?_, ?_⟩
          · exact List.mem_cons_of_mem _ (List.mem_append_right _ parameter)
          · exact fun word among => List.mem_append_right _ among
          · intro listed
            have := Code.listedParameters_lt listed
            have := code.typeBefore?_start_lt (typed run rfl)
            omega
  | @lambda arrow reads list =>
      rw [reads]
      exact ⟨_, _, _, lambda_casts code walk arrow list, parameter, fun _ among => among,
        fun impossible => nomatch impossible⟩
  | components reads brace opens =>
      rw [reads]
      refine ⟨_, _, _, typeDeclaration_casts code walk brace, ?_, ?_, fun impossible => nomatch impossible⟩
      · refine List.mem_cons_of_mem _ (List.mem_append_right _ ?_)
        unfold Code.componentNames
        rw [if_pos opens]
        exact parameter
      · intro word among
        refine List.mem_append_right _ ?_
        unfold Code.componentTypes
        rw [if_pos opens]
        exact among

/-- A step that gives a word a second role leaves it with two. -/
theorem Reuses.load (passed : Passed position walk) (reuses : Reuses code walk position) :
    ∃ word, 2 ≤ (walk.step code position).1.load word := by
  cases reuses with
  | @marked name declares ahead isType =>
      refine ⟨name, Outline.two_le_load declares ?_⟩
      obtain ⟨roles, casts⟩ := step_plays code walk position
      refine (casts.marked name).mpr ⟨fun cleared => ?_, Or.inl isType⟩
      exact absurd (roles.freed_subset name cleared).2 (Nat.not_lt_of_le ahead)
  | @listed run close name later reads typed closed among known =>
      refine ⟨name, ?_⟩
      unfold Outline.load
      rw [reads, (methodDeclaration_casts code walk typed closed).declared, List.count_append]
      have former := List.count_pos_iff.mpr known
      have again : 0 < (position :: (code.listedParameters run ++ code.parameterNames (position + 1))).count name :=
        List.count_pos_iff.mpr (List.mem_cons_of_mem _ (List.mem_append_left _ among))
      omega
  | @typed run word declares plain before among known =>
      obtain ⟨roles, casts⟩ := step_plays code walk position
      rw [casts.declared] at declares
      have here := (List.mem_append.mp declares).resolve_left fun former =>
        absurd (passed position former) (Nat.lt_irrefl _)
      obtain ⟨marks, kept⟩ := roles.marks_type here plain before among
      refine ⟨word, Outline.two_le_load ?_ ?_⟩
      · rw [casts.declared]
        exact List.mem_append_left _ known
      · exact casts.isTypeWord (code.typeBefore?_identifiers before among).1 marks kept
  | @annotated opener name segment lists among named inside =>
      obtain ⟨close, later, closed⟩ := Code.close?_of_mem_segments among
      have identifier := (code.parameterName?_bounds (code.segments_bounds closed among).2.1 named).1
      obtain ⟨names, types, freed, casts, declares, marks, kept⟩ :=
        lists.casts (Code.mem_parameterNames.mpr ⟨segment, among, named⟩)
      refine ⟨name, Outline.two_le_load ?_ ?_⟩
      · rw [casts.declared]
        exact List.mem_append_right _ declares
      · exact casts.isTypeWord identifier
          (marks name (Code.mem_parameterTypes.mpr ⟨segment, among, name, named, inside⟩)) kept

theorem run_names_prefix (code : Code) (walk : Walk) (position : Nat) :
    walk.names <+: (run code walk position).names := by
  have stopped : ∃ stop, code.size ≤ stop ∧ walk.names <+: (run code walk position).names := by
    refine run_visited (fun _ state => walk.names <+: state.names) ?_ (List.prefix_refl _)
    intro state place visits kept
    obtain ⟨names, added, _⟩ := step_names (state.arrive place) visits.inside
    rw [added]
    exact kept.trans (List.prefix_append _ _)
  obtain ⟨_, _, kept⟩ := stopped
  exact kept

theorem Relists.not_nodup (relists : Relists code walk position) :
    ¬(walk.step code position).1.names.Nodup := by
  cases relists with
  | listed reads typed closed among known =>
      rw [reads, (methodDeclaration_casts code walk typed closed).declared]
      intro distinct
      refine (List.nodup_append.mp distinct).2.2 _ known _ ?_ rfl
      exact List.mem_cons_of_mem _ (List.mem_append_left _ among)

/-- No word names two declarations if and only if the walk never comes to a method with a type parameter in front of it
that it has declared already. -/
theorem names_nodup_iff (code : Code) :
    (Outline.ofCode code).names.Nodup ↔
      ∀ state position, Visits code (Walk.start code.layout) 0 state position →
        ¬Relists code state position := by
  constructor
  · intro distinct state position visits relists
    have kept := run_names_prefix code (state.step code position).1 (state.step code position).2
    rw [← visits.run_eq] at kept
    exact relists.not_nodup (distinct.sublist kept.sublist)
  · intro safe
    have stopped : ∃ stop, code.size ≤ stop ∧ Passed stop (run code (Walk.start code.layout) 0) ∧
        (run code (Walk.start code.layout) 0).names.Nodup := by
      refine run_visited (fun stop walk => Passed stop walk ∧ walk.names.Nodup) ?_
        ⟨Passed.start code.layout, List.nodup_nil⟩
      intro walk position visits ⟨passed, distinct⟩
      exact ⟨passed.arrive.step visits.inside,
        nodup_step passed.arrive visits.inside distinct (safe _ position visits)⟩
    obtain ⟨_, _, _, distinct⟩ := stopped
    exact distinct

/-- In the outline of balanced code no word has two roles if and only if the walk never gives one a second. -/
theorem exclusive_iff (balanced : code.Balanced) :
    (Outline.ofCode code).Exclusive ↔
      ∀ state position, Visits code (Walk.start code.layout) 0 state position → ¬Reuses code state position := by
  constructor
  · intro exclusive state position visits reuses
    obtain ⟨walk, rfl, passed⟩ :=
      visits.keeps (fun _ _ inside passed => passed.arrive.step inside) (Passed.start code.layout)
    obtain ⟨word, twice⟩ := reuses.load passed.arrive
    have kept := run_load_le code ((walk.arrive position).step code position).1
      ((walk.arrive position).step code position).2 word
    rw [← visits.run_eq] at kept
    have once := Outline.exclusive_iff_load.mp exclusive word
    unfold Outline.ofCode at once
    omega
  · intro safe
    have stopped : ∃ stop, code.size ≤ stop ∧ Passed stop (run code (Walk.start code.layout) 0) ∧
        (run code (Walk.start code.layout) 0).Exclusive := by
      refine run_visited (fun stop walk => Passed stop walk ∧ walk.Exclusive) ?_ ⟨Passed.start code.layout, ?_⟩
      · intro walk position visits ⟨passed, exclusive⟩
        have arrived : (walk.arrive position).Exclusive := ⟨exclusive.distinct, exclusive.untyped⟩
        exact ⟨passed.arrive.step visits.inside,
          exclusive_step balanced passed.arrive visits.inside arrived (safe _ position visits)⟩
      · exact ⟨List.nodup_nil, fun _ impossible => nomatch impossible⟩
    obtain ⟨_, _, _, exclusive⟩ := stopped
    exact exclusive

end Walk

end ScopedRename
