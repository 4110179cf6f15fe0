import ScopedRename.Proofs.Outline.Bodies
import ScopedRename.Proofs.Outline.Respelling

/-!
What decides the structure of an outline. A walk reads what kind of word it meets, and texts of keywords and marks; it
compares names in one test only: a name in the place of a constructor opens one if it is that of the type around it.
Main statement: codes that differ in the spelling of names have the same structure exactly if that test comes out the
same wherever it is made.
-/

namespace ScopedRename

namespace Outline

/-- The outlines differ in names only: they have the same scopes, and every word has the same place and part in both. -/
structure SameStructure (before after : Outline) : Prop where
  scopes : before.scopes.map (fun scope => (scope.kind, scope.parent)) =
    after.scopes.map fun scope => (scope.kind, scope.parent)
  home : ∀ position, before.home position = after.home position
  declarations : ∀ position kind,
    (∃ declaration ∈ before.declarations, declaration.position = position ∧ declaration.kind = kind) ↔
      ∃ declaration ∈ after.declarations, declaration.position = position ∧ declaration.kind = kind
  typeWords : ∀ position, before.isTypeWord position = after.isTypeWord position
  pathWords : ∀ position, before.isPathWord position = after.isPathWord position

namespace SameStructure

variable {before after : Outline}

theorem symm (same : SameStructure before after) : SameStructure after before where
  scopes := same.scopes.symm
  home position := (same.home position).symm
  declarations position kind := (same.declarations position kind).symm
  typeWords position := (same.typeWords position).symm
  pathWords position := (same.pathWords position).symm

theorem kind (same : SameStructure before after) (scope : ScopeId) :
    (before.scope? scope).map Scope.kind = (after.scope? scope).map Scope.kind := by
  have entries := congrArg (fun entries => entries[scope]?.map Prod.fst) same.scopes
  rw [Array.getElem?_map, Array.getElem?_map, Option.map_map, Option.map_map] at entries
  exact entries

theorem of_respell {spell : String → String} (alike : before.respell spell = after.respell spell) :
    SameStructure before after where
  scopes := by
    have scopes : before.scopes.map (Scope.respell spell) = after.scopes.map (Scope.respell spell) :=
      congrArg Outline.scopes alike
    have entries := congrArg (Array.map fun scope => (scope.kind, scope.parent)) scopes
    rw [Array.map_map, Array.map_map] at entries
    exact entries
  home position := by rw [← before.respell_home, alike, respell_home]
  declarations position kind := by
    have declarations : before.declarations.map (Declaration.respell spell) =
        after.declarations.map (Declaration.respell spell) := congrArg Outline.declarations alike
    have listed (outline : Outline) :
        (∃ declaration ∈ outline.declarations, declaration.position = position ∧ declaration.kind = kind) ↔
          (position, kind) ∈ (outline.declarations.map (Declaration.respell spell)).map fun declaration =>
            (declaration.position, declaration.kind) := by
      rw [Array.map_map, Array.mem_map]
      simp only [Function.comp_apply, Prod.mk.injEq]
      exact Iff.rfl
    rw [listed, listed, declarations]
  typeWords position := by rw [← before.respell_isTypeWord, alike, respell_isTypeWord]
  pathWords position := by rw [← before.respell_isPathWord, alike, respell_isPathWord]

end SameStructure

end Outline

namespace Walk

variable {code rewritten : Code} {spell : String → String} {walk other after : Walk} {position limit : Nat}

/-! ### What a walk keeps -/

structure Sound (code : Code) (walk : Walk) : Prop where
  layout : walk.layout = code.layout
  file : 0 < walk.scopes.size
  frames : ∀ frame ∈ walk.frames, frame.scope < walk.scopes.size
  titles : ∀ scope ∈ walk.scopes, scope.kind = .type → ∀ name, scope.name = some name →
    ∃ extent, scope.extent = some extent ∧ name = code.text extent.first

theorem Sound.frame (sound : Sound code walk) : walk.frame.scope < walk.scopes.size := by
  unfold Walk.frame
  cases frames : walk.frames with
  | nil => exact sound.file
  | cons first rest =>
      refine sound.frames first ?_
      rw [frames]
      exact List.mem_cons_self

theorem Sound.start (code : Code) : Sound code (start code.layout) where
  layout := rfl
  file := Nat.zero_lt_one
  frames frame member := by cases member
  titles scope member kind := by
    have only : scope = ⟨.file, none, none, none, [], 0⟩ := List.mem_singleton.mp (Array.mem_def.mp member)
    rw [only] at kind
    cases kind

theorem Change.sound (change : Change code position limit walk after) (sound : Sound code walk) :
    Sound code after := by
  obtain ⟨layout, file, frames, titles⟩ := sound
  cases change with
  | assign => exact ⟨layout, file, frames, titles⟩
  | markTypes => exact ⟨layout, file, frames, titles⟩
  | markPath => exact ⟨layout, file, frames, titles⟩
  | declare => exact ⟨layout, file, frames, titles⟩
  | typeParameter => exact ⟨layout, file, frames, titles⟩
  | openScope kind name extent supertypes inConstants named =>
      have size : (walk.openScope kind name extent supertypes inConstants).scopes.size = walk.scopes.size + 1 :=
        Array.size_push _
      refine ⟨layout, ?_, ?_, ?_⟩
      · rw [size]
        exact Nat.succ_pos _
      · intro frame member
        rw [size]
        rcases List.mem_cons.mp member with here | before
        · rw [here]
          exact Nat.lt_succ_self _
        · exact Nat.lt_succ_of_lt (frames frame before)
      · intro scope member isType title titled
        rcases Array.mem_push.mp member with before | here
        · exact titles scope before isType title titled
        · rw [here] at isType titled ⊢
          obtain ⟨declaration, _, _, spelled, first⟩ := named isType title titled
          exact ⟨extent, rfl, first ▸ spelled⟩
  | settle _ outline sameFrames =>
      have scopes : after.scopes = walk.scopes := congrArg Outline.scopes outline
      refine ⟨(congrArg Outline.layout outline).trans layout, ?_, ?_, ?_⟩
      · rw [scopes]
        exact file
      · intro frame member
        obtain ⟨former, before, same, _⟩ := sameFrames frame member
        rw [scopes, same]
        exact frames former before
      · rw [scopes]
        exact titles

theorem Changes.sound (changes : Changes code position limit walk after) (sound : Sound code walk) :
    Sound code after := by
  induction changes with
  | refl => exact sound
  | tail _ change ih => exact change.sound ih

theorem Sound.arrive (sound : Sound code walk) (position : Nat) : Sound code (walk.arrive position) := by
  have changes : Changes code position (position + 1) walk (walk.arrive position) := arrive_changes
  exact changes.sound sound

theorem Sound.step (sound : Sound code walk) (position : Nat) : Sound code (walk.step code position).1 := by
  have changes : Changes code position (max (position + 1) (walk.step code position).2) walk
      (walk.step code position).1 := step_changes (by omega) (by omega)
  exact changes.sound sound

theorem Change.home (change : Change code position limit walk after) {word : Nat} (read : word < position)
    (parenthesis : code.isPunctuation word "(" = true) : after.homeAt? word = walk.homeAt? word := by
  cases change with
  | assign assigned scope apart =>
      rw [homeAt?_assign, if_neg]
      rintro ⟨rfl, _⟩
      rw [apart read] at parenthesis
      cases parenthesis
  | markTypes => rfl
  | markPath => rfl
  | declare => rfl
  | typeParameter => rfl
  | openScope => rfl
  | settle _ outline => rw [outline]

theorem Changes.home (changes : Changes code position limit walk after) {word : Nat} (read : word < position)
    (parenthesis : code.isPunctuation word "(" = true) : after.homeAt? word = walk.homeAt? word := by
  induction changes with
  | refl => rfl
  | tail _ change ih => rw [change.home read parenthesis, ih]

/-- A parenthesis once read stays in its scope. -/
theorem run_home {word : Nat} (read : word < position) (parenthesis : code.isPunctuation word "(" = true) :
    (run code walk position).homeAt? word = walk.homeAt? word := by
  have stopped : ∃ stop, word < stop ∧ (run code walk position).homeAt? word = walk.homeAt? word := by
    refine run_induction (fun stop state => word < stop ∧ state.homeAt? word = walk.homeAt? word) ?_ walk position
      ⟨read, rfl⟩
    intro state position ⟨read, same⟩ changes
    refine ⟨by omega, ?_⟩
    rw [← same]
    exact changes.home read parenthesis
  obtain ⟨_, _, same⟩ := stopped
  exact same

theorem run_step (walk : Walk) (inside : position < code.size) :
    run code walk position = run code ((walk.arrive position).step code position).1
      (max (position + 1) ((walk.arrive position).step code position).2) := by
  rw [run.eq_def, if_pos inside]

/-! ### What becomes of a parenthesis -/

theorem foldl_assign_home {word : Nat} (inside : word < walk.layout.size) (scope : ScopeId) (words : List Nat) :
    (words.foldl (·.assign · scope) walk).homeAt? word = if word ∈ words then some scope else walk.homeAt? word := by
  induction words generalizing walk with
  | nil => rfl
  | cons first rest ih =>
      have further : word < (walk.assign first scope).layout.size := inside
      rw [List.foldl_cons, ih further, homeAt?_assign]
      by_cases same : first = word
      · simp [same, inside]
      · simp [same, Ne.symm same]

theorem assignRange_scopes (first last : Nat) (scope : ScopeId) :
    (walk.assignRange first last scope).scopes = walk.scopes := by
  unfold assignRange
  induction List.range' first (last + 1 - first) generalizing walk with
  | nil => rfl
  | cons word rest ih => exact ih

theorem declareParameters_same (scope : ScopeId) (kind : DeclarationKind) (segments : List (Nat × Nat)) :
    (segments.foldl (declareParameter code · scope kind) walk).scopes = walk.scopes ∧
      (segments.foldl (declareParameter code · scope kind) walk).homeAt? = walk.homeAt? := by
  induction segments generalizing walk with
  | nil => exact ⟨rfl, rfl⟩
  | cons segment rest ih =>
      rw [List.foldl_cons]
      have single : (declareParameter code walk scope kind segment).scopes = walk.scopes ∧
          (declareParameter code walk scope kind segment).homeAt? = walk.homeAt? := by
        unfold declareParameter
        split
        · exact ⟨rfl, rfl⟩
        · exact ⟨rfl, rfl⟩
      exact ⟨ih.1.trans single.1, ih.2.trans single.2⟩

/-- A constructor takes its parenthesis into a new scope for methods. -/
theorem methodDeclaration_takes (sound : Sound code walk) (call : code.isPunctuation (position + 1) "(" = true)
    (closed : code.close? (position + 1) ≠ none) :
    (walk.methodDeclaration code position none).1.homeAt? (position + 1) = some walk.scopes.size ∧
      ((walk.methodDeclaration code position none).1.scope? walk.scopes.size).map Scope.kind = some .method ∧
      position + 1 < (walk.methodDeclaration code position none).2 := by
  unfold methodDeclaration
  dsimp only
  cases found : code.close? (position + 1) with
  | none => exact absurd found closed
  | some close =>
      obtain ⟨close, later⟩ := close
      dsimp only [Option.bind_none]
      have headerBound := code.le_methodHeader false (close + 1)
      generalize code.methodHeader false (close + 1) = header at headerBound ⊢
      obtain ⟨thrown, stop⟩ := header
      dsimp only at headerBound ⊢
      have last : position + 1 ≤ min stop code.last := by
        have inside : position + 1 < code.size := code.isPunctuation_lt_size call
        unfold Code.last
        omega
      have word : position + 1 ∈ List.range' (position + 1) (min stop code.last + 1 - (position + 1)) := by
        rw [List.mem_range'_1]
        omega
      have inside : position + 1 < walk.layout.size := sound.layout ▸ code.isPunctuation_lt_size call
      refine ⟨?_, ?_, by omega⟩
      · rw [(declareParameters_same _ _ _).2, assignRange, foldl_assign_home ?_, if_pos word]
        exact inside
      · unfold Outline.scope?
        rw [(declareParameters_same _ _ _).1, assignRange_scopes]
        have opened (scope : Scope) : (walk.scopes.push scope)[walk.scopes.size]? = some scope :=
          Array.getElem?_push_size
        exact congrArg (Option.map Scope.kind) (opened _)

theorem lambda_opens_block (arrow : Nat) :
    ((walk.lambda code position arrow).1.scope? walk.scopes.size).map Scope.kind = some .block := by
  have opened (extent : Extent) :
      ((walk.openScope .block none extent [] false).assignRange position arrow walk.scopes.size).scopes =
        walk.scopes.push ⟨.block, none, some walk.frame.scope, some extent, [], walk.scopes.size⟩ :=
        assignRange_scopes _ _ _
  unfold lambda Outline.scope?
  dsimp only
  split <;> split
  · dsimp only [claim, declare]
    rw [opened, Array.getElem?_push_size, Option.map_some]
  · dsimp only [claim]
    rw [(declareParameters_same _ _ _).1, opened, Array.getElem?_push_size, Option.map_some]
  · dsimp only [declare]
    rw [opened, Array.getElem?_push_size, Option.map_some]
  · rw [(declareParameters_same _ _ _).1, opened, Array.getElem?_push_size, Option.map_some]

theorem run_kind {scope : ScopeId} {kind : ScopeKind} (found : (walk.scope? scope).map Scope.kind = some kind) :
    ((run code walk position).scope? scope).map Scope.kind = some kind := by
  obtain ⟨entry, opened, same⟩ := Option.map_eq_some_iff.mp found
  rw [(run_grows walk position).scopes scope entry opened, Option.map_some, same]

theorem step_parenthesis (opens : code.isPunctuation position "(" = true) :
    (∃ arrow, walk.step code position = walk.lambda code position arrow) ∨
      walk.step code position = ({ walk with depth := walk.depth + 1 }, position + 1) := by
  rw [step_of_isPunctuation opens]
  unfold punctuation
  rw [if_pos (beq_self_eq_true "(")]
  split
  · split
    · exact Or.inl ⟨_, rfl⟩
    · exact Or.inr rfl
  · exact Or.inr rfl

/-- A parenthesis that is no constructor's stays in a scope already open, or opens a block. -/
theorem run_parenthesis (sound : Sound code walk) (opens : code.isPunctuation position "(" = true) :
    (∃ scope < walk.scopes.size, (run code walk position).homeAt? position = some scope) ∨
      ((run code walk position).scope? walk.scopes.size).map Scope.kind = some .block := by
  have inside : position < code.size := code.isPunctuation_lt_size opens
  have arrived := sound.arrive position
  rw [run_step walk inside]
  rcases step_parenthesis opens with ⟨arrow, opened⟩ | deeper
  · rw [opened]
    exact Or.inr (run_kind (lambda_opens_block arrow))
  · rw [deeper]
    refine Or.inl ⟨(walk.arrive position).frame.scope, arrived.frame, ?_⟩
    have here : (walk.arrive position).homeAt? position = some (walk.arrive position).frame.scope := by
      unfold arrive
      rw [homeAt?_assign, if_pos ⟨rfl, sound.layout ▸ inside⟩]
      rfl
    rw [run_home (by omega) opens]
    exact here

/-! ### Where the test is made -/

inductive Visits (code : Code) : Walk → Nat → Walk → Nat → Prop where
  | here {walk : Walk} {position : Nat} (inside : position < code.size) :
      Visits code walk position (walk.arrive position) position
  | later {walk state : Walk} {position word : Nat} (inside : position < code.size)
      (further : Visits code ((walk.arrive position).step code position).1
        (max (position + 1) ((walk.arrive position).step code position).2) state word) :
      Visits code walk position state word

/-- The run comes to a name in the place of a constructor, in the body of the type named at another word. -/
def MeetsConstructor (code : Code) (walk : Walk) (position name type : Nat) : Prop :=
  ∃ state, Visits code walk position state name ∧ code.isIdentifier name = true ∧ AtConstructor code state name ∧
    ∃ scope extent, state.scope? state.frame.scope = some scope ∧ scope.name ≠ none ∧ scope.extent = some extent ∧
      extent.first = type

theorem AtConstructor.kind (reached : AtConstructor code walk position) {scope : Scope}
    (found : walk.scope? walk.frame.scope = some scope) : scope.kind = .type := by
  have inType := (Bool.and_eq_true_iff.mp (Bool.and_eq_true_iff.mp reached.inType).1).1
  unfold kindOfScope at inType
  rw [found] at inType
  exact beq_iff_eq.mp inType

/-- In the place of a constructor, a name is that of the type around it if the two words are spelled alike. -/
theorem Sound.named_iff (sound : Sound code walk) (reached : AtConstructor code walk position) {scope : Scope}
    {extent : Extent} (found : walk.scope? walk.frame.scope = some scope) (named : scope.name ≠ none)
    (covers : scope.extent = some extent) :
    walk.nameOfScope walk.frame.scope = some (code.text position) ↔ code.text position = code.text extent.first := by
  have kind := reached.kind found
  obtain ⟨name, title⟩ := Option.ne_none_iff_exists'.mp named
  obtain ⟨again, coversAgain, spelled⟩ := sound.titles scope (Array.mem_of_getElem? found) kind name title
  rw [covers] at coversAgain
  cases coversAgain
  unfold nameOfScope
  rw [found, Option.bind_some, title, spelled, Option.some.injEq]
  exact eq_comm

section Alike

variable (keeps : KeepsTypeKeywords spell) (codes : code.respell spell = rewritten.respell spell)

/-! ### Walks that agree up to spelling -/

theorem AtConstructor.of_respell (reached : AtConstructor (code.respell spell) (walk.respell spell) position) :
    AtConstructor code walk position where
  noConstant := by
    have noConstant := reached.noConstant
    rw [respell_frame, respell_atBase, Code.respell_followsPunctuation] at noConstant
    exact noConstant
  inType := by
    have inType := reached.inType
    rw [respell_frame, respell_atBase, respell_kindOfScope, Code.respell_isPunctuation] at inType
    exact inType
  untyped := by
    have untyped := reached.untyped
    rw [Code.respell_typeBefore?] at untyped
    exact untyped
  starts := by
    have starts := reached.starts
    rw [Code.respell_startsStatement] at starts
    exact starts
  closed := reached.closed

theorem frame_alike (alike : walk.respell spell = other.respell spell) : walk.frame = other.frame := by
  have frames : (walk.respell spell).frame = (other.respell spell).frame := congrArg Walk.frame alike
  exact frames

theorem scope?_alike (alike : walk.respell spell = other.respell spell) (scope : ScopeId) :
    (walk.scope? scope).map (Scope.respell spell) = (other.scope? scope).map (Scope.respell spell) := by
  rw [← respell_scope?, alike, respell_scope?]

include codes

theorem isIdentifier_alike : code.isIdentifier = rewritten.isIdentifier := by
  rw [← Code.respell_isIdentifier code spell, codes, Code.respell_isIdentifier]

theorem isPunctuation_alike : code.isPunctuation = rewritten.isPunctuation := by
  rw [← Code.respell_isPunctuation code spell, codes, Code.respell_isPunctuation]

theorem size_alike : code.size = rewritten.size := by
  rw [← Code.respell_size code spell, codes, Code.respell_size]

theorem AtConstructor.alike (alike : walk.respell spell = other.respell spell) :
    AtConstructor code walk position ↔ AtConstructor rewritten other position := by
  constructor
  · intro reached
    have respelled : AtConstructor (code.respell spell) (walk.respell spell) position := reached.respell
    rw [codes, alike] at respelled
    exact respelled.of_respell
  · intro reached
    have respelled : AtConstructor (rewritten.respell spell) (other.respell spell) position := reached.respell
    rw [← codes, ← alike] at respelled
    exact respelled.of_respell

/-- Which two words the test compares is the same in both codes. -/
theorem named_alike_iff (alike : walk.respell spell = other.respell spell) (otherSound : Sound rewritten other)
    (reached : AtConstructor code walk position) {scope : Scope} {extent : Extent}
    (found : walk.scope? walk.frame.scope = some scope) (named : scope.name ≠ none)
    (covers : scope.extent = some extent) :
    other.nameOfScope other.frame.scope = some (rewritten.text position) ↔
      rewritten.text position = rewritten.text extent.first := by
  have frames := frame_alike alike
  have scopes := scope?_alike alike walk.frame.scope
  rw [found, Option.map_some] at scopes
  obtain ⟨otherScope, otherFound, same⟩ := Option.map_eq_some_iff.mp scopes.symm
  have names : otherScope.name.map spell = scope.name.map spell := congrArg Scope.name same
  have otherNamed : otherScope.name ≠ none := by
    intro none
    rw [none, Option.map_none] at names
    exact named (Option.map_eq_none_iff.mp names.symm)
  exact otherSound.named_iff ((AtConstructor.alike codes alike).mp reached) (frames ▸ otherFound) otherNamed
    ((congrArg Scope.extent same).trans covers)

/-- The test comes out the same if the two words are spelled alike in both codes or in neither. -/
theorem named_alike (alike : walk.respell spell = other.respell spell) (sound : Sound code walk)
    (otherSound : Sound rewritten other) (reached : AtConstructor code walk position)
    (kept : ∀ scope extent, walk.scope? walk.frame.scope = some scope → scope.name ≠ none →
      scope.extent = some extent →
      (code.text position = code.text extent.first ↔ rewritten.text position = rewritten.text extent.first)) :
    walk.nameOfScope walk.frame.scope = some (code.text position) ↔
      other.nameOfScope other.frame.scope = some (rewritten.text position) := by
  cases title : walk.nameOfScope walk.frame.scope with
  | none =>
      -- the test fails in both codes: an anonymous type has no constructors
      have frames := frame_alike alike
      have names : (walk.nameOfScope walk.frame.scope).map spell = (other.nameOfScope walk.frame.scope).map spell := by
        rw [← respell_nameOfScope, alike, respell_nameOfScope]
      rw [title, Option.map_none] at names
      rw [← frames, Option.map_eq_none_iff.mp names.symm]
      exact iff_of_false (Option.some_ne_none _).symm (Option.some_ne_none _).symm
  | some name =>
      obtain ⟨scope, found, titled⟩ := Option.bind_eq_some_iff.mp title
      have named : scope.name ≠ none := titled ▸ Option.some_ne_none name
      obtain ⟨extent, covers, _⟩ :=
        sound.titles scope (Array.mem_of_getElem? found) (reached.kind found) name titled
      rw [← title, sound.named_iff reached found named covers, kept scope extent found named covers]
      exact (named_alike_iff codes alike otherSound reached found named covers).symm

section Steps

include keeps

/-- Where the test comes out the same, the steps agree. -/
theorem step_alike (alike : walk.respell spell = other.respell spell)
    (decided : code.isIdentifier position = true → AtConstructor code walk position →
      (walk.nameOfScope walk.frame.scope = some (code.text position) ↔
        other.nameOfScope other.frame.scope = some (rewritten.text position))) :
    respellStep spell (walk.step code position) = respellStep spell (other.step rewritten position) := by
  by_cases place : code.isIdentifier position = true ∧ AtConstructor code walk position
  · obtain ⟨identifier, reached⟩ := place
    have otherReached := (AtConstructor.alike codes alike).mp reached
    have otherIdentifier : rewritten.isIdentifier position = true := isIdentifier_alike codes ▸ identifier
    by_cases named : walk.nameOfScope walk.frame.scope = some (code.text position)
    · have otherNamed := (decided identifier reached).mp named
      rw [← respell_step keeps fun _ _ _ => named, ← respell_step keeps fun _ _ _ => otherNamed, codes, alike]
    · have otherUnnamed := mt (decided identifier reached).mpr named
      rw [reached.step_eq identifier, if_neg named, otherReached.step_eq otherIdentifier, if_neg otherUnnamed]
      exact congrArg (fun stepped => (stepped, position + 1)) alike
  · rw [← respell_step keeps fun identifier reached => absurd ⟨identifier, reached⟩ place, codes, alike]
    refine respell_step keeps ?_
    intro identifier reached
    exact absurd ⟨(isIdentifier_alike codes).symm ▸ identifier, (AtConstructor.alike codes alike).mpr reached⟩ place

/-- As long as the test comes out the same, so do the runs. -/
theorem run_alike (alike : walk.respell spell = other.respell spell) (sound : Sound code walk)
    (otherSound : Sound rewritten other)
    (kept : ∀ name type, MeetsConstructor code walk position name type →
      (code.text name = code.text type ↔ rewritten.text name = rewritten.text type)) :
    (run code walk position).respell spell = (run rewritten other position).respell spell := by
  induction bound : code.size - position using Nat.strongRecOn generalizing walk other position with
  | ind size shorter =>
      by_cases inside : position < code.size
      · rw [run_step walk inside, run_step other (size_alike codes ▸ inside)]
        have arrived : (walk.arrive position).respell spell = (other.arrive position).respell spell := by
          rw [← respell_arrive, alike, respell_arrive]
        have stepped := step_alike keeps codes arrived fun identifier reached =>
          named_alike codes arrived (sound.arrive position) (otherSound.arrive position) reached
            fun scope extent found named covers => kept position extent.first
              ⟨_, .here inside, identifier, reached, scope, extent, found, named, covers, rfl⟩
        obtain ⟨walks, next⟩ := Prod.ext_iff.mp stepped
        dsimp only [respellStep] at walks next
        rw [← next]
        refine shorter _ (by omega) walks ((sound.arrive position).step position)
          ((otherSound.arrive position).step position) ?_ rfl
        rintro name type ⟨state, visits, facts⟩
        exact kept name type ⟨state, .later inside visits, facts⟩
      · rw [run.eq_def code, if_neg inside, run.eq_def rewritten, if_neg (size_alike codes ▸ inside)]
        exact alike

end Steps

/-! ### Walks that part -/

/-- A name that opens a constructor in one code does in the other, if the rest has the same structure. -/
theorem constructs_alike (alike : walk.respell spell = other.respell spell) (sound : Sound code walk)
    (otherSound : Sound rewritten other) (identifier : code.isIdentifier position = true)
    (reached : AtConstructor code walk position)
    (same : Outline.SameStructure
      (run code (walk.step code position).1 (max (position + 1) (walk.step code position).2)).toOutline
      (run rewritten (other.step rewritten position).1
        (max (position + 1) (other.step rewritten position).2)).toOutline)
    (named : walk.nameOfScope walk.frame.scope = some (code.text position)) :
    other.nameOfScope other.frame.scope = some (rewritten.text position) := by
  by_contra unnamed
  have otherReached := (AtConstructor.alike codes alike).mp reached
  have otherIdentifier : rewritten.isIdentifier position = true := isIdentifier_alike codes ▸ identifier
  have sizes : (walk.respell spell).scopes.size = (other.respell spell).scopes.size := by rw [alike]
  rw [respell_scopes_size, respell_scopes_size] at sizes
  have call : code.isPunctuation (position + 1) "(" = true := (Bool.and_eq_true_iff.mp reached.inType).2
  have otherCall : rewritten.isPunctuation (position + 1) "(" = true := isPunctuation_alike codes ▸ call
  rw [reached.step_eq identifier, if_pos named, otherReached.step_eq otherIdentifier, if_neg unnamed,
    Nat.max_self] at same
  obtain ⟨taken, method, passed⟩ := methodDeclaration_takes sound call reached.closed
  have stepped : Sound code (walk.methodDeclaration code position none).1 := by
    have step := sound.step position
    rw [reached.step_eq identifier, if_pos named] at step
    exact step
  have home : (run code (walk.methodDeclaration code position none).1
      (max (position + 1) (walk.methodDeclaration code position none).2)).homeAt? (position + 1) =
        some walk.scopes.size := by
    rw [run_home (by omega) call, taken]
  -- the parenthesis tells: the constructor's next scope is a method that holds it, the other walk's is not
  rcases run_parenthesis otherSound otherCall with ⟨scope, below, otherHome⟩ | block
  · have homes := same.home (position + 1)
    unfold Outline.home at homes
    rw [home, otherHome] at homes
    exact absurd homes (sizes ▸ Nat.ne_of_gt below)
  · have kinds := same.kind walk.scopes.size
    rw [run_kind method, sizes, block] at kinds
    cases kinds

theorem named_iff_of_sameStructure (alike : walk.respell spell = other.respell spell) (sound : Sound code walk)
    (otherSound : Sound rewritten other) (identifier : code.isIdentifier position = true)
    (reached : AtConstructor code walk position)
    (same : Outline.SameStructure
      (run code (walk.step code position).1 (max (position + 1) (walk.step code position).2)).toOutline
      (run rewritten (other.step rewritten position).1
        (max (position + 1) (other.step rewritten position).2)).toOutline) :
    walk.nameOfScope walk.frame.scope = some (code.text position) ↔
      other.nameOfScope other.frame.scope = some (rewritten.text position) := by
  constructor
  · exact constructs_alike codes alike sound otherSound identifier reached same
  · exact constructs_alike codes.symm alike.symm otherSound sound (isIdentifier_alike codes ▸ identifier)
      ((AtConstructor.alike codes alike).mp reached) same.symm

/-- Runs that end in the same structure come to each word in states that agree. -/
theorem visits_alike {state : Walk} {word : Nat} (keeps : KeepsTypeKeywords spell)
    (visits : Visits code walk position state word) (alike : walk.respell spell = other.respell spell)
    (sound : Sound code walk) (otherSound : Sound rewritten other)
    (same : Outline.SameStructure (run code walk position).toOutline (run rewritten other position).toOutline) :
    ∃ otherState, state.respell spell = otherState.respell spell ∧ Sound code state ∧ Sound rewritten otherState ∧
      Outline.SameStructure (run code (state.step code word).1 (max (word + 1) (state.step code word).2)).toOutline
        (run rewritten (otherState.step rewritten word).1
          (max (word + 1) (otherState.step rewritten word).2)).toOutline := by
  induction visits generalizing other with
  | @here walk position inside =>
      refine ⟨other.arrive position, ?_, sound.arrive position, otherSound.arrive position, ?_⟩
      · rw [← respell_arrive, alike, respell_arrive]
      · rw [run_step walk inside, run_step other (size_alike codes ▸ inside)] at same
        exact same
  | @later walk state position word inside further ih =>
      have arrived : (walk.arrive position).respell spell = (other.arrive position).respell spell := by
        rw [← respell_arrive, alike, respell_arrive]
      rw [run_step walk inside, run_step other (size_alike codes ▸ inside)] at same
      have stepped := step_alike keeps codes arrived fun identifier reached =>
        named_iff_of_sameStructure codes arrived (sound.arrive position) (otherSound.arrive position) identifier
          reached same
      obtain ⟨walks, next⟩ := Prod.ext_iff.mp stepped
      dsimp only [respellStep] at walks next
      refine ih walks ((sound.arrive position).step position) ((otherSound.arrive position).step position) ?_
      rw [← next] at same
      exact same

end Alike

end Walk

/-- Codes that differ in the spelling of names have outlines of the same structure exactly if, wherever a name stands
in the place of a constructor, it is spelled like the type around it in both codes or in neither. -/
theorem Outline.sameStructure_ofCode_iff {code rewritten : Code} {spell : String → String}
    (keeps : KeepsTypeKeywords spell) (codes : code.respell spell = rewritten.respell spell) :
    SameStructure (ofCode code) (ofCode rewritten) ↔
      ∀ name type, Walk.MeetsConstructor code (Walk.start code.layout) 0 name type →
        (code.text name = code.text type ↔ rewritten.text name = rewritten.text type) := by
  have layouts : code.layout.respell spell = rewritten.layout.respell spell := congrArg Code.layout codes
  have started : (Walk.start code.layout).respell spell = (Walk.start rewritten.layout).respell spell := by
    rw [Walk.respell_start, Walk.respell_start, layouts]
  constructor
  · rintro same name type ⟨state, visits, identifier, reached, scope, extent, found, named, covers, first⟩
    obtain ⟨otherState, alike, sound, otherSound, rest⟩ := Walk.visits_alike codes keeps visits started
      (Walk.Sound.start code) (Walk.Sound.start rewritten) same
    have tested := Walk.named_iff_of_sameStructure codes alike sound otherSound identifier reached rest
    rw [sound.named_iff reached found named covers,
      Walk.named_alike_iff codes alike otherSound reached found named covers, first] at tested
    exact tested
  · intro kept
    have alike := Walk.run_alike keeps codes started (Walk.Sound.start code) (Walk.Sound.start rewritten) kept
    exact SameStructure.of_respell (congrArg Walk.toOutline alike)

end ScopedRename
