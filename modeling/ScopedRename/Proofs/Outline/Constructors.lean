import ScopedRename.Proofs.Code.Separators
import ScopedRename.Proofs.Outline.Methods

/-!
Constructors. The name of a type in its body, where a declaration may begin and in front of a list, is a constructor if no
type stands in front of it. The name of an annotation reads as a type. Main statement: such a name opens the scope of a
constructor with its parameters exactly if it does not directly follow an annotation without arguments.
-/

namespace ScopedRename

namespace Code

variable (code : Code)

/-- An annotation without a list of values ends directly in front of the position. -/
def followsAnnotation : Nat → Bool
  | 0 => false
  | previous + 1 =>
    code.isAnnotationName previous
      || (code.isPunctuation previous ">"
        && (code.genericOpen? previous).any fun start => code.isAnnotationName (start - 1))

variable {code} {position previous : Nat}

/-- Without brackets behind it, the type in front of a position ends at the word there. -/
theorem typeBefore?_plain (noEllipsis : code.isPunctuation previous "..." = false)
    (noBracket : code.isPunctuation previous "]" = false) :
    code.typeBefore? (previous + 1) = code.typeEndingAt false previous := by
  have base : code.beforeDimensions previous = some previous := by
    unfold beforeDimensions
    split
    · rfl
    · rw [noBracket]
      rfl
    · rw [noBracket]
      rfl
  have written : code.writtenEnd? previous = some previous := by
    unfold writtenEnd?
    rw [noEllipsis]
    rfl
  rw [typeBefore?_succ, written, Option.bind_some, base, Option.bind_some, noEllipsis]
  simp

private theorem spellsTypeKeyword_of_isIdentifier (identifier : code.isIdentifier position = true) :
    code.spellsTypeKeyword position = false := by
  rw [Bool.eq_false_iff]
  intro keyword
  rw [code.isIdentifier_of_spellsTypeKeyword keyword] at identifier
  cases identifier

private theorem typeEndingAt_of_name {arguments : List Nat} {name : Nat}
    (ending : code.typeNameEnd? previous = some (arguments, name)) (identifier : code.isIdentifier name = true) :
    ∃ run, code.typeEndingAt false previous = some run ∧ run.start = code.qualifiedStart name := by
  rw [typeEndingAt_eq, ending, Option.bind_some]
  dsimp only
  rw [spellsTypeKeyword_of_isIdentifier identifier, if_neg Bool.false_ne_true, if_pos identifier]
  exact ⟨_, rfl, rfl⟩

theorem typeNameEnd?_of_other (other : code.isPunctuation previous ">" = false) :
    code.typeNameEnd? previous = some ([], previous) := by
  unfold typeNameEnd?
  rw [other]
  rfl

theorem genericOpen?_eq_some {start : Nat} (found : code.genericOpen? previous = some start) :
    ∃ name, start = name + 1 ∧ code.isIdentifier name = true ∧ code.angleOpen? previous = some (name + 1) := by
  unfold genericOpen? at found
  split at found
  · rename_i name opened
    split at found
    · rename_i identifier
      cases found
      exact ⟨name, rfl, identifier, opened⟩
    · cases found
  · cases found

/-- No declaration begins behind the mark of an annotation. -/
theorem startsStatement_of_mark (mark : code.followsPunctuation position "@" = true) :
    code.startsStatement position = false := by
  cases position with
  | zero => cases mark
  | succ previous =>
      have here : code.isPunctuation previous "@" = true := mark
      unfold isPunctuation Lexeme.isPunctuation at here
      obtain ⟨⟨kind, text⟩, found, same⟩ := (Option.any_eq_true _ _).mp here
      rw [Bool.and_eq_true, beq_iff_eq, beq_iff_eq] at same
      obtain ⟨rfl, rfl⟩ := same
      rw [startsStatement.eq_def]
      simp only [found]
      rw [if_neg (by decide), if_neg (by decide), if_neg (by decide)]

theorem startsStatement_of_isIdentifier (identifier : code.isIdentifier previous = true) :
    code.startsStatement (previous + 1) = code.isAnnotationName previous := by
  unfold isIdentifier at identifier
  obtain ⟨⟨kind, text⟩, found, same⟩ := (Option.any_eq_true _ _).mp identifier
  cases beq_iff_eq.mp same
  rw [startsStatement.eq_def]
  simp only [found]

/-- An annotation reads as a type, and no declaration begins at its name. -/
theorem typeBefore?_of_followsAnnotation (follows : code.followsAnnotation position = true) :
    ∃ run, code.typeBefore? position = some run ∧ code.startsStatement run.start = false := by
  cases position with
  | zero => cases follows
  | succ previous =>
      rcases Bool.or_eq_true_iff.mp follows with name | generic
      · obtain ⟨identifier, mark⟩ := Bool.and_eq_true_iff.mp name
        have other := code.isPunctuation_of_isIdentifier identifier
        obtain ⟨run, ends, start⟩ := typeEndingAt_of_name (typeNameEnd?_of_other (other _)) identifier
        rw [typeBefore?_plain (other _) (other _)]
        exact ⟨run, ends, start ▸ startsStatement_of_mark mark⟩
      · obtain ⟨closes, opened⟩ := Bool.and_eq_true_iff.mp generic
        obtain ⟨start, found, annotation⟩ := (Option.any_eq_true _ _).mp opened
        obtain ⟨name, rfl, identifier, _⟩ := genericOpen?_eq_some found
        have ending : code.typeNameEnd? previous = some (code.identifiersIn (name + 2) previous, name) := by
          unfold typeNameEnd?
          rw [if_pos closes, found]
          rfl
        obtain ⟨run, ends, begins⟩ := typeEndingAt_of_name ending identifier
        rw [typeBefore?_plain (code.isPunctuation_of_ne closes (by decide)) (code.isPunctuation_of_ne closes (by decide))]
        exact ⟨run, ends, begins ▸ startsStatement_of_mark (Bool.and_eq_true_iff.mp annotation).2⟩

private theorem not_isTypeKeyword_of_lead {text : String} (lead : declarationLeads.contains text = true) :
    isTypeKeyword text = false := by
  have leads : declarationLeads.all (!isTypeKeyword ·) = true := by decide
  have other := List.all_eq_true.mp leads text (List.contains_iff_mem.mp lead)
  rwa [Bool.not_eq_true'] at other

/-- Behind a list of type parameters no type ends, unless the list belongs to an annotation. -/
private theorem typeBefore?_of_angle (closes : code.isPunctuation previous ">" = true)
    (starts : ∀ start, code.angleOpen? previous = some start → code.startsStatement start = true)
    (plain : (code.genericOpen? previous).any (fun start => code.isAnnotationName (start - 1)) = false) :
    code.typeBefore? (previous + 1) = none := by
  have opened : code.genericOpen? previous = none := by
    cases found : code.genericOpen? previous with
    | none => rfl
    | some start =>
        obtain ⟨name, rfl, identifier, angle⟩ := genericOpen?_eq_some found
        have annotation := starts _ angle
        rw [startsStatement_of_isIdentifier identifier] at annotation
        rw [found, Option.any_some, Nat.add_sub_cancel, annotation] at plain
        cases plain
  have ending : code.typeNameEnd? previous = none := by
    unfold typeNameEnd?
    rw [if_pos closes, opened]
    rfl
  rw [typeBefore?_plain (code.isPunctuation_of_ne closes (by decide)) (code.isPunctuation_of_ne closes (by decide)),
    typeEndingAt_eq, ending]
  rfl

/-- Where a declaration may begin, nothing in front reads as a type but an annotation. -/
theorem typeBefore?_of_startsStatement (starts : code.startsStatement position = true)
    (plain : code.followsAnnotation position = false) : code.typeBefore? position = none := by
  cases position with
  | zero => rfl
  | succ previous =>
      obtain ⟨noName, noGeneric⟩ := Bool.or_eq_false_iff.mp plain
      -- a word that is neither a mark nor a name ends a type only if it is a type itself
      have wordless (other : ∀ mark, code.isPunctuation previous mark = false)
          (noKeyword : code.spellsTypeKeyword previous = false) (noIdentifier : code.isIdentifier previous = false) :
          code.typeBefore? (previous + 1) = none := by
        rw [typeBefore?_plain (other _) (other _), typeEndingAt_eq, typeNameEnd?_of_other (other _), Option.bind_some]
        dsimp only
        rw [noKeyword, noIdentifier]
        rfl
      rw [startsStatement.eq_def] at starts
      dsimp only at starts
      cases found : code.word? previous with
      | none =>
          refine wordless (fun mark => ?_) ?_ ?_
          · simp [isPunctuation, found]
          · simp [spellsTypeKeyword, found]
          · simp [isIdentifier, found]
      | some word =>
          obtain ⟨kind, text⟩ := word
          rw [found] at starts
          dsimp only at starts
          cases kind with
          | punctuation =>
              have here : code.isPunctuation previous text = true := by
                simp [isPunctuation, Lexeme.isPunctuation, found]
              dsimp only at starts
              by_cases angle : text = ">"
              · subst angle
                rw [here, Bool.true_and] at noGeneric
                refine typeBefore?_of_angle here (fun start opened => ?_) noGeneric
                rw [if_neg (by decide), if_neg (by decide), if_pos (by decide), opened] at starts
                dsimp only at starts
                split at starts
                · exact starts
                · cases starts
              · refine code.typeBefore?_of_followsPunctuation here ?_ ?_ angle
                · rintro rfl
                  rw [if_neg (by decide), if_neg (by decide), if_neg (by decide)] at starts
                  cases starts
                · rintro rfl
                  rw [if_neg (by decide), if_neg (by decide), if_neg (by decide)] at starts
                  cases starts
          | keyword =>
              dsimp only at starts
              refine wordless (fun mark => ?_) ?_ ?_
              · simp [isPunctuation, Lexeme.isPunctuation, found]
              · simp [spellsTypeKeyword, found, not_isTypeKeyword_of_lead starts]
              · simp [isIdentifier, Lexeme.isIdentifier, found]
          | identifier =>
              dsimp only at starts
              rw [noName] at starts
              cases starts
          | _ => cases starts

end Code

namespace Outline

/-- The outline has a constructor of the scope `type` at a name: the name refers to the type, a scope for methods with
that name covers the list of parameters and the body, and the parameters are declared there and nowhere else. -/
structure HasConstructor (code : Code) (outline : Outline) (type : ScopeId) (position : Nat) : Prop where
  refers : outline.isTypeWord position = true ∧ position ∉ outline.names
  opens : ∃ scope close, ∃ later : position + 1 < close, code.close? (position + 1) = some ⟨close, later⟩ ∧
    outline.scope? scope = some ⟨.method, some (code.text position), some type,
      some ⟨position + 1, code.methodEnd close⟩, [], scope⟩ ∧
    (∀ word, position < word → word ≤ close → outline.homeAt? word = some scope) ∧
    ∀ name ∈ code.parameterNames (position + 1), outline.names.count name = 1 ∧
      ∃ declaration ∈ outline.declarations,
        declaration.kind = .parameter ∧ declaration.scope = scope ∧ declaration.position = name

end Outline

namespace Walk

variable {code : Code} {walk state : Walk} {position : Nat}

/-- The name of the type around, in front of a list: a constructor, if a declaration may begin there. -/
structure NamesConstructor (code : Code) (walk : Walk) (position : Nat) : Prop where
  identifier : code.isIdentifier position = true
  inType : walk.kindOfScope walk.frame.scope = .type
  titled : walk.nameOfScope walk.frame.scope = some (code.text position)
  base : walk.atBase = true
  outside : walk.frame.inConstants = false
  opens : code.isPunctuation (position + 1) "(" = true
  starts : code.startsStatement position = true

instance (code : Code) (walk : Walk) (position : Nat) : Decidable (NamesConstructor code walk position) :=
  decidable_of_iff
    (code.isIdentifier position = true ∧ walk.kindOfScope walk.frame.scope = .type ∧
      walk.nameOfScope walk.frame.scope = some (code.text position) ∧ walk.atBase = true ∧
      walk.frame.inConstants = false ∧ code.isPunctuation (position + 1) "(" = true ∧
      code.startsStatement position = true)
    ⟨fun ⟨identifier, inType, titled, base, outside, opens, starts⟩ =>
        ⟨identifier, inType, titled, base, outside, opens, starts⟩,
      fun names => ⟨names.identifier, names.inType, names.titled, names.base, names.outside, names.opens, names.starts⟩⟩

namespace NamesConstructor

theorem step_eq (names : NamesConstructor code walk position) (balanced : code.Balanced)
    (plain : code.followsAnnotation position = false) :
    walk.step code position = walk.methodDeclaration code position none := by
  obtain ⟨close, later, closed⟩ := balanced.close_of_isPunctuation names.opens (by decide)
  have reached : AtConstructor code walk position := by
    refine ⟨?_, ?_, Code.typeBefore?_of_startsStatement names.starts plain, names.starts, ?_⟩
    · rw [names.outside]
      exact Bool.false_ne_true
    · rw [names.inType, names.base, names.opens]
      rfl
    · rw [closed]
      exact Option.some_ne_none _
  rw [reached.step_eq names.identifier, if_pos names.titled]

/-- Behind an annotation the name is read over. -/
theorem step_idle (names : NamesConstructor code walk position) (follows : code.followsAnnotation position = true) :
    walk.step code position = (walk, position + 1) := by
  obtain ⟨run, before, noStart⟩ := Code.typeBefore?_of_followsAnnotation follows
  have noArrow : code.isPunctuation (position + 1) "->" = false := code.isPunctuation_of_ne names.opens (by decide)
  rw [step_of_isIdentifier names.identifier]
  unfold Walk.identifier
  dsimp only
  rw [noArrow, Bool.false_and, if_neg Bool.false_ne_true, names.outside, Bool.false_and, Bool.false_and,
    if_neg Bool.false_ne_true, names.inType, names.base, names.opens, if_pos (by decide), before]
  dsimp only
  rw [noStart, if_neg Bool.false_ne_true, plainName_of_call names.opens]

end NamesConstructor

/-- A parenthesis belongs to a scope that was open when it was read, or to a block. -/
theorem run_home_parenthesis (sound : Sound code walk) (opens : code.isPunctuation position "(" = true) :
    ∃ scope, (run code walk position).homeAt? position = some scope ∧
      (scope < walk.scopes.size ∨ ((run code walk position).scope? scope).map Scope.kind = some .block) := by
  have inside : position < code.size := code.isPunctuation_lt_size opens
  have arrived := sound.arrive position
  have home : (walk.arrive position).homeAt? position = some (walk.arrive position).frame.scope := by
    rw [arrive_home position sound inside, if_pos rfl]
  have stepped := arrived.step position
  have effect := step_effect (walk.arrive position) inside
  have reads := @step_parenthesis code (walk.arrive position) position opens
  rw [run_step walk inside]
  generalize (walk.arrive position).step code position = result at stepped effect reads ⊢
  obtain ⟨after, next⟩ := result
  have ahead := effect.ahead
  rw [run_home (by omega) opens]
  rcases effect.kept_or_rehomed position with kept | ⟨scope, assigned, place⟩
  · exact ⟨_, kept.trans home, Or.inl arrived.frame⟩
  · refine ⟨scope, assigned, ?_⟩
    rcases place with rfl | ⟨rfl, room⟩
    · exact Or.inl arrived.frame
    · rcases reads with ⟨arrow, opened⟩ | deeper
      · rw [opened]
        exact Or.inr (run_kind (lambda_opens_block arrow))
      · cases deeper
        exact absurd room (Nat.lt_irrefl _)

namespace NamesConstructor

/-- Behind an annotation no scope for a method starts at the list. -/
theorem not_hasConstructor (names : NamesConstructor code state position) (balanced : code.Balanced)
    (visits : Visits code (Walk.start code.layout) 0 state position) (follows : code.followsAnnotation position = true)
    (type : ScopeId) : ¬(Outline.ofCode code).HasConstructor code type position := by
  rintro ⟨_, scope, close, later, closed, entry, homes, _⟩
  have home := homes (position + 1) (Nat.lt_succ_self _) (Nat.le_of_lt later)
  obtain ⟨walk, rfl, framed⟩ := Framed.visited balanced visits
  have sound := framed.formed.sound.arrive position
  have final : Outline.ofCode code = (run code (walk.arrive position) (position + 1)).toOutline := by
    unfold Outline.ofCode
    rw [visits.run_eq, names.step_idle follows]
  rw [final] at entry home
  obtain ⟨other, found, place⟩ := run_home_parenthesis sound names.opens
  rw [found] at home
  cases home
  rcases place with older | block
  · -- a scope that is open already starts in front of the name
    have known := Array.getElem?_eq_getElem older
    have grows : Outline.Grows (walk.arrive position).toOutline
        (run code (walk.arrive position) (position + 1)).toOutline := run_grows _ _
    have same := grows.scopes scope _ known
    rw [entry] at same
    have extent : walk.extent? scope = some ⟨position + 1, code.methodEnd close⟩ := by
      unfold Outline.extent? Outline.scope?
      rw [show walk.scopes[scope]? = some _ from known, ← same]
      rfl
    obtain ⟨_, _, anchor, low, high, _⟩ := framed.extents scope _ extent
    dsimp only at low
    omega
  · rw [entry] at block
    cases block

/-- Where no annotation stands in front, the constructor is there with its parameters. -/
theorem hasConstructor (names : NamesConstructor code state position) (matched : code.Matched)
    (visits : Visits code (Walk.start code.layout) 0 state position) (plain : code.followsAnnotation position = false) :
    (Outline.ofCode code).HasConstructor code state.frame.scope position := by
  have balanced := matched.toBalanced
  have reads := names.step_eq balanced plain
  obtain ⟨close, later, closed⟩ := balanced.close_of_isPunctuation names.opens (by decide)
  have body := code.le_methodBody close
  have closes := matched.closes_round closed names.opens
  have inside := balanced.closer_lt_size closed
  have casts := constructor_casts code state closed
  -- no later step reaches back over the closing parenthesis, so what this step leaves up to it is final
  have settles (word : Nat) (before : word ≤ close) :
      Settles word (state.methodDeclaration code position none).1 (run code (Walk.start code.layout) 0) :=
    visits.settles_method reads closed (.of_isPunctuation closes (by decide) before (by omega))
  have passed := visits.passed
  have distinct : (code.parameterNames (position + 1)).Nodup := by
    obtain ⟨added, list, distinct, _⟩ := step_names state visits.inside
    rw [reads, casts.declared] at list
    exact List.append_cancel_left list ▸ distinct
  have final : Outline.ofCode code = (run code (Walk.start code.layout) 0).toOutline := rfl
  refine ⟨⟨?_, ?_⟩, state.scopes.size, close, later, closed, visits.scope_method reads closed, ?_, ?_⟩
  · rw [final, (settles position (by omega)).marked]
    exact casts.isTypeWord names.identifier (by simp) List.not_mem_nil
  · rw [final, (settles position (by omega)).mem_names, casts.declared, List.mem_append]
    rintro (former | parameter)
    · exact absurd (passed position former) (Nat.lt_irrefl _)
    · have := Code.lt_parameterNames parameter
      omega
  · intro word behind before
    have untyped : ∀ run, none = some run → code.typeBefore? position = some run := fun run impossible => by
      cases impossible
    obtain ⟨after, result, opening⟩ := methodDeclaration_opening state names.identifier closed untyped
      (code.isPunctuation_lt_size names.opens)
    have known : word < state.layout.size := visits.sound.layout ▸ Nat.lt_of_le_of_lt before inside
    rw [final, (settles word before).home, result,
      opening.taken known (Or.inr ⟨behind, by omega, Nat.lt_of_le_of_lt before inside⟩)]
  · intro name parameter
    obtain ⟨_, _, again, low, high⟩ := Code.parameterNames_bounds parameter
    rw [closed] at again
    cases again
    have settled := settles name (Nat.le_of_lt high)
    refine ⟨?_, ?_⟩
    · rw [final, settled.count, casts.declared, List.count_append,
        List.count_eq_zero.mpr fun former => absurd (passed name former) (by omega), Nat.zero_add]
      have once := List.nodup_iff_count.mp distinct name
      have present := List.count_pos_iff.mpr parameter
      omega
    · refine Outline.mem_entries.mp (settled.mem_entries.mpr ?_)
      rw [(methodDeclaration_adds state none closed).2]
      simp [parameter]

end NamesConstructor

end Walk

/-- The name of a type in its body, where a declaration may begin and in front of a list, opens a constructor with its
parameters if and only if it does not directly follow an annotation without values. -/
theorem constructor_recognised_iff {tokens : List Token} {code : Code} {state : Walk} {position : Nat}
    (paired : Code.ofTokens tokens = .ok code)
    (visits : Walk.Visits code (Walk.start code.layout) 0 state position)
    (names : Walk.NamesConstructor code state position) :
    (Outline.ofCode code).HasConstructor code state.frame.scope position ↔ code.followsAnnotation position = false := by
  constructor
  · intro has
    rw [Bool.eq_false_iff]
    intro follows
    exact names.not_hasConstructor (Code.ofTokens_balanced paired) visits follows _ has
  · exact names.hasConstructor (Code.ofTokens_matched paired) visits

/-- A constructor behind an annotation with values and a modifier. -/
theorem constructor_recognised_iff_modifier :
    ∃ tokens code state, Token.ofText "class K { @A(1) public K(int a, int b) { } }" = .ok tokens ∧
      Code.ofTokens tokens = .ok code ∧ Walk.Visits code (Walk.start code.layout) 0 state 9 ∧
      Walk.NamesConstructor code state 9 ∧ code.followsAnnotation 9 = false ∧
      (Outline.ofCode code).HasConstructor code state.frame.scope 9 := by
  have computed : ((Token.ofText "class K { @A(1) public K(int a, int b) { } }").toOption.any fun tokens =>
      (Code.ofTokens tokens).toOption.any fun code => (Walk.visited code (Walk.start code.layout) 0).any fun entry =>
        decide (entry.2 = 9 ∧ Walk.NamesConstructor code entry.1 9 ∧ code.followsAnnotation 9 = false)) = true := by
    decide +kernel
  obtain ⟨tokens, split, further⟩ := exists_ok_of_any computed
  obtain ⟨code, paired, walked⟩ := exists_ok_of_any further
  obtain ⟨⟨state, position⟩, member, facts⟩ := List.any_eq_true.mp walked
  obtain ⟨rfl, names, plain⟩ := of_decide_eq_true facts
  have visits := Walk.mem_visited.mp member
  exact ⟨tokens, code, state, split, paired, visits, names, plain,
    (constructor_recognised_iff paired visits names).mpr plain⟩

/-- A constructor directly behind an annotation without values is read over. -/
theorem annotated_constructor_missed :
    ∃ tokens code state, Token.ofText "class K { @Foo K(int a) { } }" = .ok tokens ∧
      Code.ofTokens tokens = .ok code ∧ Walk.Visits code (Walk.start code.layout) 0 state 5 ∧
      Walk.NamesConstructor code state 5 ∧ ¬(Outline.ofCode code).HasConstructor code state.frame.scope 5 := by
  have computed : ((Token.ofText "class K { @Foo K(int a) { } }").toOption.any fun tokens =>
      (Code.ofTokens tokens).toOption.any fun code => (Walk.visited code (Walk.start code.layout) 0).any fun entry =>
        decide (entry.2 = 5 ∧ Walk.NamesConstructor code entry.1 5 ∧
          (Outline.ofCode code).isTypeWord 5 = false)) = true := by
    decide +kernel
  obtain ⟨tokens, split, further⟩ := exists_ok_of_any computed
  obtain ⟨code, paired, walked⟩ := exists_ok_of_any further
  obtain ⟨⟨state, position⟩, member, facts⟩ := List.any_eq_true.mp walked
  obtain ⟨rfl, names, unmarked⟩ := of_decide_eq_true facts
  refine ⟨tokens, code, state, split, paired, Walk.mem_visited.mp member, names, ?_⟩
  intro has
  rw [has.refers.1] at unmarked
  cases unmarked

end ScopedRename
