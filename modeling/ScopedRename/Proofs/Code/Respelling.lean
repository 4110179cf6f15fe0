import ScopedRename.Proofs.Code.Reach
import ScopedRename.Proofs.Token.Tiling

/-!
Respelling the identifiers of code. Where statements end, how lists split, which words a header covers and where types
stand is read off keywords and punctuation; the scans over respelled code reach the same positions, and the texts they
read are the respelled ones.
-/

namespace ScopedRename

def Lexeme.respell (spell : String → String) (word : Lexeme) : Lexeme :=
  if word.isIdentifier then { word with text := spell word.text } else word

namespace Lexeme

variable (spell : String → String) (word : Lexeme)

@[simp]
theorem respell_kind : (word.respell spell).kind = word.kind := by
  unfold respell
  split
  · rfl
  · rfl

@[simp]
theorem respell_id : respell id = id := by
  funext word
  unfold respell
  split
  · rfl
  · rfl

theorem respell_of_kind_ne (other : word.kind ≠ .identifier) : word.respell spell = word := by
  unfold respell isIdentifier
  rw [if_neg (by simpa using other)]

@[simp]
theorem respell_isPunctuation (text : String) : (word.respell spell).isPunctuation text = word.isPunctuation text := by
  by_cases kind : word.kind = .identifier
  · unfold isPunctuation
    rw [respell_kind, kind]
    rfl
  · rw [respell_of_kind_ne spell word kind]

@[simp]
theorem respell_isKeyword (text : String) : (word.respell spell).isKeyword text = word.isKeyword text := by
  by_cases kind : word.kind = .identifier
  · unfold isKeyword
    rw [respell_kind, kind]
    rfl
  · rw [respell_of_kind_ne spell word kind]

@[simp]
theorem respell_isIdentifier : (word.respell spell).isIdentifier = word.isIdentifier := by
  unfold isIdentifier
  rw [respell_kind]

@[simp]
theorem respell_opens? : (word.respell spell).opens? = word.opens? := by
  by_cases kind : word.kind = .identifier
  · simp [opens?, kind]
  · rw [respell_of_kind_ne spell word kind]

@[simp]
theorem respell_closes? : (word.respell spell).closes? = word.closes? := by
  by_cases kind : word.kind = .identifier
  · simp [closes?, kind]
  · rw [respell_of_kind_ne spell word kind]

end Lexeme

namespace Layout

/-- The words with every identifier respelled, in a layout of their own. -/
def respell (layout : Layout) (spell : String → String) : Layout :=
  bare (layout.words.map (Lexeme.respell spell))

variable (layout : Layout) (spell : String → String)

@[simp]
theorem respell_size : (layout.respell spell).size = layout.size := by
  rw [respell, size_bare, List.length_map, length_words]

@[simp]
theorem respell_words : (layout.respell spell).words = layout.words.map (Lexeme.respell spell) := words_bare _

@[simp]
theorem respell_word? (position : Nat) :
    (layout.respell spell).word? position = (layout.word? position).map (Lexeme.respell spell) := by
  rw [respell, word?_bare, List.getElem?_map, getElem?_words]

end Layout

namespace Code

def respell (code : Code) (spell : String → String) : Code :=
  { code with layout := code.layout.respell spell }

variable (code : Code) (spell : String → String)

@[simp]
theorem respell_word? (position : Nat) :
    (code.respell spell).word? position = (code.word? position).map (Lexeme.respell spell) :=
  code.layout.respell_word? spell position

@[simp]
theorem respell_size : (code.respell spell).size = code.size := code.layout.respell_size spell

variable {code spell} in
/-- Codes that are respelled alike agree in all that does not depend on spelling. -/
theorem eq_of_respell {value : Type} (read : Code → value)
    (ignores : ∀ code spell, read (code.respell spell) = read code)
    {other : Code} {again : String → String} (respelled : code.respell spell = other.respell again) :
    read code = read other := by
  rw [← ignores code spell, respelled, ignores]

@[simp]
theorem respell_last : (code.respell spell).last = code.last := by
  unfold last
  rw [respell_size]

@[simp]
theorem respell_isPunctuation : (code.respell spell).isPunctuation = code.isPunctuation := by
  funext position text
  simp [isPunctuation, Option.any_map]

@[simp]
theorem respell_isKeyword : (code.respell spell).isKeyword = code.isKeyword := by
  funext position text
  simp [isKeyword, Option.any_map]

@[simp]
theorem respell_isIdentifier : (code.respell spell).isIdentifier = code.isIdentifier := by
  funext position
  simp [isIdentifier, Option.any_map]

@[simp]
theorem respell_isCloser : (code.respell spell).isCloser = code.isCloser := by
  funext position
  simp [isCloser, Option.any_map]

@[simp]
theorem respell_partner? : (code.respell spell).partner? = code.partner? := rfl

@[simp]
theorem respell_close? : (code.respell spell).close? = code.close? := rfl

@[simp]
theorem respell_afterGroup? : (code.respell spell).afterGroup? = code.afterGroup? := rfl

@[simp]
theorem respell_followsPunctuation : (code.respell spell).followsPunctuation = code.followsPunctuation := by
  funext position text
  cases position with
  | zero => rfl
  | succ position => simp [followsPunctuation]

@[simp]
theorem respell_followsKeyword : (code.respell spell).followsKeyword = code.followsKeyword := by
  funext position text
  cases position with
  | zero => rfl
  | succ position => simp [followsKeyword]

@[simp]
theorem respell_isTypeArgumentPart : (code.respell spell).isTypeArgumentPart = code.isTypeArgumentPart := by
  funext position
  unfold isTypeArgumentPart
  rw [respell_word?]
  cases code.word? position with
  | none => rfl
  | some word =>
      by_cases kind : word.kind = .identifier
      · simp [kind]
      · rw [Option.map_some, Lexeme.respell_of_kind_ne spell word kind]

@[simp]
theorem respell_angleOpenFrom (depth position : Nat) :
    (code.respell spell).angleOpenFrom depth position = code.angleOpenFrom depth position := by
  induction position generalizing depth with
  | zero => simp [angleOpenFrom]
  | succ position ih => simp [angleOpenFrom, ih]

@[simp]
theorem respell_angleOpen? : (code.respell spell).angleOpen? = code.angleOpen? := by
  funext close
  simp [angleOpen?]

@[simp]
theorem respell_genericOpen? : (code.respell spell).genericOpen? = code.genericOpen? := by
  funext close
  simp [genericOpen?]

@[simp]
theorem respell_angleCloseFrom (depth position : Nat) :
    (code.respell spell).angleCloseFrom depth position = code.angleCloseFrom depth position := by
  fun_induction code.angleCloseFrom depth position <;> rw [angleCloseFrom] <;> simp [*]

@[simp]
theorem respell_angleClose? : (code.respell spell).angleClose? = code.angleClose? := by
  funext start
  simp [angleClose?]

@[simp]
theorem respell_beforeDimensions (position : Nat) :
    (code.respell spell).beforeDimensions position = code.beforeDimensions position := by
  fun_induction code.beforeDimensions position <;> simp [beforeDimensions, *]

@[simp]
theorem respell_qualifiedName (position : Nat) :
    (code.respell spell).qualifiedName position = code.qualifiedName position := by
  fun_induction code.qualifiedName position <;> simp [qualifiedName, *]

@[simp]
theorem respell_qualifiedStart (position : Nat) :
    (code.respell spell).qualifiedStart position = code.qualifiedStart position := by
  fun_induction code.qualifiedStart position <;> simp [qualifiedStart, *]

@[simp]
theorem respell_identifiersIn : (code.respell spell).identifiersIn = code.identifiersIn := by
  funext start stop
  simp [identifiersIn]

@[simp]
theorem respell_typeEndingAt : (code.respell spell).typeEndingAt = code.typeEndingAt := by
  funext isArray position
  have keyword (name : Nat) : ((code.respell spell).word? name).any
      (fun word => word.kind == .keyword && isTypeKeyword word.text) =
      (code.word? name).any fun word => word.kind == .keyword && isTypeKeyword word.text := by
    rw [respell_word?]
    cases code.word? name with
    | none => rfl
    | some word =>
        by_cases kind : word.kind = .identifier
        · rw [Option.map_some, Option.any_some, Option.any_some, Lexeme.respell_kind, kind]
          rfl
        · rw [Option.map_some, Lexeme.respell_of_kind_ne spell word kind]
  unfold typeEndingAt
  simp only [keyword, respell_isPunctuation, respell_genericOpen?, respell_identifiersIn, respell_isIdentifier,
    respell_qualifiedStart, respell_qualifiedName]

@[simp]
theorem respell_typeBefore? : (code.respell spell).typeBefore? = code.typeBefore? := by
  funext position
  cases position with
  | zero => rfl
  | succ position => simp [typeBefore?]

@[simp]
theorem respell_isAnnotationName : (code.respell spell).isAnnotationName = code.isAnnotationName := by
  funext position
  simp [isAnnotationName]

@[simp]
theorem respell_startsStatement : (code.respell spell).startsStatement = code.startsStatement := by
  funext position
  induction position using Nat.strongRecOn with
  | ind position earlier =>
      conv_lhs => rw [startsStatement.eq_def]
      conv_rhs => rw [startsStatement.eq_def]
      cases position with
      | zero => rfl
      | succ previous =>
          dsimp only
          rw [respell_word?]
          cases code.word? previous with
          | none => rfl
          | some word =>
              by_cases kind : word.kind = .identifier
              · simp [kind]
              · rw [Option.map_some, Lexeme.respell_of_kind_ne spell word kind]
                simp only [respell_partner?, respell_isAnnotationName, respell_angleOpen?]
                cases code.angleOpen? previous with
                | none => rfl
                | some start =>
                    by_cases before : start < previous + 1
                    · simp only [if_pos before, earlier start before]
                    · simp only [if_neg before]

@[simp]
theorem respell_semicolonFrom (start position : Nat) :
    (code.respell spell).semicolonFrom start position = code.semicolonFrom start position := by
  fun_induction code.semicolonFrom start position <;> rw [semicolonFrom] <;> simp [*]

@[simp]
theorem respell_isLoopHead : (code.respell spell).isLoopHead = code.isLoopHead := by
  funext position
  simp [isLoopHead]

@[simp]
theorem respell_afterParentheses? : (code.respell spell).afterParentheses? = code.afterParentheses? := by
  funext position
  simp [afterParentheses?]

/-- Statements and handlers up to a size, the measure of their mutual recursion. -/
private theorem respell_statements (bound : Nat) :
    (∀ position, 2 * (code.size - position) + 1 ≤ bound →
      (code.respell spell).statementEnd position = code.statementEnd position) ∧
    ∀ stop, 2 * (code.size - stop) ≤ bound →
      (code.respell spell).handlersEnd stop = code.handlersEnd stop := by
  induction bound using Nat.strongRecOn with
  | ind bound smaller =>
      have statement (position : Nat) (less : 2 * (code.size - position) + 1 < bound) :=
        (smaller _ less).1 position (Nat.le_refl _)
      have handlers (stop : Nat) (less : 2 * (code.size - stop) < bound) :=
        (smaller _ less).2 stop (Nat.le_refl _)
      -- what a statement or a handler calls has less left to read, so the bound falls with each call
      constructor
      · intro position bounded
        conv_lhs => rw [statementEnd]
        conv_rhs => rw [statementEnd]
        simp only [respell_size, respell_isPunctuation, respell_close?, respell_last, respell_isLoopHead,
          respell_afterParentheses?, respell_semicolonFrom, respell_isKeyword]
        split
        · rename_i inside
          split
          · rfl
          · split
            · split
              · rename_i body later _
                exact statement body (by omega)
              · rfl
            · split
              · split
                · rename_i body later _
                  rw [statement body (by omega)]
                  split
                  · refine statement _ ?_
                    omega
                  · rfl
                · rfl
              · split
                · rw [statement (position + 1) (by omega)]
                · split
                  · split
                    · rename_i block later _
                      rw [statement block (by omega)]
                      refine handlers _ ?_
                      omega
                    · rw [statement (position + 1) (by omega)]
                      refine handlers _ ?_
                      omega
                  · rfl
        · rfl
      · intro stop bounded
        conv_lhs => rw [handlersEnd]
        conv_rhs => rw [handlersEnd]
        simp only [respell_size, respell_isKeyword, respell_afterParentheses?]
        split
        · rename_i inside
          split
          · split
            · rename_i block later _
              rw [statement block (by omega)]
              refine handlers _ ?_
              omega
            · rfl
          · split
            · rw [statement (stop + 2) (by omega)]
              refine handlers _ ?_
              omega
            · rfl
        · rfl

@[simp]
theorem respell_statementEnd : (code.respell spell).statementEnd = code.statementEnd := by
  funext position
  exact (code.respell_statements spell _).1 position (Nat.le_refl _)

@[simp]
theorem respell_expressionEndFrom (stop position : Nat) :
    (code.respell spell).expressionEndFrom stop position = code.expressionEndFrom stop position := by
  fun_induction code.expressionEndFrom stop position <;> rw [expressionEndFrom] <;> simp [*]

@[simp]
theorem respell_expressionEnd : (code.respell spell).expressionEnd = code.expressionEnd := by
  funext position
  simp [expressionEnd]

@[simp]
theorem respell_segmentsFrom (close : Nat) (generics : Bool) (start angle position : Nat) :
    (code.respell spell).segmentsFrom close generics start angle position =
      code.segmentsFrom close generics start angle position := by
  fun_induction code.segmentsFrom close generics start angle position <;> rw [segmentsFrom] <;> simp [*]

@[simp]
theorem respell_segments : (code.respell spell).segments = code.segments := by
  funext opener generics
  simp [segments]

@[simp]
theorem respell_argumentCount : (code.respell spell).argumentCount = code.argumentCount := by
  funext opener
  simp [argumentCount]

/-! ### Headers -/

@[simp]
theorem respell_startsTypeParameter : (code.respell spell).startsTypeParameter = code.startsTypeParameter := by
  funext position
  simp [startsTypeParameter]

@[simp]
theorem respell_typeParametersFrom : (code.respell spell).typeParametersFrom = code.typeParametersFrom := by
  funext close depth position
  fun_induction code.typeParametersFrom close depth position <;> rw [typeParametersFrom] <;> simp [*]

@[simp]
theorem respell_headerStop : (code.respell spell).headerStop = code.headerStop := by
  funext position
  fun_induction code.headerStop position <;> rw [headerStop] <;> simp [*]

@[simp]
theorem respell_opensInheritance : (code.respell spell).opensInheritance = code.opensInheritance := by
  funext position
  simp [opensInheritance]

@[simp]
theorem respell_methodHeader : (code.respell spell).methodHeader = code.methodHeader := by
  funext throwing position
  induction bound : code.size - position using Nat.strongRecOn generalizing throwing position with
  | ind size shorter =>
      conv_lhs => rw [methodHeader]
      conv_rhs => rw [methodHeader]
      simp only [respell_size, respell_isPunctuation, respell_isKeyword, respell_afterGroup?]
      split
      · split
        · rfl
        · split
          · rename_i next later _
            rw [shorter _ (by omega) _ next rfl]
          · rw [shorter _ (by omega) _ (position + 1) rfl]
      · rfl

@[simp]
theorem respell_methodTypeParameters? : (code.respell spell).methodTypeParameters? = code.methodTypeParameters? := by
  funext type
  simp [methodTypeParameters?]

@[simp]
theorem respell_beforeBrackets (first position : Nat) :
    (code.respell spell).beforeBrackets first position = code.beforeBrackets first position := by
  induction position with
  | zero => rfl
  | succ position ih => simp [beforeBrackets, ih]

@[simp]
theorem respell_parameterName? : (code.respell spell).parameterName? = code.parameterName? := by
  funext first last
  simp [parameterName?]

@[simp]
theorem respell_dottedName (position : Nat) :
    (code.respell spell).dottedName position = code.dottedName position := by
  induction bound : code.size - position using Nat.strongRecOn generalizing position with
  | ind size shorter =>
      conv_lhs => rw [dottedName]
      conv_rhs => rw [dottedName]
      simp only [respell_size, respell_isPunctuation, respell_isIdentifier]
      split
      · rw [shorter _ (by omega) (position + 2) rfl]
      · rfl

@[simp]
theorem respell_parameterTypeWords : (code.respell spell).parameterTypeWords = code.parameterTypeWords := by
  funext name position
  induction bound : name - position using Nat.strongRecOn generalizing position with
  | ind size shorter =>
      conv_lhs => rw [parameterTypeWords]
      conv_rhs => rw [parameterTypeWords]
      rw [respell_dottedName, respell_isPunctuation, respell_afterParentheses?, respell_afterGroup?]
      split
      · split
        · dsimp only
          rw [shorter _ (by omega) _ rfl]
        · split
          · rename_i next later _
            exact shorter _ (by omega) next rfl
          · rw [shorter _ (by omega) (position + 1) rfl]
      · rfl

@[simp]
theorem respell_endsDeclarator : (code.respell spell).endsDeclarator = code.endsDeclarator := by
  funext position
  simp [endsDeclarator]

@[simp]
theorem respell_isCatchParameter : (code.respell spell).isCatchParameter = code.isCatchParameter := by
  funext start
  simp [isCatchParameter]

@[simp]
theorem respell_continuesLabel : (code.respell spell).continuesLabel = code.continuesLabel := by
  funext position
  simp [continuesLabel, Option.any_map]

@[simp]
theorem respell_isCaseLabel : (code.respell spell).isCaseLabel = code.isCaseLabel := by
  funext position
  induction position with
  | zero => rfl
  | succ position ih => simp [isCaseLabel, ih]

@[simp]
theorem respell_typeNameWords : (code.respell spell).typeNameWords = code.typeNameWords := by
  funext position
  induction bound : code.size - position using Nat.strongRecOn generalizing position with
  | ind size shorter =>
      conv_lhs => rw [typeNameWords]
      conv_rhs => rw [typeNameWords]
      simp only [respell_size, respell_isPunctuation, respell_isIdentifier, respell_angleClose?,
        respell_identifiersIn]
      split
      · split
        · rw [shorter _ (by omega) (position + 2) rfl]
        · rfl
      · rfl

theorem respell_text_of_isIdentifier {position : Nat} (identifier : code.isIdentifier position = true) :
    (code.respell spell).text position = spell (code.text position) := by
  unfold isIdentifier at identifier
  unfold text
  rw [respell_word?]
  cases found : code.word? position with
  | none =>
      rw [found] at identifier
      cases identifier
  | some word =>
      rw [found, Option.any_some] at identifier
      simp [Lexeme.respell, identifier]

@[simp]
theorem respell_withDimensions : (code.respell spell).withDimensions = code.withDimensions := by
  funext type name
  simp [withDimensions]

theorem respell_supertypesFrom (stop : Nat) (inClause : Bool) (angle position : Nat) :
    (code.respell spell).supertypesFrom stop inClause angle position =
      (code.supertypesFrom stop inClause angle position).map spell := by
  fun_induction code.supertypesFrom stop inClause angle position with
  | case4 inClause angle position inside _ _ _ lists ih =>
      have identifier : code.isIdentifier position = true := by
        simp only [Bool.and_eq_true] at lists
        exact lists.1.1.1
      rw [supertypesFrom]
      simp_all [code.respell_text_of_isIdentifier spell identifier]
  | case1 => rw [supertypesFrom]; simp [*]
  | case2 => rw [supertypesFrom]; simp [*]
  | case3 => rw [supertypesFrom]; simp [*]
  | case5 => rw [supertypesFrom]; simp [*]
  | case6 => rw [supertypesFrom]; simp [*]

/-! ### Types as declarations write them -/

end Code

/-- The respelling leaves type keywords alone and turns nothing else into one. -/
structure KeepsTypeKeywords (spell : String → String) : Prop where
  fixes : ∀ text, isTypeKeyword text = true → spell text = text
  reflects : ∀ text, isTypeKeyword (spell text) = isTypeKeyword text

theorem KeepsTypeKeywords.id : KeepsTypeKeywords id := ⟨fun _ _ => rfl, fun _ => rfl⟩

/-- No text but `var` is respelled to `var`. -/
theorem KeepsTypeKeywords.var_iff {spell : String → String} (keeps : KeepsTypeKeywords spell) (text : String) :
    spell text = "var" ↔ text = "var" := by
  have keyword : isTypeKeyword "var" = true := by decide
  constructor
  · intro respelled
    have isKeyword : isTypeKeyword text = true := by
      rw [← keeps.reflects text, respelled]
      exact keyword
    rw [← keeps.fixes text isKeyword, respelled]
  · intro same
    rw [same]
    exact keeps.fixes "var" keyword

def DeclaredType.respell (spell : String → String) (type : DeclaredType) : DeclaredType :=
  { type with base := spell type.base }

namespace Code

variable {code : Code} {spell : String → String}

theorem respell_typeText (keeps : KeepsTypeKeywords spell) {name : Nat} {run : TypeRun}
    (before : code.typeBefore? name = some run) :
    (code.respell spell).text (run.simple.getD run.start) = spell (code.text (run.simple.getD run.start)) := by
  obtain ⟨identifiers, keyword⟩ := code.typeBefore?_simple before
  cases simple : run.simple with
  | some word => exact code.respell_text_of_isIdentifier spell (identifiers word simple).2
  | none =>
      have spelled := keyword simple
      unfold spellsTypeKeyword at spelled
      simp only [Option.getD_none]
      cases found : code.word? run.start with
      | none =>
          rw [found] at spelled
          cases spelled
      | some word =>
          rw [found, Option.any_some] at spelled
          obtain ⟨kind, typeKeyword⟩ := Bool.and_eq_true_iff.mp spelled
          have other : word.kind ≠ .identifier := by
            rw [beq_iff_eq.mp kind]
            decide
          have text : code.text run.start = word.text := by
            unfold Code.text
            rw [found]
            rfl
          unfold Code.text at text ⊢
          rw [text, respell_word?, found, Option.map_some, Lexeme.respell_of_kind_ne spell word other,
            keeps.fixes word.text typeKeyword]
          rfl

theorem respell_declaredType? (keeps : KeepsTypeKeywords spell) {name : Nat} {run : TypeRun}
    (before : code.typeBefore? name = some run) :
    (code.respell spell).declaredType? run = (code.declaredType? run).map (DeclaredType.respell spell) := by
  unfold declaredType?
  simp only [respell_typeText keeps before, beq_iff_eq, keeps.var_iff]
  split
  · rfl
  · rfl

theorem withDimensions_respell (type : DeclaredType) (name : Nat) :
    code.withDimensions (type.respell spell) name = (code.withDimensions type name).respell spell := by
  unfold withDimensions
  split
  · rfl
  · rfl

theorem respell_typeOfName? (keeps : KeepsTypeKeywords spell) {name : Nat} {run : TypeRun}
    (before : code.typeBefore? name = some run) :
    (code.respell spell).typeOfName? run name = (code.typeOfName? run name).map (DeclaredType.respell spell) := by
  unfold typeOfName?
  rw [respell_declaredType? keeps before, respell_withDimensions, Option.map_map, Option.map_map]
  congr 1
  funext type
  exact withDimensions_respell type name

def createdName? (code : Code) (brace : Nat) : Option Nat :=
  match brace with
  | 0 => none
  | close + 1 =>
    if code.isPunctuation close ")" then
      (code.partner? close).bind fun opener => (code.typeBefore? opener).bind fun run =>
        if code.followsKeyword run.start "new" then run.simple else none
    else
      none

theorem anonymousSupertype?_eq (brace : Nat) :
    code.anonymousSupertype? brace = (code.createdName? brace).map code.text := by
  cases brace with
  | zero => rfl
  | succ close =>
      unfold anonymousSupertype? createdName?
      dsimp only
      split
      · cases code.partner? close with
        | none => rfl
        | some opener =>
            dsimp only [bind, Option.bind]
            cases code.typeBefore? opener with
            | none => rfl
            | some run =>
                dsimp only
                split
                · rfl
                · rfl
      · rfl

theorem createdName?_isIdentifier {brace word : Nat} (created : code.createdName? brace = some word) :
    code.isIdentifier word = true := by
  cases brace with
  | zero => cases created
  | succ close =>
      unfold createdName? at created
      dsimp only at created
      split at created
      · obtain ⟨opener, _, rest⟩ := Option.bind_eq_some_iff.mp created
        obtain ⟨run, before, simple⟩ := Option.bind_eq_some_iff.mp rest
        split at simple
        · exact ((code.typeBefore?_simple before).1 word simple).2
        · cases simple
      · cases created

@[simp]
theorem respell_createdName? : (code.respell spell).createdName? = code.createdName? := by
  funext brace
  simp [createdName?]

theorem respell_anonymousSupertype? (brace : Nat) :
    (code.respell spell).anonymousSupertype? brace = (code.anonymousSupertype? brace).map spell := by
  rw [anonymousSupertype?_eq, anonymousSupertype?_eq, respell_createdName?]
  cases created : code.createdName? brace with
  | none => rfl
  | some word =>
      rw [Option.map_some, Option.map_some, Option.map_some,
        code.respell_text_of_isIdentifier spell (createdName?_isIdentifier created)]

/-! ### Pairing -/

private theorem bracketPairs_respell (spell : String → String) (position : Nat) (pending : List (Nat × Delimiter))
    (words : List Lexeme) :
    bracketPairs position pending (words.map (Lexeme.respell spell)) = bracketPairs position pending words := by
  induction words generalizing position pending with
  | nil =>
      cases pending with
      | nil => rfl
      | cons opened outer => rfl
  | cons word rest ih =>
      rw [List.map_cons, bracketPairs, bracketPairs, Lexeme.respell_opens?, Lexeme.respell_closes?]
      simp only [ih]

theorem ofLayout_respell (spell : String → String) (layout : Layout) :
    ofLayout (layout.respell spell) = (ofLayout layout).map fun code => code.respell spell := by
  unfold ofLayout
  rw [Layout.respell_words, bracketPairs_respell, Layout.respell_size]
  cases bracketPairs 0 [] layout.words with
  | error fault => rfl
  | ok pairs => rfl

/-- Layouts that are respelled alike fail to pair alike, or give code that is respelled alike. -/
theorem ofLayout_of_respell {left right : Layout} {spell again : String → String}
    (same : left.respell spell = right.respell again) :
    (∃ fault, ofLayout left = .error fault ∧ ofLayout right = .error fault) ∨
      ∃ code other, ofLayout left = .ok code ∧ ofLayout right = .ok other ∧
        code.respell spell = other.respell again := by
  have paired := ofLayout_respell spell left
  rw [same, ofLayout_respell again right] at paired
  cases outcome : ofLayout right with
  | error fault =>
      rw [outcome] at paired
      cases built : ofLayout left with
      | error again =>
          rw [built] at paired
          cases paired
          exact Or.inl ⟨fault, rfl, rfl⟩
      | ok code =>
          rw [built] at paired
          cases paired
  | ok other =>
      rw [outcome] at paired
      obtain ⟨code, built, respelled⟩ := map_eq_ok.mp paired.symm
      exact Or.inr ⟨code, other, built, rfl, respelled⟩

theorem ofTokens_of_respell {tokens others : List Token} {spell again : String → String}
    (same : (Token.words tokens).map (Lexeme.respell spell) = (Token.words others).map (Lexeme.respell again)) :
    (∃ fault : BracketFault, ofLayout (Layout.ofTokens tokens) = .error fault ∧
        ofTokens tokens = .error (fault.relocate fun position => ((Layout.ofTokens tokens).span position).start) ∧
        ofTokens others = .error (fault.relocate fun position => ((Layout.ofTokens others).span position).start)) ∨
      ∃ code other, ofTokens tokens = .ok code ∧ ofTokens others = .ok other ∧
        code.respell spell = other.respell again := by
  have laid : (Layout.ofTokens tokens).respell spell = (Layout.ofTokens others).respell again := by
    rw [Layout.respell, Layout.respell, Layout.words_ofTokens, Layout.words_ofTokens, same]
  rcases ofLayout_of_respell laid with ⟨fault, failed, failedOther⟩ | ⟨code, other, built, builtOther, respelled⟩
  · exact Or.inl ⟨fault, failed, mapError_eq_error.mpr ⟨fault, failed, rfl⟩,
      mapError_eq_error.mpr ⟨fault, failedOther, rfl⟩⟩
  · exact Or.inr ⟨code, other, mapError_eq_ok.mpr built, mapError_eq_ok.mpr builtOther, respelled⟩

end Code

end ScopedRename
