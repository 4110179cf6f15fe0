import Mathlib.Data.List.Chain
import Mathlib.Data.List.Find
import ScopedRename.Proofs.Token.Names

/-!
A text whose identifiers are replaced by other names splits into the same tokens again, with the replacements in their
places. What follows a token tells where it ends, and no token but a number tells one name after it from another.
-/

namespace ScopedRename

namespace Lexer

def joinsNumber (c : Char) : Bool := c.isAlphanum || c == '_'

end Lexer

/-- Right after a number, the lexeme would be read as part of it. -/
def Lexeme.joinsNumber (lexeme : Lexeme) : Bool := lexeme.text.toList.head?.any Lexer.joinsNumber

namespace Lexer

/-- The texts are the same up to a place where both go on with a name. -/
inductive Alike : List Char → List Char → Prop where
  | nil : Alike [] []
  | same (c : Char) {left right : List Char} (further : Alike left right) : Alike (c :: left) (c :: right)
  | names {first second : Char} (left right : List Char) (firstStart : Name.isStart first = true)
      (secondStart : Name.isStart second = true) : Alike (first :: left) (second :: right)

namespace Alike

variable {left right : List Char}

theorem append (taken : List Char) (alike : Alike left right) : Alike (taken ++ left) (taken ++ right) := by
  induction taken with
  | nil => exact alike
  | cons c rest ih => exact .same c ih

theorem eq_nil (alike : Alike [] right) : right = [] := by
  cases alike with
  | nil => rfl

theorem head?_beq (alike : Alike left right) {c : Char} (noStart : Name.isStart c = false) :
    (right.head? == some c) = (left.head? == some c) := by
  cases alike with
  | nil => rfl
  | same _ _ => rfl
  | names _ _ firstStart secondStart =>
      simp [Name.ne_of_isStart firstStart noStart, Name.ne_of_isStart secondStart noStart]

theorem startsWithDigit_eq (alike : Alike left right) : startsWithDigit right = startsWithDigit left := by
  have noDigit {c : Char} (start : Name.isStart c = true) : c.isDigit = false := by
    cases digit : c.isDigit with
    | false => rfl
    | true => exact absurd rfl (Name.ne_of_isStart start (Name.isStart_of_isDigit digit))
  cases alike with
  | nil => rfl
  | same _ _ => rfl
  | names _ _ firstStart secondStart => simp [startsWithDigit, noDigit firstStart, noDigit secondStart]

/-- Marks with no name among them start both texts or neither. -/
theorem isPrefixOf_eq {marks : List Char} (alike : Alike left right)
    (noStarts : ∀ c ∈ marks, Name.isStart c = false) : marks.isPrefixOf right = marks.isPrefixOf left := by
  induction alike generalizing marks with
  | nil => rfl
  | same c further ih =>
      cases marks with
      | nil => rfl
      | cons mark rest =>
          simp only [List.isPrefixOf_cons_cons]
          rw [ih fun other member => noStarts other (List.mem_cons_of_mem _ member)]
  | names left right firstStart secondStart =>
      cases marks with
      | nil => rfl
      | cons mark rest =>
          have noStart := noStarts mark List.mem_cons_self
          have first := (Name.ne_of_isStart firstStart noStart).symm
          have second := (Name.ne_of_isStart secondStart noStart).symm
          simp only [List.isPrefixOf_cons_cons, beq_eq_false_iff_ne.mpr first, beq_eq_false_iff_ne.mpr second,
            Bool.false_and]

theorem operatorReach_eq (alike : Alike left right) : operatorReach right = operatorReach left := by
  have checked : (operators.all fun marks => marks.all fun c => !Name.isStart c) = true := by decide +kernel
  have noStarts : ∀ marks ∈ operators, ∀ c ∈ marks, Name.isStart c = false := by
    simpa only [List.all_eq_true, Bool.not_eq_true'] using checked
  have same : operators.find? (·.isPrefixOf right) = operators.find? (·.isPrefixOf left) := by
    refine List.find?_congr ?_
    intro marks member
    exact alike.isPrefixOf_eq (noStarts marks member)
  unfold operatorReach
  rw [same]

/-- A run of characters ends at the same place if it holds all names or none. -/
theorem takeWhile_eq_nil {test : Char → Bool} (alike : Alike left right)
    (uniform : ∀ c d, Name.isStart c = true → Name.isStart d = true → test c = test d)
    (stops : left.takeWhile test = []) : right.takeWhile test = [] := by
  cases alike with
  | nil => rfl
  | same c _ =>
      cases holds : test c with
      | true => simp [holds] at stops
      | false => simp [holds]
  | names _ _ firstStart secondStart =>
      rw [List.takeWhile_cons] at stops
      split at stops
      · cases stops
      · rename_i fails
        rw [uniform _ _ firstStart secondStart] at fails
        simp [fails]

end Alike

section Reach

variable {first : Char} {rest remaining : List Char} {count : Nat}

theorem take_of_alike (alike : Alike (rest.drop count) remaining) :
    (rest.take count ++ remaining).take count = rest.take count ∧
      (rest.take count ++ remaining).drop count = remaining := by
  rcases Nat.lt_or_ge rest.length count with beyond | within
  · have empty : rest.drop count = [] := List.drop_eq_nil_of_le (Nat.le_of_lt beyond)
    rw [empty] at alike
    have length : (rest.take count).length ≤ count := List.length_take_le count rest
    rw [alike.eq_nil, List.append_nil]
    exact ⟨List.take_of_length_le length, List.drop_eq_nil_of_le length⟩
  · have length : (rest.take count).length = count := List.length_take_of_le within
    exact ⟨List.take_left' length, List.drop_left' length⟩

theorem takeWhile_of_alike {test : Char → Bool}
    (uniform : ∀ c d, Name.isStart c = true → Name.isStart d = true → test c = test d)
    (taken : (rest.takeWhile test).length = count) (alike : Alike (rest.drop count) remaining) :
    (rest.take count ++ remaining).takeWhile test = rest.takeWhile test := by
  induction rest generalizing count with
  | nil =>
      rw [List.drop_nil] at alike
      rw [alike.eq_nil]
      simp
  | cons c rest ih =>
      cases holds : test c with
      | true =>
          rw [List.takeWhile_cons, if_pos holds, List.length_cons] at taken
          subst taken
          rw [List.take_succ_cons, List.cons_append, List.takeWhile_cons, List.takeWhile_cons, if_pos holds,
            if_pos holds, ih rfl alike]
      | false =>
          rw [List.takeWhile_cons, holds] at taken
          cases taken
          have stops : (c :: rest).takeWhile test = [] := by simp [holds]
          rw [stops]
          exact alike.takeWhile_eq_nil uniform stops

/-- The end of a block comment is found whatever follows it. -/
theorem commentLength?_append {chars : List Char} {length : Nat} (found : commentLength? chars = some length)
    (after : List Char) : 0 < length ∧ commentLength? (chars.take length ++ after) = some length := by
  fun_induction commentLength? chars generalizing length with
  | case1 => cases found
  | case2 rest =>
      cases found
      exact ⟨by omega, rfl⟩
  | case3 c rest other ih =>
      obtain ⟨shorter, inside, same⟩ := Option.map_eq_some_iff.mp found
      obtain ⟨positive, again⟩ := ih inside
      subst same
      refine ⟨by omega, ?_⟩
      rw [List.take_succ_cons, List.cons_append]
      cases rest with
      | nil => cases inside
      | cons next rest =>
          cases shorter with
          | zero => omega
          | succ shorter =>
              rw [List.take_succ_cons, List.cons_append] at again ⊢
              rw [commentLength?, again]
              · rfl
              · intro tail closes opens
                simp only [List.cons.injEq] at opens
                exact other rest closes (by rw [opens.1])

/-- The quotes that close a text block are found whatever follows them. -/
theorem textBlockLength?_append {chars : List Char} {length : Nat} (found : textBlockLength? chars = some length)
    (after : List Char) : 3 ≤ length ∧ textBlockLength? (chars.take length ++ after) = some length := by
  fun_induction textBlockLength? chars generalizing length with
  | case1 => cases found
  | case2 rest =>
      cases found
      exact ⟨by omega, rfl⟩
  | case3 escaped rest ih =>
      obtain ⟨shorter, inside, same⟩ := Option.map_eq_some_iff.mp found
      obtain ⟨enough, again⟩ := ih inside
      subst same
      refine ⟨by omega, ?_⟩
      rw [List.take_succ_cons, List.take_succ_cons, List.cons_append, List.cons_append, textBlockLength?, again]
      rfl
  | case4 c rest open_ escape ih =>
      obtain ⟨shorter, inside, same⟩ := Option.map_eq_some_iff.mp found
      obtain ⟨enough, again⟩ := ih inside
      subst same
      refine ⟨by omega, ?_⟩
      rw [List.take_succ_cons, List.cons_append]
      obtain ⟨shorter, rfl⟩ := Nat.exists_eq_add_of_le' enough
      match rest with
      | [] => cases inside
      | [only] => simp [textBlockLength?] at inside
      | second :: third :: rest =>
          simp only [List.take_succ_cons, List.cons_append] at again ⊢
          rw [textBlockLength?, again]
          · rfl
          · intro tail closes opens
            simp only [List.cons.injEq] at opens
            exact open_ rest closes (by rw [opens.1, opens.2.1])
          · intro escaped tail closes opens
            exact escape second (third :: rest) closes rfl

theorem quotedLength?_append {quote : Char} {chars : List Char} {length : Nat}
    (found : quotedLength? quote chars = some length) (after : List Char) :
    0 < length ∧ quotedLength? quote (chars.take length ++ after) = some length := by
  fun_induction quotedLength? quote chars generalizing length with
  | case1 => cases found
  | case2 escaped rest ih =>
      obtain ⟨shorter, inside, same⟩ := Option.map_eq_some_iff.mp found
      obtain ⟨_, again⟩ := ih inside
      subst same
      refine ⟨by omega, ?_⟩
      rw [List.take_succ_cons, List.take_succ_cons, List.cons_append, List.cons_append, quotedLength?, again]
      rfl
  | case3 c rest escape ends => cases found
  | case4 c rest escape ends closes =>
      cases found
      refine ⟨by omega, ?_⟩
      rw [List.take_succ_cons, List.take_zero, List.cons_append, List.nil_append]
      rw [quotedLength?, if_neg ends, if_pos closes]
      intro escaped tail backslash
      simp [backslash] at ends
  | case5 c rest escape ends open_ ih =>
      obtain ⟨shorter, inside, same⟩ := Option.map_eq_some_iff.mp found
      obtain ⟨_, again⟩ := ih inside
      subst same
      refine ⟨by omega, ?_⟩
      rw [List.take_succ_cons, List.cons_append, quotedLength?, if_neg ends, if_neg open_, again]
      · rfl
      · intro escaped tail backslash
        simp [backslash] at ends

/-- Where a number ends, nothing stands that would go on with it. -/
theorem numberLength_stops (hexadecimal : Bool) (previous : Char) (rest : List Char) :
    ∀ c ∈ (rest.drop (numberLength hexadecimal previous rest)).head?, joinsNumber c = false := by
  induction rest generalizing previous with
  | nil =>
      intro c impossible
      rw [List.drop_nil] at impossible
      cases impossible
  | cons d rest ih =>
      unfold numberLength
      split
      · exact ih d
      · rename_i stops
        intro c here
        cases here
        simp only [Bool.or_eq_true, not_or, Bool.not_eq_true] at stops
        exact Bool.or_eq_false_iff.mpr stops.1.1

/-- A number ends at the same place if what stands there now does not go on with it either. -/
theorem numberLength_of_alike {hexadecimal : Bool} {previous : Char}
    (taken : numberLength hexadecimal previous rest = count) (alike : Alike (rest.drop count) remaining)
    (apart : ∀ c ∈ remaining.head?, joinsNumber c = false) :
    numberLength hexadecimal previous (rest.take count ++ remaining) = count := by
  induction rest generalizing previous count with
  | nil =>
      rw [List.drop_nil] at alike
      rw [alike.eq_nil]
      simpa using taken
  | cons c rest ih =>
      unfold numberLength at taken
      split at taken
      · rename_i continues
        subst taken
        have further : startsWithDigit (rest.take (numberLength hexadecimal c rest) ++ remaining) =
            startsWithDigit rest := by
          have whole := alike.append (rest.take (numberLength hexadecimal c rest))
          rw [List.drop_succ_cons, List.take_append_drop] at whole
          exact whole.startsWithDigit_eq
        rw [List.take_succ_cons, List.cons_append, numberLength, further, if_pos continues, ih rfl alike]
      · rename_i stops
        subst taken
        cases alike with
        | same _ rested =>
            rw [List.take_zero, List.nil_append, numberLength, rested.startsWithDigit_eq, if_neg stops]
        | names _ right _ secondStart =>
            -- a name is neither a point nor a sign, so that what stands after its first character does not matter
            have outside := apart _ rfl
            simp only [joinsNumber, Bool.or_eq_false_iff] at outside
            rw [List.take_zero, List.nil_append, numberLength, outside.1, outside.2,
              beq_eq_false_iff_ne.mpr (Name.ne_of_isStart secondStart (d := '.') (by decide)),
              beq_eq_false_iff_ne.mpr (Name.ne_of_isStart secondStart (d := '+') (by decide)),
              beq_eq_false_iff_ne.mpr (Name.ne_of_isStart secondStart (d := '-') (by decide))]
            rfl

/-- A character that would go on with a number is its second one in both texts or in neither. -/
theorem head?_of_number {hexadecimal : Bool} {previous c : Char}
    (taken : numberLength hexadecimal previous rest = count) (alike : Alike (rest.drop count) remaining)
    (apart : ∀ c ∈ remaining.head?, joinsNumber c = false) (joins : joinsNumber c = true) :
    ((rest.take count ++ remaining).head? == some c) = (rest.head? == some c) := by
  have noHead {chars : List Char} (outside : ∀ c ∈ chars.head?, joinsNumber c = false) :
      (chars.head? == some c) = false := by
    rw [beq_eq_false_iff_ne]
    intro same
    rw [outside c same] at joins
    cases joins
  cases count with
  | zero =>
      have before := numberLength_stops hexadecimal previous rest
      rw [taken, List.drop_zero] at before
      rw [List.take_zero, List.nil_append, noHead apart, noHead before]
  | succ count =>
      cases rest with
      | nil =>
          rw [List.drop_nil] at alike
          rw [alike.eq_nil]
          rfl
      | cons d rest => rfl

/-- Where nothing else starts, nothing else starts in a text that is alike. -/
theorem Unclaimed.of_alike {other : List Char} (unclaimed : Unclaimed first rest) (alike : Alike rest other) :
    Unclaimed first other where
  noBlank := unclaimed.noBlank
  noStart := unclaimed.noStart
  noNumber := by
    unfold startsNumber
    rw [alike.startsWithDigit_eq]
    exact unclaimed.noNumber
  noQuote := unclaimed.noQuote
  noComment slash := by
    rw [← beq_eq_false_iff_ne, ← beq_eq_false_iff_ne, alike.head?_beq (by decide), alike.head?_beq (by decide),
      beq_eq_false_iff_ne, beq_eq_false_iff_ne]
    exact unclaimed.noComment slash

/-- A token ends at the same place if the text after it is alike and, after a number, does not go on with it. -/
theorem reach_of_alike {kind : TokenKind} (reached : reach first rest = .ok (kind, count))
    (alike : Alike (rest.drop count) remaining)
    (apart : kind = .number → ∀ c ∈ remaining.head?, joinsNumber c = false) :
    reach first (rest.take count ++ remaining) = .ok (kind, count) := by
  -- seen from the first character the two texts are alike as well, as they share the token
  have whole : Alike rest (rest.take count ++ remaining) := by
    have appended := alike.append (rest.take count)
    rwa [List.take_append_drop] at appended
  rw [reach_eq_iff] at reached ⊢
  cases reached with
  | blank blank run =>
      have again := takeWhile_of_alike Name.isBlank_uniform run alike
      exact .blank blank (again ▸ run)
  | line run =>
      have uniform (c d : Char) (start : Name.isStart c = true) (other : Name.isStart d = true) :
          (c != '\n') = (d != '\n') := by
        have lineEnd : Name.isStart '\n' = false := by decide
        rw [bne_iff_ne.mpr (Name.ne_of_isStart start lineEnd), bne_iff_ne.mpr (Name.ne_of_isStart other lineEnd)]
      have again := takeWhile_of_alike uniform run alike
      exact .line (again ▸ run)
  | block closed => exact .block (commentLength?_append closed remaining).2
  | textBlock closed => exact .textBlock (textBlockLength?_append closed remaining).2
  | string single closed =>
      have quote : Name.isStart '"' = false := by decide
      have quotes : ['"', '"'].isPrefixOf (rest.take count ++ remaining) = ['"', '"'].isPrefixOf rest :=
        whole.isPrefixOf_eq (by simp [quote])
      refine .string ?_ (quotedLength?_append closed remaining).2
      rwa [← List.isPrefixOf_iff_prefix, quotes, List.isPrefixOf_iff_prefix]
  | character closed => exact .character (quotedLength?_append closed remaining).2
  | word start run named =>
      have again := takeWhile_of_alike Name.isPart_uniform run alike
      exact .word start (again ▸ run) (again ▸ named)
  | number begins run =>
      have starts : startsNumber first (rest.take count ++ remaining) = startsNumber first rest := by
        unfold startsNumber
        rw [whole.startsWithDigit_eq]
      have prefixed : isHexadecimal first (rest.take count ++ remaining) = isHexadecimal first rest := by
        unfold isHexadecimal
        rw [head?_of_number run alike (apart rfl) (c := 'x') (by decide),
          head?_of_number run alike (apart rfl) (c := 'X') (by decide)]
      refine .number (starts ▸ begins) ?_
      rw [prefixed]
      exact numberLength_of_alike run alike (apart rfl)
  | mark unclaimed mark run =>
      exact .mark (unclaimed.of_alike whole) mark (((Alike.same first whole).operatorReach_eq).trans run)
  | other unclaimed noMark => exact .other (unclaimed.of_alike whole) noMark

end Reach

theorem head?_of_reach_number {first : Char} {rest : List Char} {count : Nat}
    (reached : reach first rest = .ok (.number, count)) :
    ∀ c ∈ (rest.drop count).head?, joinsNumber c = false := by
  cases reach_eq_iff.mp reached with
  | number _ run => exact run ▸ numberLength_stops _ first rest
  | word _ _ named => exact absurd named (wordKind_ne_number _)

theorem head?_of_scan {chars : List Char} {lexeme : Lexeme} (starts : (scan chars).lexemes.head? = some lexeme) :
    lexeme.text.toList.head? = chars.head? := by
  rw [scan.eq_def] at starts
  split at starts
  · cases starts
  · split at starts
    · cases starts
    · cases starts
      rw [String.toList_ofList]
      rfl

theorem scan_apart (chars : List Char) :
    (scan chars).lexemes.IsChain fun before lexeme => before.kind = .number → lexeme.joinsNumber = false := by
  fun_induction scan chars with
  | case1 => exact List.isChain_nil
  | case2 first rest fault _ => exact List.isChain_nil
  | case3 first rest kind count reached further ih =>
      refine List.isChain_cons.mpr ⟨?_, ih⟩
      intro lexeme next number
      dsimp only at number
      rw [number] at reached
      have outside := head?_of_reach_number reached
      rw [← head?_of_scan next] at outside
      unfold Lexeme.joinsNumber
      cases head : lexeme.text.toList.head? with
      | none => rfl
      | some c => exact outside c head

def Respells (lexeme respelled : Lexeme) : Prop :=
  respelled = lexeme ∨
    lexeme.kind = .identifier ∧ respelled.kind = .identifier ∧ Name.fault? respelled.text = none

def spelling (lexemes : List Lexeme) : List Char := lexemes.flatMap (·.text.toList)

/-- One more lexeme in front of a respelled text. -/
private theorem scan_respelled_cons {first : Char} {rest remaining : List Char} {count : Nat}
    {lexeme respelled : Lexeme} {lexemes : List Lexeme} (respells : Respells lexeme respelled)
    (reached : reach first rest = .ok (lexeme.kind, count)) (text : lexeme.text.toList = first :: rest.take count)
    (scanned : scan remaining = ⟨lexemes, none⟩) (alike : Alike (rest.drop count) remaining)
    (apart : lexeme.kind = .number → ∀ c ∈ remaining.head?, joinsNumber c = false) :
    scan (respelled.text.toList ++ remaining) = ⟨respelled :: lexemes, none⟩ ∧
      Alike (first :: rest) (respelled.text.toList ++ remaining) := by
  rcases respells with rfl | ⟨kind, newKind, valid⟩
  · rw [text, List.cons_append]
    obtain ⟨taken, dropped⟩ := take_of_alike alike
    refine ⟨?_, ?_⟩
    · rw [← dropped] at scanned
      rw [scan_cons (reach_of_alike reached alike apart) scanned, taken, ← text, String.ofList_toList]
    · have whole := alike.append (rest.take count)
      rw [List.take_append_drop] at whole
      exact .same first whole
  · rw [kind] at reached
    obtain ⟨start, ends, _⟩ := identifier_of_reach reached
    obtain ⟨newFirst, tail, spelled, newStart, again⟩ :=
      reach_name valid (alike.takeWhile_eq_nil Name.isPart_uniform ends)
    rw [spelled, List.cons_append]
    refine ⟨?_, .names _ _ start newStart⟩
    have remains : scan ((tail ++ remaining).drop tail.length) = ⟨lexemes, none⟩ := by
      rw [List.drop_left]
      exact scanned
    rw [scan_cons again remains, List.take_left, ← spelled, String.ofList_toList, ← newKind]

/-- Replacing identifiers of a text by other names, after a number by such as do not go on with it, replaces them among
its tokens and changes nothing else there. -/
theorem scan_respelled {respelled : Token → Lexeme} (items : List Token) (chars : List Char)
    (scanned : scan chars = ⟨items.map (·.toLexeme), none⟩)
    (respells : ∀ item ∈ items, Respells item.toLexeme (respelled item))
    (apart : items.IsChain fun before item => before.kind = .number → (respelled item).joinsNumber = false) :
    scan (spelling (items.map respelled)) = ⟨items.map respelled, none⟩ ∧
      Alike chars (spelling (items.map respelled)) := by
  induction items generalizing chars with
  | nil =>
      have empty : chars = [] := by
        cases chars with
        | nil => rfl
        | cons first rest =>
            rw [scan.eq_def] at scanned
            dsimp only at scanned
            split at scanned
            · cases scanned
            · cases scanned
      subst empty
      exact ⟨by rw [scan.eq_def]; rfl, .nil⟩
  | cons item items ih =>
      obtain ⟨first, rest, count, rfl, reached, text, further⟩ := scan_eq_cons scanned
      obtain ⟨separate, apart⟩ := List.isChain_cons.mp apart
      obtain ⟨again, alike⟩ := ih (rest.drop count) further
        (fun other member => respells other (List.mem_cons_of_mem _ member)) apart
      refine scan_respelled_cons (respells item List.mem_cons_self) reached text again alike ?_
      intro number c here
      cases items with
      | nil => cases here
      | cons next items =>
          have starts : (scan (spelling ((next :: items).map respelled))).lexemes.head? = some (respelled next) := by
            rw [again]
            rfl
          have outside := separate next rfl number
          unfold Lexeme.joinsNumber at outside
          rw [(head?_of_scan starts).trans here] at outside
          exact outside

end Lexer

namespace Token

theorem ofText_respelled {source : String} {tokens : List Token} {respelled : Token → Lexeme}
    (split : ofText source = .ok tokens) (respells : ∀ token ∈ tokens, Lexer.Respells token.toLexeme (respelled token))
    (apart : tokens.IsChain fun before token => before.kind = .number → (respelled token).joinsNumber = false) :
    ofText (String.join (tokens.map fun token => (respelled token).text)) =
      .ok (layOut 0 (tokens.map respelled)) := by
  have again := (Lexer.scan_respelled tokens source.toList (scan_of_ofText split) respells apart).1
  have spelled : (String.join (tokens.map fun token => (respelled token).text)).toList =
      Lexer.spelling (tokens.map respelled) := by
    rw [String.toList_join, List.flatMap_map]
    unfold Lexer.spelling
    rw [List.flatMap_map]
  unfold ofText
  rw [spelled, again]

theorem ofText_apart {source : String} {tokens : List Token} (split : ofText source = .ok tokens) :
    tokens.IsChain fun before token => before.kind = .number → token.joinsNumber = false := by
  have apart := Lexer.scan_apart source.toList
  rw [scan_of_ofText split, List.isChain_map] at apart
  exact apart

/-- The tokens of a text with identifiers replaced are those with the replacements in their places exactly if none of
these joins a number. -/
theorem ofText_respelled_iff {source : String} {tokens : List Token} {respelled : Token → Lexeme}
    (split : ofText source = .ok tokens)
    (respells : ∀ token ∈ tokens, Lexer.Respells token.toLexeme (respelled token)) :
    ofText (String.join (tokens.map fun token => (respelled token).text)) = .ok (layOut 0 (tokens.map respelled)) ↔
      tokens.IsChain fun before token => before.kind = .number → (respelled token).joinsNumber = false := by
  constructor
  · intro again
    obtain ⟨_, laid⟩ := ofText_eq_ok again
    have lexemes := congrArg (List.map (·.toLexeme)) laid
    rw [layOut_map_toLexeme, layOut_map_toLexeme] at lexemes
    have apart := Lexer.scan_apart (String.join (tokens.map fun token => (respelled token).text)).toList
    rw [← lexemes, List.isChain_map] at apart
    refine apart.imp_of_mem_imp ?_
    intro before token member _ separate number
    rcases respells before member with same | ⟨identifier, _, _⟩
    · exact separate (same ▸ number)
    · rw [identifier] at number
      cases number
  · exact ofText_respelled split respells

end Token

end ScopedRename
