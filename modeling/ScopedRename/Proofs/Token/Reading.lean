import Mathlib.Data.List.TakeWhile
import ScopedRename.Token.Lexer

/-!
How a token is read: what it can start with, and how far it reaches then, one case for each kind. Every fact about a
single token follows from these cases.
-/

namespace ScopedRename

/-! ### Classes of characters -/

namespace Name

theorem isPart_of_isStart {c : Char} (start : isStart c = true) : isPart c = true := by
  simp only [isStart, Bool.or_eq_true] at start
  rcases start with (alphabetic | underscore) | dollar
  · simp [isPart, Text.isAlphanumeric, alphabetic]
  · simp [isPart, underscore]
  · simp [isPart, dollar]

/-- A character class apart from the alphabetic characters starts no name. -/
private theorem isStart_of_inRanges {ranges : List (Nat × Nat)} {c : Char}
    (apart : ∀ range ∈ ranges, ∀ n ∈ List.range' range.1 (range.2 + 1 - range.1),
      Text.inRanges Text.alphabeticRanges n = false ∧ n ≠ '_'.toNat ∧ n ≠ '$'.toNat)
    (inside : Text.inRanges ranges c.toNat = true) : isStart c = false := by
  induction ranges with
  | nil => cases inside
  | cons range rest ih =>
      unfold Text.inRanges at inside
      split at inside
      · cases inside
      · rename_i above
        split at inside
        · rename_i below
          obtain ⟨letter, underscore, dollar⟩ :=
            apart range List.mem_cons_self c.toNat (List.mem_range'_1.mpr (by omega))
          simp only [isStart, Text.isAlphabetic, letter, Bool.false_or, Bool.or_eq_false_iff, beq_eq_false_iff_ne]
          constructor
          · rintro rfl
            exact underscore rfl
          · rintro rfl
            exact dollar rfl
        · exact ih (fun other member => apart other (List.mem_cons_of_mem _ member)) inside

theorem isStart_of_isBlank {c : Char} (blank : Text.isBlank c = true) : isStart c = false :=
  isStart_of_inRanges (by decide +kernel) blank

theorem isStart_of_isDigit {c : Char} (digit : c.isDigit = true) : isStart c = false := by
  have inside : Text.inRanges [('0'.toNat, '9'.toNat)] c.toNat = true := by
    simp only [Char.isDigit, Bool.and_eq_true, decide_eq_true_eq] at digit
    obtain ⟨above, below⟩ := digit
    have low : '0'.toNat ≤ c.toNat := above
    have high : c.toNat ≤ '9'.toNat := below
    simp only [Text.inRanges]
    rw [if_neg (by omega), if_pos high]
  exact isStart_of_inRanges (by decide +kernel) inside

theorem isBlank_uniform (c d : Char) (start : isStart c = true) (other : isStart d = true) :
    Text.isBlank c = Text.isBlank d := by
  have noBlank {c : Char} (start : isStart c = true) : Text.isBlank c = false := by
    cases blank : Text.isBlank c with
    | false => rfl
    | true =>
        rw [isStart_of_isBlank blank] at start
        cases start
  rw [noBlank start, noBlank other]

theorem isPart_uniform (c d : Char) (start : isStart c = true) (other : isStart d = true) : isPart c = isPart d := by
  rw [isPart_of_isStart start, isPart_of_isStart other]

theorem ne_of_isStart {c d : Char} (start : isStart c = true) (noStart : isStart d = false) : c ≠ d := by
  rintro rfl
  rw [start] at noStart
  cases noStart

end Name

namespace Lexer

theorem isBlank_of_isDigit {c : Char} (digit : c.isDigit = true) : Text.isBlank c = false := by
  have apart : ∀ n ∈ List.range' '0'.toNat 10, Text.inRanges Text.blankRanges n = false := by decide
  simp only [Char.isDigit, Bool.and_eq_true, decide_eq_true_eq] at digit
  have low : '0'.toNat ≤ c.toNat := digit.1
  have high : c.toNat ≤ '9'.toNat := digit.2
  exact apart c.toNat (List.mem_range'_1.mpr ⟨low, Nat.lt_succ_of_le high⟩)

/-! ### The cases -/

def startsNumber (first : Char) (rest : List Char) : Bool := first.isDigit || first == '.' && startsWithDigit rest

def isHexadecimal (first : Char) (rest : List Char) : Bool :=
  first == '0' && (rest.head? == some 'x' || rest.head? == some 'X')

/-- Neither space, a name, a number, a literal nor a comment starts here. -/
structure Unclaimed (first : Char) (rest : List Char) : Prop where
  noBlank : Text.isBlank first = false
  noStart : Name.isStart first = false
  noNumber : startsNumber first rest = false
  noQuote : first ≠ '"' ∧ first ≠ '\''
  noComment : first = '/' → rest.head? ≠ some '/' ∧ rest.head? ≠ some '*'

/-- What is read where a text goes on with a character and more: a kind of token and the characters it takes after the
first, or a literal or comment that never closes. -/
inductive Reads : Char → List Char → Except Unterminated (TokenKind × Nat) → Prop where
  | blank {first : Char} {rest : List Char} {length : Nat} (blank : Text.isBlank first = true)
      (run : (rest.takeWhile Text.isBlank).length = length) : Reads first rest (.ok (.whitespace, length))
  | line {rest : List Char} {length : Nat} (run : (rest.takeWhile (· != '\n')).length = length) :
      Reads '/' ('/' :: rest) (.ok (.comment, length + 1))
  | block {rest : List Char} {length : Nat} (closed : commentLength? rest = some length) :
      Reads '/' ('*' :: rest) (.ok (.comment, length + 1))
  | openBlock {rest : List Char} (unclosed : commentLength? rest = none) : Reads '/' ('*' :: rest) (.error .comment)
  | textBlock {rest : List Char} {length : Nat} (closed : textBlockLength? rest = some length) :
      Reads '"' ('"' :: '"' :: rest) (.ok (.stringLiteral, length + 2))
  | openTextBlock {rest : List Char} (unclosed : textBlockLength? rest = none) :
      Reads '"' ('"' :: '"' :: rest) (.error .textBlock)
  | string {rest : List Char} {length : Nat} (single : ¬ ['"', '"'] <+: rest)
      (closed : quotedLength? '"' rest = some length) : Reads '"' rest (.ok (.stringLiteral, length))
  | openString {rest : List Char} (single : ¬ ['"', '"'] <+: rest) (unclosed : quotedLength? '"' rest = none) :
      Reads '"' rest (.error .string)
  | character {rest : List Char} {length : Nat} (closed : quotedLength? '\'' rest = some length) :
      Reads '\'' rest (.ok (.stringLiteral, length))
  | openCharacter {rest : List Char} (unclosed : quotedLength? '\'' rest = none) : Reads '\'' rest (.error .character)
  | word {first : Char} {rest : List Char} {kind : TokenKind} {length : Nat} (start : Name.isStart first = true)
      (run : (rest.takeWhile Name.isPart).length = length)
      (named : wordKind (String.ofList (first :: rest.takeWhile Name.isPart)) = kind) :
      Reads first rest (.ok (kind, length))
  | number {first : Char} {rest : List Char} {length : Nat} (begins : startsNumber first rest = true)
      (run : numberLength (isHexadecimal first rest) first rest = length) : Reads first rest (.ok (.number, length))
  | mark {first : Char} {rest : List Char} {length : Nat} (unclaimed : Unclaimed first rest)
      (mark : isPunctuationMark first = true) (run : operatorReach (first :: rest) = length) :
      Reads first rest (.ok (.punctuation, length))
  | other {first : Char} {rest : List Char} (unclaimed : Unclaimed first rest)
      (noMark : isPunctuationMark first = false) : Reads first rest (.ok (.other, 0))

variable {first : Char} {rest : List Char} {outcome : Except Unterminated (TokenKind × Nat)}

theorem reads (first : Char) (rest : List Char) : Reads first rest (reach first rest) := by
  unfold reach
  split
  · rename_i blank
    exact .blank blank rfl
  · rename_i noBlank
    split
    · rename_i line
      obtain ⟨slash, again⟩ := Bool.and_eq_true_iff.mp line
      obtain ⟨tail, rfl⟩ := List.head?_eq_some_iff.mp (beq_iff_eq.mp again)
      rw [beq_iff_eq.mp slash]
      exact .line rfl
    · rename_i noLine
      split
      · rename_i block
        obtain ⟨slash, star⟩ := Bool.and_eq_true_iff.mp block
        obtain ⟨tail, rfl⟩ := List.head?_eq_some_iff.mp (beq_iff_eq.mp star)
        rw [beq_iff_eq.mp slash]
        split
        · rename_i closed
          exact .block closed
        · rename_i unclosed
          exact .openBlock unclosed
      · rename_i noBlock
        split
        · rename_i textBlock
          obtain ⟨quote, two⟩ := Bool.and_eq_true_iff.mp textBlock
          obtain ⟨tail, rfl⟩ : ['"', '"'] <+: rest := List.isPrefixOf_iff_prefix.mp two
          rw [beq_iff_eq.mp quote]
          split
          · rename_i closed
            exact .textBlock closed
          · rename_i unclosed
            exact .openTextBlock unclosed
        · rename_i noTextBlock
          split
          · rename_i quote
            have single : ¬ ['"', '"'] <+: rest := by
              rw [quote, Bool.true_and] at noTextBlock
              exact mt List.isPrefixOf_iff_prefix.mpr noTextBlock
            rw [beq_iff_eq.mp quote]
            split
            · rename_i closed
              exact .string single closed
            · rename_i unclosed
              exact .openString single unclosed
          · rename_i noQuote
            split
            · rename_i tick
              rw [beq_iff_eq.mp tick]
              split
              · rename_i closed
                exact .character closed
              · rename_i unclosed
                exact .openCharacter unclosed
            · rename_i noTick
              split
              · rename_i start
                exact .word start rfl rfl
              · rename_i noStart
                split
                · rename_i begins
                  exact .number begins rfl
                · rename_i noNumber
                  have unclaimed : Unclaimed first rest := by
                    constructor
                    · exact Bool.eq_false_iff.mpr noBlank
                    · exact Bool.eq_false_iff.mpr noStart
                    · exact Bool.eq_false_iff.mpr noNumber
                    · exact ⟨mt beq_iff_eq.mpr noQuote, mt beq_iff_eq.mpr noTick⟩
                    · rintro rfl
                      exact ⟨mt beq_iff_eq.mpr noLine, mt beq_iff_eq.mpr noBlock⟩
                  split
                  · rename_i mark
                    exact .mark unclaimed mark rfl
                  · rename_i noMark
                    exact .other unclaimed (Bool.eq_false_iff.mpr noMark)

/-- Where nothing else starts, only a mark or a strange character is left. -/
theorem Unclaimed.reach_eq (unclaimed : Unclaimed first rest) :
    reach first rest =
      if isPunctuationMark first then .ok (.punctuation, operatorReach (first :: rest)) else .ok (.other, 0) := by
  have noLine : ¬ (first == '/' && rest.head? == some '/') = true := by
    intro line
    obtain ⟨slash, again⟩ := Bool.and_eq_true_iff.mp line
    exact (unclaimed.noComment (beq_iff_eq.mp slash)).1 (beq_iff_eq.mp again)
  have noBlock : ¬ (first == '/' && rest.head? == some '*') = true := by
    intro block
    obtain ⟨slash, star⟩ := Bool.and_eq_true_iff.mp block
    exact (unclaimed.noComment (beq_iff_eq.mp slash)).2 (beq_iff_eq.mp star)
  have noTextBlock : ¬ (first == '"' && ['"', '"'].isPrefixOf rest) = true :=
    fun textBlock => unclaimed.noQuote.1 (beq_iff_eq.mp (Bool.and_eq_true_iff.mp textBlock).1)
  rw [reach, if_neg (Bool.eq_false_iff.mp unclaimed.noBlank), if_neg noLine, if_neg noBlock, if_neg noTextBlock,
    if_neg (mt beq_iff_eq.mp unclaimed.noQuote.1), if_neg (mt beq_iff_eq.mp unclaimed.noQuote.2),
    if_neg (Bool.eq_false_iff.mp unclaimed.noStart)]
  exact if_neg (Bool.eq_false_iff.mp unclaimed.noNumber)

/-- What starts like a name is a word, as long as a name can go on. -/
theorem reach_of_isStart (start : Name.isStart first = true) (rest : List Char) :
    reach first rest =
      .ok (wordKind (String.ofList (first :: rest.takeWhile Name.isPart)), (rest.takeWhile Name.isPart).length) := by
  have noBlank : ¬ Text.isBlank first = true := by
    intro blank
    rw [Name.isStart_of_isBlank blank] at start
    cases start
  have noSlash : (first == '/') = false := beq_eq_false_iff_ne.mpr (Name.ne_of_isStart start (by decide))
  have noQuote : (first == '"') = false := beq_eq_false_iff_ne.mpr (Name.ne_of_isStart start (by decide))
  have noTick : (first == '\'') = false := beq_eq_false_iff_ne.mpr (Name.ne_of_isStart start (by decide))
  unfold reach
  rw [if_neg noBlank, noSlash, noQuote, noTick]
  simp only [Bool.false_and, Bool.false_eq_true, if_false]
  rw [if_pos start]

theorem reach_of_startsNumber (begins : startsNumber first rest = true) :
    reach first rest = .ok (.number, numberLength (isHexadecimal first rest) first rest) := by
  have shape : first.isDigit = true ∨ first = '.' :=
    (Bool.or_eq_true_iff.mp begins).imp_right fun point => beq_iff_eq.mp (Bool.and_eq_true_iff.mp point).1
  have noBlank : ¬ Text.isBlank first = true := by
    rw [Bool.not_eq_true]
    rcases shape with digit | rfl
    · exact isBlank_of_isDigit digit
    · decide
  have noStart : ¬ Name.isStart first = true := by
    rw [Bool.not_eq_true]
    rcases shape with digit | rfl
    · exact Name.isStart_of_isDigit digit
    · decide
  have differs {c : Char} (noDigit : c.isDigit = false) (noPoint : '.' ≠ c) : (first == c) = false := by
    rw [beq_eq_false_iff_ne]
    rintro rfl
    rcases shape with digit | point
    · rw [noDigit] at digit
      cases digit
    · exact noPoint point.symm
  unfold reach
  rw [if_neg noBlank, differs (c := '/') (by decide) (by decide), differs (c := '"') (by decide) (by decide),
    differs (c := '\'') (by decide) (by decide)]
  simp only [Bool.false_and, Bool.false_eq_true, if_false]
  rw [if_neg noStart]
  exact if_pos begins

private theorem reach_block (rest : List Char) : reach '/' ('*' :: rest) =
    (commentLength? rest).elim (.error .comment) fun length => .ok (.comment, length + 1) := by
  rw [reach, if_neg (by decide), if_neg (by simp), if_pos (by rfl), List.tail_cons]
  cases commentLength? rest with
  | none => rfl
  | some length => rfl

private theorem reach_textBlock (rest : List Char) : reach '"' ('"' :: '"' :: rest) =
    (textBlockLength? rest).elim (.error .textBlock) fun length => .ok (.stringLiteral, length + 2) := by
  rw [reach, if_neg (by decide), if_neg (by simp), if_neg (by simp), if_pos (by rfl)]
  simp only [List.drop_succ_cons, List.drop_zero]
  cases textBlockLength? rest with
  | none => rfl
  | some length => rfl

private theorem reach_string (single : ¬ ['"', '"'] <+: rest) : reach '"' rest =
    (quotedLength? '"' rest).elim (.error .string) fun length => .ok (.stringLiteral, length) := by
  have noTextBlock : ¬ ('"' == '"' && ['"', '"'].isPrefixOf rest) = true := by
    rw [beq_self_eq_true, Bool.true_and]
    exact mt List.isPrefixOf_iff_prefix.mp single
  rw [reach, if_neg (by decide), if_neg (by simp), if_neg (by simp), if_neg noTextBlock, if_pos (by rfl)]
  cases quotedLength? '"' rest with
  | none => rfl
  | some length => rfl

private theorem reach_character (rest : List Char) : reach '\'' rest =
    (quotedLength? '\'' rest).elim (.error .character) fun length => .ok (.stringLiteral, length) := by
  rw [reach, if_neg (by decide), if_neg (by simp), if_neg (by simp), if_neg (by simp), if_neg (by decide),
    if_pos (by rfl)]
  cases quotedLength? '\'' rest with
  | none => rfl
  | some length => rfl

theorem Reads.reach_eq (reads : Reads first rest outcome) : reach first rest = outcome := by
  cases reads with
  | blank blank run => rw [reach, if_pos blank, run]
  | line run =>
      rw [← run, reach, if_neg (by decide), if_pos (by rfl)]
      rfl
  | block closed => rw [reach_block, closed, Option.elim_some]
  | openBlock unclosed => rw [reach_block, unclosed, Option.elim_none]
  | textBlock closed => rw [reach_textBlock, closed, Option.elim_some]
  | openTextBlock unclosed => rw [reach_textBlock, unclosed, Option.elim_none]
  | string single closed => rw [reach_string single, closed, Option.elim_some]
  | openString single unclosed => rw [reach_string single, unclosed, Option.elim_none]
  | character closed => rw [reach_character, closed, Option.elim_some]
  | openCharacter unclosed => rw [reach_character, unclosed, Option.elim_none]
  | word start run named => rw [reach_of_isStart start, named, run]
  | number begins run => rw [reach_of_startsNumber begins, run]
  | mark unclaimed mark run => rw [unclaimed.reach_eq, if_pos mark, run]
  | other unclaimed noMark => rw [unclaimed.reach_eq, if_neg (Bool.eq_false_iff.mp noMark)]

theorem reach_eq_iff : reach first rest = outcome ↔ Reads first rest outcome := by
  constructor
  · rintro rfl
    exact reads first rest
  · exact Reads.reach_eq

theorem wordKind_ne_number (word : String) : wordKind word ≠ .number := by
  unfold wordKind
  split
  · exact TokenKind.noConfusion
  · exact TokenKind.noConfusion

end Lexer

end ScopedRename
