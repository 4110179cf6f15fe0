import Mathlib.Data.List.TakeWhile
import ScopedRename.Proofs.Token.Relexing

/-!
Splitting a text into tokens loses nothing. The spans tile the text from its first byte to its last, each on character
boundaries; every token holds the text at its span; and a token split on its own is that one token again, since how far
it reaches is decided by the characters it takes, wherever the text is cut behind them.
-/

namespace ScopedRename

namespace Text

private theorem utf8ByteSize_cons (c : Char) (rest : List Char) :
    (String.ofList (c :: rest)).utf8ByteSize = c.utf8Size + (String.ofList rest).utf8ByteSize := by
  rw [String.ofList_cons, String.utf8ByteSize_append, String.utf8ByteSize_singleton]

/-- A text is cut right after its first characters by an offset that counts their bytes. -/
theorem splitAtByte_append (before after : List Char) :
    splitAtByte (before ++ after) (String.ofList before).utf8ByteSize = some (before, after) := by
  induction before with
  | nil => cases after <;> rfl
  | cons c rest ih =>
      have positive := c.utf8Size_pos
      obtain ⟨offset, size⟩ : ∃ offset, (String.ofList (c :: rest)).utf8ByteSize = offset + 1 :=
        ⟨(String.ofList (c :: rest)).utf8ByteSize - 1, by rw [utf8ByteSize_cons]; omega⟩
      rw [size, List.cons_append, splitAtByte, ← size, utf8ByteSize_cons, if_pos (Nat.le_add_right _ _),
        Nat.add_sub_cancel_left, ih]
      rfl

end Text

/-! ### The spans -/

namespace Token

/-- The tokens tile a text: they lie end to end from its first byte to its last, none is empty, and each lies on
character boundaries and holds the text at its span. -/
structure Covers (source : String) (tokens : List Token) : Prop where
  starts : ∀ token ∈ tokens.head?, token.span.start = 0
  adjacent : tokens.IsChain fun left right => right.span.start = left.span.stop
  ends : tokens.getLast?.elim 0 (·.span.stop) = source.utf8ByteSize
  proper : ∀ token ∈ tokens, token.span.start < token.span.stop
  boundaries : ∀ token ∈ tokens, (Text.splitAtByte source.toList token.span.start).isSome = true ∧
    (Text.splitAtByte source.toList token.span.stop).isSome = true
  slices : ∀ token ∈ tokens, token.span.slice? source = some token.text

theorem layOut_head?_start (start : Nat) (lexemes : List Lexeme) :
    ∀ token ∈ (layOut start lexemes).head?, token.span.start = start := by
  intro token first
  cases lexemes with
  | nil => cases first
  | cons lexeme rest =>
      cases first
      rfl

theorem layOut_adjacent (start : Nat) (lexemes : List Lexeme) :
    (layOut start lexemes).IsChain fun left right => right.span.start = left.span.stop := by
  induction lexemes generalizing start with
  | nil => exact List.IsChain.nil
  | cons lexeme rest ih => exact List.isChain_cons.mpr ⟨layOut_head?_start _ rest, ih _⟩

theorem layOut_getLast?_stop (start : Nat) (lexemes : List Lexeme) :
    (layOut start lexemes).getLast?.elim start (·.span.stop) =
      start + (String.join (lexemes.map (·.text))).utf8ByteSize := by
  induction lexemes generalizing start with
  | nil => rfl
  | cons lexeme rest ih =>
      have further := ih (start + lexeme.text.utf8ByteSize)
      rw [List.map_cons, String.join_cons, String.utf8ByteSize_append, ← Nat.add_assoc, ← further, layOut,
        List.getLast?_cons]
      cases (layOut (start + lexeme.text.utf8ByteSize) rest).getLast? with
      | none => rfl
      | some last => rfl

/-- Laid out after a text, every token stands in the whole where its span says. -/
theorem layOut_split (before : List Char) (lexemes : List Lexeme) :
    ∀ token ∈ layOut (String.ofList before).utf8ByteSize lexemes, ∃ ahead behind,
      before ++ Lexer.spelling lexemes = ahead ++ token.text.toList ++ behind ∧
      token.span.start = (String.ofList ahead).utf8ByteSize ∧
      token.span.stop = (String.ofList (ahead ++ token.text.toList)).utf8ByteSize := by
  induction lexemes generalizing before with
  | nil =>
      intro token impossible
      cases impossible
  | cons lexeme rest ih =>
      have stop : (String.ofList before).utf8ByteSize + lexeme.text.utf8ByteSize =
          (String.ofList (before ++ lexeme.text.toList)).utf8ByteSize := by
        rw [String.ofList_append, String.utf8ByteSize_append, String.ofList_toList]
      intro token member
      rcases List.mem_cons.mp member with here | later
      · refine ⟨before, Lexer.spelling rest, ?_, ?_, ?_⟩
        · rw [here, List.append_assoc]
          rfl
        · rw [here]
        · rw [here]
          exact stop
      · rw [stop] at later
        obtain ⟨ahead, behind, whole, facts⟩ := ih (before ++ lexeme.text.toList) token later
        refine ⟨ahead, behind, ?_, facts⟩
        rw [← whole, List.append_assoc]
        rfl

/-- What stands between two offsets of a text is the slice at them. -/
theorem slice?_of_split {source text : String} {span : Span} {ahead behind : List Char}
    (whole : source.toList = ahead ++ text.toList ++ behind) (start : span.start = (String.ofList ahead).utf8ByteSize)
    (stop : span.stop = (String.ofList (ahead ++ text.toList)).utf8ByteSize) : span.slice? source = some text := by
  have size : span.stop = span.start + (String.ofList text.toList).utf8ByteSize := by
    rw [stop, start, String.ofList_append, String.utf8ByteSize_append]
  have length : span.length = (String.ofList text.toList).utf8ByteSize := by
    unfold Span.length
    omega
  unfold Span.slice?
  rw [if_neg (by omega), length, start, whole, List.append_assoc]
  dsimp only [bind, pure, Option.bind]
  rw [Text.splitAtByte_append ahead (text.toList ++ behind)]
  dsimp only
  rw [Text.splitAtByte_append text.toList behind]
  dsimp only
  rw [String.ofList_toList]

theorem ofText_covers {source : String} {tokens : List Token} (split : ofText source = .ok tokens) :
    Covers source tokens := by
  obtain ⟨complete, laid⟩ := ofText_eq_ok split
  have spelled : [] ++ Lexer.spelling (Lexer.scan source.toList).lexemes = source.toList :=
    Lexer.scan_flatMap_text source.toList complete
  have placed : ∀ token ∈ tokens, ∃ ahead behind, source.toList = ahead ++ token.text.toList ++ behind ∧
      token.span.start = (String.ofList ahead).utf8ByteSize ∧
      token.span.stop = (String.ofList (ahead ++ token.text.toList)).utf8ByteSize := by
    rw [laid]
    have split := layOut_split [] (Lexer.scan source.toList).lexemes
    rw [spelled] at split
    exact split
  refine ⟨?_, ?_, ?_, (ofText_tiled split).proper, ?_, ?_⟩
  · rw [laid]
    exact layOut_head?_start 0 _
  · rw [laid]
    exact layOut_adjacent 0 _
  · have joined := ofText_join split
    have texts : tokens.map (·.text) = (Lexer.scan source.toList).lexemes.map (·.text) := by
      rw [← layOut_map_toLexeme 0 (Lexer.scan source.toList).lexemes, ← laid, List.map_map]
      rfl
    rw [texts] at joined
    have last := layOut_getLast?_stop 0 (Lexer.scan source.toList).lexemes
    rw [joined, Nat.zero_add] at last
    rw [laid]
    exact last
  · intro token member
    obtain ⟨ahead, behind, whole, start, stop⟩ := placed token member
    constructor
    · rw [whole, start, List.append_assoc, Text.splitAtByte_append]
      rfl
    · rw [whole, stop, Text.splitAtByte_append]
      rfl
  · intro token member
    obtain ⟨ahead, behind, whole, start, stop⟩ := placed token member
    exact slice?_of_split whole start stop

end Token

/-! ### A token without what follows it -/

namespace Lexer

section Cut

variable {first : Char} {rest : List Char} {count length : Nat}

theorem takeWhile_take {test : Char → Bool} (enough : (rest.takeWhile test).length ≤ length) :
    (rest.take length).takeWhile test = rest.takeWhile test := by
  rw [← List.take_takeWhile, List.take_of_length_le enough]

theorem numberLength_cons {hexadecimal : Bool} {previous c : Char} (part : c.isAlphanum = true) (rest : List Char) :
    numberLength hexadecimal previous (c :: rest) = numberLength hexadecimal c rest + 1 := by
  rw [numberLength, part]
  rfl

/-- A text with a number in front starts with a letter or digit exactly if the number does. -/
theorem head?_take_number {hexadecimal : Bool} {previous c : Char} (part : c.isAlphanum = true)
    (enough : numberLength hexadecimal previous rest ≤ length) :
    ((rest.take length).head? == some c) = (rest.head? == some c) := by
  cases rest with
  | nil => rw [List.take_nil]
  | cons d rest =>
      cases length with
      | succ shorter => rfl
      | zero =>
          have different : d ≠ c := by
            rintro rfl
            rw [numberLength_cons part] at enough
            cases enough
          rw [List.take_zero, List.head?_cons, Option.some_beq_some, beq_eq_false_iff_ne.mpr different]
          rfl

theorem startsWithDigit_take (short : startsWithDigit (rest.take length) = true) : startsWithDigit rest = true := by
  cases rest with
  | nil => rwa [List.take_nil] at short
  | cons d rest =>
      cases length with
      | zero => cases short
      | succ shorter => exact short

theorem startsWithDigit_take_number {hexadecimal : Bool} {previous : Char}
    (enough : numberLength hexadecimal previous rest ≤ length) :
    startsWithDigit (rest.take length) = startsWithDigit rest := by
  apply Bool.eq_iff_iff.mpr
  refine ⟨startsWithDigit_take, ?_⟩
  intro digits
  cases rest with
  | nil => cases digits
  | cons d rest =>
      have part : d.isAlphanum = true := by rw [Char.isAlphanum, show d.isDigit = true from digits, Bool.or_true]
      rw [numberLength_cons part] at enough
      obtain ⟨shorter, rfl⟩ := Nat.exists_eq_add_of_le' (Nat.le_trans (Nat.le_add_left 1 _) enough)
      exact digits

/-- A number goes on for as long as it did if no more is cut off than what follows it. -/
theorem numberLength_take {hexadecimal : Bool} {previous : Char}
    (enough : numberLength hexadecimal previous rest ≤ length) :
    numberLength hexadecimal previous (rest.take length) = numberLength hexadecimal previous rest := by
  induction rest generalizing previous length with
  | nil => rw [List.take_nil]
  | cons c rest ih =>
      have unfolded := numberLength.eq_2 hexadecimal previous c rest
      split at unfolded
      · rename_i continues
        -- a point counts because of the digit after it, and that digit is taken too
        rw [unfolded] at enough ⊢
        obtain ⟨shorter, rfl⟩ := Nat.exists_eq_add_of_le' (Nat.le_trans (Nat.le_add_left 1 _) enough)
        have inner := Nat.le_of_add_le_add_right enough
        rw [List.take_succ_cons, numberLength, ih inner, startsWithDigit_take_number inner, if_pos continues]
      · rename_i stops
        rw [unfolded]
        cases length with
        | zero => rfl
        | succ shorter =>
            rw [List.take_succ_cons, numberLength, if_neg]
            intro continues
            apply stops
            simp only [Bool.or_eq_true, Bool.and_eq_true] at continues ⊢
            exact continues.imp_left (Or.imp_right (And.imp_right startsWithDigit_take))

/-- Of the operators that start the text, the first in the list starts what it takes, and no earlier one does. -/
theorem operatorReach_take (enough : operatorReach (first :: rest) ≤ length) :
    operatorReach (first :: rest.take length) = operatorReach (first :: rest) := by
  have starts {marks : List Char} (short : marks.isPrefixOf (first :: rest.take length) = true) :
      marks.isPrefixOf (first :: rest) = true := by
    rw [List.isPrefixOf_iff_prefix] at short ⊢
    exact short.trans (List.prefix_cons_inj first |>.mpr (List.take_prefix length rest))
  cases chosen : operators.find? (·.isPrefixOf (first :: rest)) with
  | none =>
      have nothing : operators.find? (·.isPrefixOf (first :: rest.take length)) = none := by
        rw [List.find?_eq_none] at chosen ⊢
        intro marks member short
        exact chosen marks member (starts short)
      simp only [operatorReach, chosen, nothing]
  | some marks =>
      have reach : operatorReach (first :: rest) = marks.length - 1 := by
        rw [operatorReach, chosen]
        rfl
      rw [reach] at enough ⊢
      obtain ⟨holds, earlier, later, split, missed⟩ := List.find?_eq_some_iff_append.mp chosen
      have whole : marks = (first :: rest).take marks.length :=
        List.prefix_iff_eq_take.mp (List.isPrefixOf_iff_prefix.mp holds)
      have again : operators.find? (·.isPrefixOf (first :: rest.take length)) = some marks := by
        rw [List.find?_eq_some_iff_append]
        refine ⟨?_, earlier, later, split, ?_⟩
        · rw [List.isPrefixOf_iff_prefix, whole, ← List.take_succ_cons]
          exact List.take_prefix_take_left (by omega)
        · intro other member
          have refused := missed other member
          rw [Bool.not_eq_true'] at refused ⊢
          apply Bool.eq_false_iff.mpr
          intro short
          rw [starts short] at refused
          cases refused
      rw [operatorReach, again]
      rfl

private theorem take_eq_append (enough : count ≤ length) :
    rest.take length = rest.take count ++ (rest.drop count).take (length - count) := by
  rw [← List.take_add, Nat.add_sub_cancel' enough]

/-- Where nothing else starts, nothing else starts in a part of the text. -/
theorem Unclaimed.take (unclaimed : Unclaimed first rest) (length : Nat) : Unclaimed first (rest.take length) where
  noBlank := unclaimed.noBlank
  noStart := unclaimed.noStart
  noNumber := by
    have noNumber := unclaimed.noNumber
    unfold startsNumber at noNumber ⊢
    rw [Bool.or_eq_false_iff, Bool.and_eq_false_imp] at noNumber ⊢
    refine noNumber.imp_right fun noDigit point => Bool.eq_false_iff.mpr ?_
    exact mt startsWithDigit_take (Bool.eq_false_iff.mp (noDigit point))
  noQuote := unclaimed.noQuote
  noComment slash := by
    have noComment := unclaimed.noComment slash
    rw [List.head?_take]
    split
    · exact ⟨(Option.some_ne_none _).symm, (Option.some_ne_none _).symm⟩
    · exact noComment

/-- Where a token starts decides how far it reaches: what follows it does not matter. -/
theorem reach_take {kind : TokenKind} (reached : reach first rest = .ok (kind, count)) (enough : count ≤ length) :
    reach first (rest.take length) = .ok (kind, count) := by
  have whole : rest.take length = rest.take count ++ (rest.drop count).take (length - count) := take_eq_append enough
  rw [reach_eq_iff] at reached ⊢
  cases reached with
  | blank blank run => exact .blank blank (by rw [takeWhile_take (run ▸ enough), run])
  | line run =>
      obtain ⟨shorter, rfl⟩ := Nat.exists_eq_add_of_le' (Nat.le_trans (Nat.le_add_left 1 _) enough)
      have inner := Nat.le_of_add_le_add_right enough
      exact .line (by rw [takeWhile_take (run ▸ inner), run])
  | block closed =>
      rw [whole]
      exact .block (commentLength?_append closed _).2
  | textBlock closed =>
      rw [whole]
      exact .textBlock (textBlockLength?_append closed _).2
  | string single closed =>
      refine .string (fun short => single (short.trans (List.take_prefix length rest))) ?_
      rw [whole]
      exact (quotedLength?_append closed _).2
  | character closed =>
      rw [whole]
      exact .character (quotedLength?_append closed _).2
  | word start run named =>
      have again := takeWhile_take (run ▸ enough)
      exact .word start (by rw [again, run]) (by rw [again, named])
  | number begins run =>
      have long : numberLength (isHexadecimal first rest) first rest ≤ length := run ▸ enough
      have prefixed : isHexadecimal first (rest.take length) = isHexadecimal first rest := by
        unfold isHexadecimal
        rw [head?_take_number (by decide) long, head?_take_number (by decide) long]
      refine .number ?_ ?_
      · unfold startsNumber
        rw [startsWithDigit_take_number long]
        exact begins
      · rw [prefixed, numberLength_take long, run]
  | mark unclaimed mark run =>
      exact .mark (unclaimed.take length) mark (by rw [operatorReach_take (run ▸ enough), run])
  | other unclaimed noMark => exact .other (unclaimed.take length) noMark

end Cut

/-- The text of a token is scanned as that one token. -/
theorem scan_alone (chars : List Char) :
    ∀ lexeme ∈ (scan chars).lexemes, scan lexeme.text.toList = ⟨[lexeme], none⟩ := by
  fun_induction scan chars with
  | case1 => simp
  | case2 first rest fault _ => simp
  | case3 first rest kind count reached further ih =>
      intro lexeme member
      rcases List.mem_cons.mp member with here | later
      · have ended : scan ((rest.take count).drop count) = ⟨[], none⟩ := by
          rw [List.drop_take_self, scan.eq_def]
        have again := scan_cons (reach_take reached (Nat.le_refl count)) ended
        rw [List.take_take, Nat.min_self] at again
        rw [here]
        dsimp only
        rw [String.toList_ofList, again]
      · exact ih lexeme later

end Lexer

theorem Token.ofText_alone {source : String} {tokens : List Token} (split : Token.ofText source = .ok tokens)
    {token : Token} (member : token ∈ tokens) :
    Token.ofText token.text = .ok [⟨token.toLexeme, ⟨0, token.text.utf8ByteSize⟩⟩] := by
  unfold ofText
  rw [Lexer.scan_alone source.toList token.toLexeme (ofText_scanned split member)]
  dsimp only [layOut]
  rw [Nat.zero_add]

/-- A text that splits into tokens is lost nowhere: the tokens tile it and hold its text, put together they spell it,
and the text of any of them splits into exactly one token, of the same kind and text. -/
theorem tokens_lossless {source : String} {tokens : List Token} (split : Token.ofText source = .ok tokens) :
    Token.Covers source tokens ∧ String.join (tokens.map (·.text)) = source ∧
      ∀ token ∈ tokens, Token.ofText token.text = .ok [⟨token.toLexeme, ⟨0, token.text.utf8ByteSize⟩⟩] :=
  ⟨Token.ofText_covers split, Token.ofText_join split, fun _ => Token.ofText_alone split⟩

/-- A declaration with a comment, a number with an exponent and a text block, some of it outside ASCII. -/
theorem tokens_lossless_declaration :
    ∃ tokens, Token.ofText "int größe=.5e-3f; /* ∞ */ s=\"\"\"a\\\"\"\"b\"\"\"" = .ok tokens ∧
      tokens.map (·.text) = ["int", " ", "größe", "=", ".5e-3f", ";", " ", "/* ∞ */", " ", "s", "=",
        "\"\"\"a\\\"\"\"b\"\"\""] ∧
      Token.Covers "int größe=.5e-3f; /* ∞ */ s=\"\"\"a\\\"\"\"b\"\"\"" tokens ∧
      ∀ token ∈ tokens, Token.ofText token.text = .ok [⟨token.toLexeme, ⟨0, token.text.utf8ByteSize⟩⟩] := by
  have computed : ((Token.ofText "int größe=.5e-3f; /* ∞ */ s=\"\"\"a\\\"\"\"b\"\"\"").toOption.any fun tokens =>
      tokens.map (·.text) == ["int", " ", "größe", "=", ".5e-3f", ";", " ", "/* ∞ */", " ", "s", "=",
        "\"\"\"a\\\"\"\"b\"\"\""]) = true := by
    decide +kernel
  cases split : Token.ofText "int größe=.5e-3f; /* ∞ */ s=\"\"\"a\\\"\"\"b\"\"\"" with
  | error fault =>
      rw [split] at computed
      cases computed
  | ok tokens =>
      rw [split] at computed
      obtain ⟨covers, _, alone⟩ := tokens_lossless split
      exact ⟨tokens, rfl, beq_iff_eq.mp computed, covers, alone⟩

end ScopedRename
