import Mathlib.Data.List.Basic
import ScopedRename.Code.Brackets
import ScopedRename.Proofs.Fallible
import ScopedRename.Proofs.Token.Layout
import ScopedRename.Token.Lexer

/-!
The tokens of a text cover it: put together again they spell the text, none is empty, and each ends before the next
begins. Words keep their order when blanks and comments are left out, so a word position determines its span and is
determined by it.
-/

namespace ScopedRename

theorem exists_ok_of_any {failure value : Type} {outcome : Except failure value} {test : value → Bool}
    (passes : outcome.toOption.any test = true) : ∃ result, outcome = .ok result ∧ test result = true := by
  cases outcome with
  | error failed => cases passes
  | ok result => exact ⟨result, rfl, passes⟩

namespace Lexer

theorem scan_text_ne_nil (chars : List Char) :
    ∀ lexeme ∈ (scan chars).lexemes, lexeme.text.toList ≠ [] := by
  fun_induction scan chars with
  | case1 => simp
  | case2 first rest fault _ => simp
  | case3 first rest kind count _ further ih =>
      intro lexeme member
      rcases List.mem_cons.mp member with here | later
      · rw [here]
        simp
      · exact ih lexeme later

theorem scan_flatMap_text (chars : List Char) (complete : (scan chars).fault = none) :
    (scan chars).lexemes.flatMap (·.text.toList) = chars := by
  fun_induction scan chars with
  | case1 => rfl
  | case2 first rest fault _ => cases complete
  | case3 first rest kind count _ further ih =>
      rw [List.flatMap_cons, ih complete]
      simp

/-- What a scan that starts with a lexeme has read and has still to read. -/
theorem scan_eq_cons {chars : List Char} {lexeme : Lexeme} {lexemes : List Lexeme}
    (scanned : scan chars = ⟨lexeme :: lexemes, none⟩) :
    ∃ first rest count, chars = first :: rest ∧ reach first rest = .ok (lexeme.kind, count) ∧
      lexeme.text.toList = first :: rest.take count ∧ scan (rest.drop count) = ⟨lexemes, none⟩ := by
  rw [scan.eq_def] at scanned
  cases chars with
  | nil => cases scanned
  | cons first rest =>
      dsimp only at scanned
      split at scanned
      · cases scanned
      · rename_i kind count reached
        simp only [Scan.mk.injEq, List.cons.injEq] at scanned
        obtain ⟨⟨rfl, further⟩, fault⟩ := scanned
        refine ⟨first, rest, count, rfl, reached, String.toList_ofList, ?_⟩
        cases left : scan (rest.drop count) with
        | mk lexemes fault' =>
            rw [left] at further fault
            rw [show lexemes = _ from further, show fault' = none from fault]

theorem scan_cons {first : Char} {rest : List Char} {kind : TokenKind} {count : Nat}
    (reached : reach first rest = .ok (kind, count)) {lexemes : List Lexeme} {fault : Option Unterminated}
    (scanned : scan (rest.drop count) = ⟨lexemes, fault⟩) :
    scan (first :: rest) = ⟨⟨kind, String.ofList (first :: rest.take count)⟩ :: lexemes, fault⟩ := by
  rw [scan.eq_def]
  dsimp only
  rw [reached]
  dsimp only
  rw [scanned]

end Lexer

namespace Token

structure Tiled (tokens : List Token) : Prop where
  proper : ∀ token ∈ tokens, token.span.start < token.span.stop
  ordered : tokens.Pairwise fun left right => left.span.stop ≤ right.span.start

theorem Tiled.eq_of_start_eq {tokens : List Token} (tiled : Tiled tokens) {left right : Token}
    (leftMember : left ∈ tokens) (rightMember : right ∈ tokens) (same : left.span.start = right.span.start) :
    left = right := by
  obtain ⟨i, leftInside, leftAt⟩ := List.mem_iff_getElem.mp leftMember
  obtain ⟨j, rightInside, rightAt⟩ := List.mem_iff_getElem.mp rightMember
  have apart := List.pairwise_iff_getElem.mp tiled.ordered
  have leftProper := tiled.proper left leftMember
  have rightProper := tiled.proper right rightMember
  rcases Nat.lt_trichotomy i j with before | equal | after
  · have stop := apart i j leftInside rightInside before
    rw [leftAt, rightAt] at stop
    omega
  · subst equal
    exact leftAt.symm.trans rightAt
  · have stop := apart j i rightInside leftInside after
    rw [leftAt, rightAt] at stop
    omega

theorem Tiled.eq_of_span_eq {tokens : List Token} (tiled : Tiled tokens) {left right : Token}
    (leftMember : left ∈ tokens) (rightMember : right ∈ tokens) (same : left.span = right.span) : left = right :=
  tiled.eq_of_start_eq leftMember rightMember (congrArg Span.start same)

theorem Tiled.tail {token : Token} {rest : List Token} (tiled : Tiled (token :: rest)) : Tiled rest :=
  ⟨fun other member => tiled.proper other (List.mem_cons_of_mem _ member), (List.pairwise_cons.mp tiled.ordered).2⟩

theorem Tiled.start_lt {token other : Token} {rest : List Token} (tiled : Tiled (token :: rest))
    (member : other ∈ rest) : token.span.start < other.span.start := by
  have proper := tiled.proper token List.mem_cons_self
  have apart := (List.pairwise_cons.mp tiled.ordered).1 other member
  omega

theorem layOut_start_le (start : Nat) (lexemes : List Lexeme) :
    ∀ token ∈ layOut start lexemes, start ≤ token.span.start := by
  induction lexemes generalizing start with
  | nil => simp [layOut]
  | cons lexeme rest ih =>
      intro token member
      rcases List.mem_cons.mp member with here | later
      · have starts : token.span.start = start := by rw [here]
        exact Nat.le_of_eq starts.symm
      · have further := ih _ token later
        omega

theorem layOut_tiled (start : Nat) (lexemes : List Lexeme)
    (nonempty : ∀ lexeme ∈ lexemes, 0 < lexeme.text.utf8ByteSize) : Tiled (layOut start lexemes) := by
  induction lexemes generalizing start with
  | nil => exact ⟨by simp [layOut], List.Pairwise.nil⟩
  | cons lexeme rest ih =>
      have rested := ih (start + lexeme.text.utf8ByteSize)
        (fun other member => nonempty other (List.mem_cons_of_mem _ member))
      refine ⟨?_, ?_⟩
      · intro token member
        rcases List.mem_cons.mp member with here | later
        · have size := nonempty lexeme List.mem_cons_self
          rw [here]
          dsimp only
          omega
        · exact rested.proper token later
      · refine List.pairwise_cons.mpr ⟨?_, rested.ordered⟩
        intro token later
        exact layOut_start_le _ rest token later

theorem layOut_map_toLexeme (start : Nat) (lexemes : List Lexeme) :
    (layOut start lexemes).map (·.toLexeme) = lexemes := by
  induction lexemes generalizing start with
  | nil => rfl
  | cons lexeme rest ih => rw [layOut, List.map_cons, ih]

theorem ofText_eq_ok {source : String} {tokens : List Token} (split : ofText source = .ok tokens) :
    (Lexer.scan source.toList).fault = none ∧ tokens = layOut 0 (Lexer.scan source.toList).lexemes := by
  unfold ofText at split
  dsimp only at split
  cases fault : (Lexer.scan source.toList).fault with
  | none =>
      rw [fault] at split
      exact ⟨rfl, (Except.ok.inj split).symm⟩
  | some kind =>
      rw [fault] at split
      cases split

theorem ofText_of_scan {source : String} {lexemes : List Lexeme}
    (scanned : Lexer.scan source.toList = ⟨lexemes, none⟩) : ofText source = .ok (layOut 0 lexemes) := by
  unfold ofText
  rw [scanned]

theorem scan_of_ofText {source : String} {tokens : List Token} (split : ofText source = .ok tokens) :
    Lexer.scan source.toList = ⟨tokens.map (·.toLexeme), none⟩ := by
  obtain ⟨complete, laid⟩ := ofText_eq_ok split
  rw [laid, layOut_map_toLexeme, ← complete]

theorem ofText_scanned {source : String} {tokens : List Token} (split : ofText source = .ok tokens) {token : Token}
    (member : token ∈ tokens) : token.toLexeme ∈ (Lexer.scan source.toList).lexemes := by
  rw [scan_of_ofText split]
  exact List.mem_map_of_mem member

theorem ofText_tiled {source : String} {tokens : List Token} (split : ofText source = .ok tokens) :
    Tiled tokens := by
  obtain ⟨_, laid⟩ := ofText_eq_ok split
  rw [laid]
  apply layOut_tiled
  intro lexeme member
  have nonempty := Lexer.scan_text_ne_nil source.toList lexeme member
  apply Nat.pos_of_ne_zero
  intro empty
  apply nonempty
  rw [String.utf8ByteSize_eq_zero_iff.mp empty]
  rfl

theorem ofText_join {source : String} {tokens : List Token} (split : ofText source = .ok tokens) :
    String.join (tokens.map (·.text)) = source := by
  have spelled := Lexer.scan_flatMap_text source.toList (ofText_eq_ok split).1
  rw [scan_of_ofText split, List.flatMap_map] at spelled
  apply String.toList_inj.mp
  rw [String.toList_join, List.flatMap_map]
  exact spelled

def significant (tokens : List Token) : List Token := tokens.filter fun token => !token.kind.isTrivia

theorem words_eq_significant (tokens : List Token) : words tokens = (significant tokens).map (·.toLexeme) := rfl

theorem Tiled.significant {tokens : List Token} (tiled : Tiled tokens) : Tiled (significant tokens) where
  proper token member := tiled.proper token (List.mem_of_mem_filter member)
  ordered := tiled.ordered.filter _

end Token

namespace Layout

private theorem zipIdx_filter_map_fst (tokens : List Token) (start : Nat) :
    ((tokens.zipIdx start).filter fun token => !token.1.kind.isTrivia).map (·.1) = Token.significant tokens := by
  induction tokens generalizing start with
  | nil => rfl
  | cons token rest ih =>
      rw [List.zipIdx_cons, Token.significant, List.filter_cons, List.filter_cons]
      split
      · rw [List.map_cons, ih]
        rfl
      · exact ih (start + 1)

/-- The word at a position is the token of that number among the words. -/
theorem token?_ofTokens (tokens : List Token) (position : Nat) :
    (ofTokens tokens).token? position = (Token.significant tokens)[position]? := by
  unfold token? ofTokens Token.wordIndices
  rw [← zipIdx_filter_map_fst tokens 0, List.getElem?_toArray, List.getElem?_map, List.getElem?_map]
  cases found : (tokens.zipIdx.filter fun token => !token.1.kind.isTrivia)[position]? with
  | none => rfl
  | some pair =>
      have listed := List.mem_of_mem_filter (List.mem_of_getElem? found)
      have indexed := List.mk_mem_zipIdx_iff_getElem?.mp (show (pair.1, pair.2) ∈ tokens.zipIdx from listed)
      rw [Option.map_some, Option.map_some, Option.bind_some, List.getElem?_toArray]
      exact indexed

variable {tokens : List Token}

@[simp]
theorem size_ofTokens (tokens : List Token) : (ofTokens tokens).size = (Token.significant tokens).length := by
  rw [← zipIdx_filter_map_fst tokens 0, List.length_map]
  unfold size ofTokens Token.wordIndices
  rw [List.size_toArray, List.length_map]

theorem words_ofTokens (tokens : List Token) : (ofTokens tokens).words = Token.words tokens := by
  apply List.ext_getElem?
  intro position
  rw [getElem?_words, word?, token?_ofTokens, Token.words_eq_significant, List.getElem?_map]

theorem stop_le_start (tiled : Token.Tiled tokens) {earlier later : Nat} (before : earlier < later)
    (inside : later < (Token.significant tokens).length) :
    ((ofTokens tokens).span earlier).stop ≤ ((ofTokens tokens).span later).start := by
  have earlierInside : earlier < (Token.significant tokens).length := Nat.lt_trans before inside
  rw [span_of_token? ((token?_ofTokens tokens earlier).trans (List.getElem?_eq_getElem earlierInside)),
    span_of_token? ((token?_ofTokens tokens later).trans (List.getElem?_eq_getElem inside))]
  exact List.pairwise_iff_getElem.mp tiled.significant.ordered earlier later earlierInside inside before

theorem start_lt_stop (tiled : Token.Tiled tokens) {position : Nat}
    (inside : position < (Token.significant tokens).length) :
    ((ofTokens tokens).span position).start < ((ofTokens tokens).span position).stop := by
  rw [span_of_token? ((token?_ofTokens tokens position).trans (List.getElem?_eq_getElem inside))]
  exact tiled.significant.proper _ (List.getElem_mem inside)

private theorem start_lt_start_of_lt (tiled : Token.Tiled tokens) {earlier later : Nat} (before : earlier < later)
    (inside : later < (Token.significant tokens).length) :
    ((ofTokens tokens).span earlier).start < ((ofTokens tokens).span later).start :=
  Nat.lt_of_lt_of_le (start_lt_stop tiled (Nat.lt_trans before inside)) (stop_le_start tiled before inside)

theorem start_le_start_iff (tiled : Token.Tiled tokens) {left right : Nat}
    (leftInside : left < (Token.significant tokens).length) (rightInside : right < (Token.significant tokens).length) :
    ((ofTokens tokens).span left).start ≤ ((ofTokens tokens).span right).start ↔ left ≤ right := by
  constructor
  · intro ordered
    by_contra after
    have strict := start_lt_start_of_lt tiled (Nat.lt_of_not_le after) leftInside
    omega
  · intro ordered
    rcases Nat.eq_or_lt_of_le ordered with rfl | before
    · exact Nat.le_refl _
    · exact Nat.le_of_lt (start_lt_start_of_lt tiled before rightInside)

theorem start_lt_stop_iff (tiled : Token.Tiled tokens) {left right : Nat}
    (leftInside : left < (Token.significant tokens).length) (rightInside : right < (Token.significant tokens).length) :
    ((ofTokens tokens).span left).start < ((ofTokens tokens).span right).stop ↔ left ≤ right := by
  constructor
  · intro overlaps
    by_contra after
    have apart := stop_le_start tiled (Nat.lt_of_not_le after) leftInside
    omega
  · intro ordered
    have first := (start_le_start_iff tiled leftInside rightInside).mpr ordered
    exact Nat.lt_of_le_of_lt first (start_lt_stop tiled rightInside)

theorem stop_le_stop_iff (tiled : Token.Tiled tokens) {left right : Nat}
    (leftInside : left < (Token.significant tokens).length) (rightInside : right < (Token.significant tokens).length) :
    ((ofTokens tokens).span left).stop ≤ ((ofTokens tokens).span right).stop ↔ left ≤ right := by
  constructor
  · intro ordered
    have proper := start_lt_stop tiled leftInside
    exact (start_lt_stop_iff tiled leftInside rightInside).mp (by omega)
  · intro ordered
    rcases Nat.eq_or_lt_of_le ordered with rfl | before
    · exact Nat.le_refl _
    · have apart := stop_le_start tiled before rightInside
      have proper := start_lt_stop tiled rightInside
      omega

theorem stop_le_stop (tiled : Token.Tiled tokens) {position : Nat}
    (inside : position < (Token.significant tokens).length) :
    ((ofTokens tokens).span position).stop ≤ (ofTokens tokens).stop := by
  have found := (token?_ofTokens tokens position).trans (List.getElem?_eq_getElem inside)
  have member : (Token.significant tokens)[position] ∈ tokens :=
    List.mem_of_mem_filter (List.getElem_mem inside)
  rw [span_of_token? found]
  obtain ⟨i, bound, same⟩ := List.mem_iff_getElem.mp member
  have last : (ofTokens tokens).stop = (tokens[tokens.length - 1]).span.stop := by
    unfold stop ofTokens
    rw [List.back?_toArray, List.getLast?_eq_getElem?, List.getElem?_eq_getElem (by omega)]
    rfl
  rw [last, ← same]
  rcases Nat.eq_or_lt_of_le (Nat.le_sub_one_of_lt bound) with rfl | before
  · exact Nat.le_refl _
  · have apart := List.pairwise_iff_getElem.mp tiled.ordered i (tokens.length - 1) bound (by omega) before
    have proper := tiled.proper _ (List.getElem_mem (show tokens.length - 1 < tokens.length by omega))
    omega

theorem span_injective (tiled : Token.Tiled tokens) {left right : Nat}
    (leftInside : left < (Token.significant tokens).length) (rightInside : right < (Token.significant tokens).length)
    (same : (ofTokens tokens).span left = (ofTokens tokens).span right) : left = right := by
  rcases Nat.lt_trichotomy left right with before | equal | after
  · have strict := start_lt_start_of_lt tiled before rightInside
    rw [same] at strict
    exact absurd strict (Nat.lt_irrefl _)
  · exact equal
  · have strict := start_lt_start_of_lt tiled after leftInside
    rw [same] at strict
    exact absurd strict (Nat.lt_irrefl _)

/-- The words of a text start one after the other. -/
theorem ordered_ofTokens (tiled : Token.Tiled tokens) : (ofTokens tokens).Ordered where
  strictMono := by
    have start_of_le {position : Nat} (past : ¬ position < (Token.significant tokens).length) :
        ((ofTokens tokens).span position).start = (ofTokens tokens).stop + position :=
      congrArg Span.start (span_of_le (by rw [size_ofTokens]; omega))
    intro earlier later before
    dsimp only
    by_cases inside : later < (Token.significant tokens).length
    · exact start_lt_start_of_lt tiled before inside
    · rw [start_of_le inside]
      by_cases placed : earlier < (Token.significant tokens).length
      · have within := stop_le_stop tiled placed
        have proper := start_lt_stop tiled placed
        omega
      · rw [start_of_le placed]
        exact Nat.add_lt_add_left before _

end Layout

namespace Code

theorem ofTokens_layout {tokens : List Token} {code : Code} (built : ofTokens tokens = .ok code) :
    code.layout = Layout.ofTokens tokens := by
  obtain ⟨pairs, _, rfl⟩ := map_eq_ok.mp (mapError_eq_ok.mp built)
  rfl

theorem word?_ofTokens {tokens : List Token} {code : Code} (built : ofTokens tokens = .ok code) (position : Nat) :
    code.word? position = ((Layout.ofTokens tokens).token? position).map (·.toLexeme) := by
  rw [word?, ofTokens_layout built, Layout.word?]

/-- An identifier of the code is an identifier token, with the same text and at the word's span. -/
theorem identifier_token {tokens : List Token} {code : Code} (built : ofTokens tokens = .ok code) {position : Nat}
    (identifier : code.isIdentifier position = true) :
    ∃ token ∈ tokens, token.span = (Layout.ofTokens tokens).span position ∧ token.isIdentifier = true ∧
      token.text = code.text position := by
  unfold isIdentifier at identifier
  unfold text
  rw [word?_ofTokens built] at identifier ⊢
  cases found : (Layout.ofTokens tokens).token? position with
  | none =>
      rw [found] at identifier
      cases identifier
  | some token =>
      rw [found] at identifier
      refine ⟨token, ?_, (Layout.span_of_token? found).symm, identifier, rfl⟩
      rw [Layout.token?_ofTokens] at found
      exact List.mem_of_mem_filter (List.mem_of_getElem? found)

theorem size_ofTokens {tokens : List Token} {code : Code} (built : ofTokens tokens = .ok code) :
    code.size = (Token.significant tokens).length := by
  rw [size, ofTokens_layout built, Layout.size_ofTokens]

end Code

end ScopedRename
