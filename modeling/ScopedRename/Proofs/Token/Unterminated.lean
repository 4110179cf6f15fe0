import ScopedRename.Proofs.Token.Lossless

/-!
Texts that cannot be split into tokens. Main statement: splitting fails exactly where a literal or comment starts that
never closes, and the text in front of it splits as it does on its own.
-/

namespace ScopedRename

/-! ### Literals and comments that never close -/

inductive Escaped (visible : Char → Prop) : List Char → Prop where
  | nil : Escaped visible []
  | hidden (c : Char) {rest : List Char} (further : Escaped visible rest) : Escaped visible ('\\' :: c :: rest)
  | plain {c : Char} {rest : List Char} (shown : visible c) (unhidden : c ≠ '\\') (further : Escaped visible rest) :
      Escaped visible (c :: rest)

/-- Before a quote stands outside an escape, the text or the line ends. -/
def Broken (quote : Char) (text : List Char) : Prop :=
  ∃ before behind, text = before ++ behind ∧ Escaped (fun c => c ≠ quote ∧ c ≠ '\n' ∧ c ≠ '\r') before ∧
    (behind = [] ∨ behind = ['\\'] ∨ behind.head? = some '\n' ∨ behind.head? = some '\r')

/-- The text starts with a literal or comment that is not closed in it. -/
inductive NeverCloses : Unterminated → List Char → Prop where
  | comment {inside : List Char} (unclosed : ¬ ['*', '/'] <:+: inside) : NeverCloses .comment ('/' :: '*' :: inside)
  | textBlock {inside : List Char} (unclosed : ∀ before behind, Escaped (fun _ => True) before →
      inside ≠ before ++ '"' :: '"' :: '"' :: behind) : NeverCloses .textBlock ('"' :: '"' :: '"' :: inside)
  | string {inside : List Char} (single : ¬ ['"', '"'] <+: inside) (unclosed : Broken '"' inside) :
      NeverCloses .string ('"' :: inside)
  | character {inside : List Char} (unclosed : Broken '\'' inside) : NeverCloses .character ('\'' :: inside)

/-- A literal or comment right behind the lexeme would be read as a part of it, or would change it. -/
def Lexeme.Absorbs (lexeme : Lexeme) : Prop :=
  lexeme.kind = .comment ∧ ['/', '/'] <+: lexeme.text.toList ∨ lexeme.isPunctuation "/" = true ∨
    lexeme.kind = .stringLiteral ∧ lexeme.text = "\"\""

namespace Lexer

theorem commentLength?_eq_none_iff (chars : List Char) :
    commentLength? chars = none ↔ ¬ ['*', '/'] <:+: chars := by
  fun_induction commentLength? chars with
  | case1 => simp
  | case2 rest =>
      constructor
      · intro impossible
        cases impossible
      · intro absent
        exact absurd ⟨[], rest, rfl⟩ absent
  | case3 c rest other ih =>
      rw [Option.map_eq_none_iff, ih, List.infix_cons_iff, not_or]
      refine ⟨fun absent => ⟨?_, absent⟩, And.right⟩
      rintro ⟨behind, starts⟩
      cases starts
      exact other behind rfl rfl

theorem textBlockLength?_eq_none_iff (chars : List Char) :
    textBlockLength? chars = none ↔
      ∀ before behind, Escaped (fun _ => True) before → chars ≠ before ++ '"' :: '"' :: '"' :: behind := by
  fun_induction textBlockLength? chars with
  | case1 => simp
  | case2 rest =>
      constructor
      · intro impossible
        cases impossible
      · intro absent
        exact absurd rfl (absent [] rest .nil)
  | case3 c rest ih =>
      rw [Option.map_eq_none_iff, ih]
      constructor
      · intro absent before behind escaped split
        cases escaped with
        | nil => cases split
        | hidden _ further =>
            obtain ⟨_, same⟩ := List.cons.inj (List.cons.inj split).2
            exact absent _ behind further same
        | plain _ unhidden _ => exact unhidden (List.cons.inj split).1.symm
      · intro absent before behind escaped split
        exact absent _ behind (.hidden c escaped) (by rw [split]; rfl)
  | case4 c rest noQuotes noEscape ih =>
      rw [Option.map_eq_none_iff, ih]
      constructor
      · intro absent before behind escaped split
        cases escaped with
        | nil =>
            obtain ⟨quote, same⟩ := List.cons.inj split
            exact noQuotes behind quote same
        | hidden other _ =>
            obtain ⟨backslash, same⟩ := List.cons.inj split
            exact noEscape other _ backslash same
        | plain _ _ further => exact absent _ behind further (List.cons.inj split).2
      · intro absent before behind escaped split
        by_cases backslash : c = '\\'
        · -- a backslash that hides nothing is the last character
          cases rest with
          | nil =>
              cases before with
              | nil => cases split
              | cons other before => cases split
          | cons other rest => exact noEscape other rest backslash rfl
        · exact absent (c :: before) behind (.plain trivial backslash escaped) (by rw [split]; rfl)

theorem quotedLength?_eq_none_iff (quote : Char) (chars : List Char) :
    quotedLength? quote chars = none ↔ Broken quote chars := by
  fun_induction quotedLength? quote chars with
  | case1 => exact ⟨fun _ => ⟨[], [], rfl, .nil, Or.inl rfl⟩, fun _ => rfl⟩
  | case2 c rest ih =>
      rw [Option.map_eq_none_iff, ih]
      constructor
      · rintro ⟨before, behind, rfl, escaped, ends⟩
        exact ⟨_, behind, rfl, .hidden c escaped, ends⟩
      · rintro ⟨before, behind, split, escaped, ends⟩
        cases escaped with
        | nil =>
            rw [List.nil_append] at split
            subst split
            simp at ends
        | hidden _ further =>
            obtain ⟨_, same⟩ := List.cons.inj (List.cons.inj split).2
            exact ⟨_, behind, same, further, ends⟩
        | plain _ unhidden _ => exact absurd (List.cons.inj split).1.symm unhidden
  | case3 c rest noEscape ends =>
      refine ⟨fun _ => ⟨[], c :: rest, rfl, .nil, ?_⟩, fun _ => rfl⟩
      simp only [Bool.or_eq_true, beq_iff_eq] at ends
      rcases ends with (newline | return_) | backslash
      · exact Or.inr (Or.inr (Or.inl (congrArg some newline)))
      · exact Or.inr (Or.inr (Or.inr (congrArg some return_)))
      · cases rest with
        | nil => exact Or.inr (Or.inl (by rw [backslash]))
        | cons other rest => exact absurd rfl (noEscape other rest backslash)
  | case4 c rest noEscape goesOn closes =>
      constructor
      · intro impossible
        cases impossible
      · rintro ⟨before, behind, split, escaped, ends⟩
        simp only [Bool.or_eq_true, beq_iff_eq, not_or] at goesOn
        cases escaped with
        | nil =>
            rw [List.nil_append] at split
            subst split
            simp [goesOn] at ends
        | hidden other _ => exact absurd (List.cons.inj split).1 goesOn.2
        | plain shown _ _ => exact absurd ((List.cons.inj split).1.symm.trans (beq_iff_eq.mp closes)) shown.1
  | case5 c rest noEscape goesOn opens ih =>
      simp only [Bool.or_eq_true, beq_iff_eq, not_or] at goesOn
      rw [Option.map_eq_none_iff, ih]
      constructor
      · rintro ⟨before, behind, rfl, escaped, ends⟩
        have shown : c ≠ quote ∧ c ≠ '\n' ∧ c ≠ '\r' := ⟨mt beq_iff_eq.mpr opens, goesOn.1⟩
        exact ⟨c :: before, behind, rfl, .plain shown goesOn.2 escaped, ends⟩
      · rintro ⟨before, behind, split, escaped, ends⟩
        cases escaped with
        | nil =>
            rw [List.nil_append] at split
            subst split
            simp [goesOn] at ends
        | hidden other _ => exact absurd (List.cons.inj split).1 goesOn.2
        | plain _ _ further => exact ⟨_, behind, (List.cons.inj split).2, further, ends⟩

/-- A token cannot be read exactly if the text starts with a literal or comment that never closes. -/
theorem reach_eq_error_iff {first : Char} {rest : List Char} {fault : Unterminated} :
    reach first rest = .error fault ↔ NeverCloses fault (first :: rest) := by
  rw [reach_eq_iff]
  constructor
  · intro reads
    cases reads with
    | openBlock unclosed => exact .comment ((commentLength?_eq_none_iff _).mp unclosed)
    | openTextBlock unclosed => exact .textBlock ((textBlockLength?_eq_none_iff _).mp unclosed)
    | openString single unclosed => exact .string single ((quotedLength?_eq_none_iff '"' rest).mp unclosed)
    | openCharacter unclosed => exact .character ((quotedLength?_eq_none_iff '\'' rest).mp unclosed)
  · intro never
    cases never with
    | comment unclosed => exact .openBlock ((commentLength?_eq_none_iff _).mpr unclosed)
    | textBlock unclosed => exact .openTextBlock ((textBlockLength?_eq_none_iff _).mpr unclosed)
    | string single unclosed => exact .openString single ((quotedLength?_eq_none_iff '"' rest).mpr unclosed)
    | character unclosed => exact .openCharacter ((quotedLength?_eq_none_iff '\'' rest).mpr unclosed)

/-! ### What a token takes -/

section Bounds

variable {chars : List Char} {length : Nat}

theorem commentLength?_le (found : commentLength? chars = some length) : length ≤ chars.length := by
  fun_induction commentLength? chars generalizing length with
  | case1 => cases found
  | case2 rest =>
      cases found
      simp
  | case3 c rest _ ih =>
      obtain ⟨shorter, inside, rfl⟩ := Option.map_eq_some_iff.mp found
      exact Nat.succ_le_succ (ih inside)

theorem textBlockLength?_le (found : textBlockLength? chars = some length) : length ≤ chars.length := by
  fun_induction textBlockLength? chars generalizing length with
  | case1 => cases found
  | case2 rest =>
      cases found
      simp
  | case3 c rest ih =>
      obtain ⟨shorter, inside, rfl⟩ := Option.map_eq_some_iff.mp found
      exact Nat.succ_le_succ (Nat.succ_le_succ (ih inside))
  | case4 c rest _ _ ih =>
      obtain ⟨shorter, inside, rfl⟩ := Option.map_eq_some_iff.mp found
      exact Nat.succ_le_succ (ih inside)

theorem quotedLength?_le {quote : Char} (found : quotedLength? quote chars = some length) :
    length ≤ chars.length := by
  fun_induction quotedLength? quote chars generalizing length with
  | case1 => cases found
  | case2 c rest ih =>
      obtain ⟨shorter, inside, rfl⟩ := Option.map_eq_some_iff.mp found
      exact Nat.succ_le_succ (Nat.succ_le_succ (ih inside))
  | case3 => cases found
  | case4 c rest =>
      cases found
      simp
  | case5 c rest _ _ _ ih =>
      obtain ⟨shorter, inside, rfl⟩ := Option.map_eq_some_iff.mp found
      exact Nat.succ_le_succ (ih inside)

theorem commentLength?_append_right (found : commentLength? chars = some length) (after : List Char) :
    commentLength? (chars ++ after) = some length := by
  have again := (commentLength?_append found (chars.drop length ++ after)).2
  rwa [← List.append_assoc, List.take_append_drop] at again

theorem textBlockLength?_append_right (found : textBlockLength? chars = some length) (after : List Char) :
    textBlockLength? (chars ++ after) = some length := by
  have again := (textBlockLength?_append found (chars.drop length ++ after)).2
  rwa [← List.append_assoc, List.take_append_drop] at again

theorem quotedLength?_append_right {quote : Char} (found : quotedLength? quote chars = some length)
    (after : List Char) : quotedLength? quote (chars ++ after) = some length := by
  have again := (quotedLength?_append found (chars.drop length ++ after)).2
  rwa [← List.append_assoc, List.take_append_drop] at again

end Bounds

def opensLiteral (c : Char) : Bool := c == '/' || c == '"' || c == '\''

theorem opensLiteral_of_neverCloses {fault : Unterminated} {text : List Char} (never : NeverCloses fault text) :
    ∃ c inside, text = c :: inside ∧ opensLiteral c = true := by
  cases never with
  | comment => exact ⟨_, _, rfl, rfl⟩
  | textBlock => exact ⟨_, _, rfl, rfl⟩
  | string => exact ⟨_, _, rfl, rfl⟩
  | character => exact ⟨_, _, rfl, rfl⟩

section Behind

variable {first c : Char} {rest inside : List Char} {kind : TokenKind} {count : Nat} (opener : opensLiteral c = true)

theorem takeWhile_append_le {test : Char → Bool} (stops : test c = false) (rest inside : List Char) :
    ((rest ++ c :: inside).takeWhile test).length ≤ rest.length := by
  rw [List.takeWhile_append]
  split
  · simp [stops]
  · exact (List.takeWhile_prefix test).length_le

/-- A string that is closed does not become a text block by what is behind it, unless it is empty. -/
private theorem single_append {length : Nat} (single : ¬ ['"', '"'] <+: rest)
    (closed : quotedLength? '"' rest = some length) (apart : rest ≠ ['"']) : ¬ ['"', '"'] <+: rest ++ c :: inside := by
  intro two
  match rest with
  | [] => cases closed
  | [d] =>
      obtain rfl : '"' = d := (List.cons_prefix_cons.mp two).1
      exact apart rfl
  | d :: e :: tail =>
      obtain ⟨same, second⟩ := List.cons_prefix_cons.mp two
      obtain ⟨again, _⟩ := List.cons_prefix_cons.mp second
      exact single ⟨tail, by rw [← same, ← again]; rfl⟩

include opener

theorem eq_of_opensLiteral : c = '/' ∨ c = '"' ∨ c = '\'' := by
  simpa [opensLiteral, or_assoc] using opener

theorem numberLength_append_le (hexadecimal : Bool) (previous : Char) :
    numberLength hexadecimal previous (rest ++ c :: inside) ≤ rest.length := by
  induction rest generalizing previous with
  | nil =>
      have stops : numberLength hexadecimal previous (c :: inside) = 0 := by
        rcases eq_of_opensLiteral opener with rfl | rfl | rfl
        · rfl
        · rfl
        · rfl
      exact Nat.le_of_eq stops
  | cons d rest ih =>
      rw [List.cons_append, numberLength]
      split
      · exact Nat.succ_le_succ (ih d)
      · exact Nat.zero_le _

theorem operatorReach_append_le : operatorReach (first :: (rest ++ c :: inside)) ≤ rest.length := by
  have checked : (operators.all fun marks => marks.tail.all fun c => !opensLiteral c) = true := by decide
  have noOpener : ∀ marks ∈ operators, ∀ c ∈ marks.tail, opensLiteral c = false := by
    simpa only [List.all_eq_true, Bool.not_eq_true'] using checked
  unfold operatorReach
  cases chosen : operators.find? (·.isPrefixOf (first :: (rest ++ c :: inside))) with
  | none => exact Nat.zero_le _
  | some marks =>
      have starts := List.isPrefixOf_iff_prefix.mp (List.find?_eq_some_iff_append.mp chosen).1
      apply Nat.le_of_not_lt
      intro beyond
      obtain ⟨tail, rfl⟩ : ∃ tail, marks = first :: tail := by
        rcases List.prefix_cons_iff.mp starts with empty | ⟨tail, same, _⟩
        · rw [empty] at beyond
          cases beyond
        · exact ⟨tail, same⟩
      have reaches : rest ++ [c] <+: tail := by
        refine List.prefix_of_prefix_length_le ?_ ((List.prefix_cons_inj first).mp starts) ?_
        · rw [List.append_cons rest c inside]
          exact List.prefix_append _ _
        · rw [List.length_append]
          exact beyond
      have outside := noOpener _ (List.mem_of_find?_eq_some chosen) c
        (reaches.subset (List.mem_append_right rest List.mem_cons_self))
      rw [opener] at outside
      cases outside

/-- A literal or comment behind a character that starts nothing makes it start nothing else, unless it is a slash that
absorbs it. -/
theorem Unclaimed.append (unclaimed : Unclaimed first rest) (apart : rest = [] → first ≠ '/') :
    Unclaimed first (rest ++ c :: inside) where
  noBlank := unclaimed.noBlank
  noStart := unclaimed.noStart
  noNumber := by
    have noNumber := unclaimed.noNumber
    cases rest with
    | cons d tail => exact noNumber
    | nil =>
        have noDigit : c.isDigit = false := by
          rcases eq_of_opensLiteral opener with rfl | rfl | rfl
          · rfl
          · rfl
          · rfl
        unfold startsNumber at noNumber ⊢
        rw [List.nil_append, startsWithDigit, noDigit]
        exact noNumber
  noQuote := unclaimed.noQuote
  noComment slash := by
    cases rest with
    | cons d tail => exact unclaimed.noComment slash
    | nil => exact absurd slash (apart rfl)

/-- In front of a literal or comment a token ends, unless it absorbs it. -/
theorem exists_reach_append (reached : reach first rest = .ok (kind, count))
    (apart : rest.length ≤ count → ¬ (⟨kind, String.ofList (first :: rest)⟩ : Lexeme).Absorbs) :
    ∃ kind count, reach first (rest ++ c :: inside) = .ok (kind, count) ∧ count ≤ rest.length := by
  simp only [reach_eq_iff] at reached ⊢
  cases reached with
  | blank blank _ =>
      have noBlank : Text.isBlank c = false := by
        rcases eq_of_opensLiteral opener with rfl | rfl | rfl
        · decide
        · decide
        · decide
      exact ⟨_, _, .blank blank rfl, takeWhile_append_le noBlank rest inside⟩
  | @line tail _ run =>
      refine ⟨_, _, .line rfl, Nat.succ_le_succ ?_⟩
      change ((tail ++ c :: inside).takeWhile (· != '\n')).length ≤ tail.length
      rw [List.takeWhile_append]
      split
      · -- the comment takes all that is in front, so it would go on
        rename_i whole
        refine absurd (Or.inl ⟨rfl, ?_⟩) (apart (by rw [← run, whole]; rfl))
        rw [String.toList_ofList]
        exact ⟨tail, rfl⟩
      · exact (List.takeWhile_prefix _).length_le
  | block closed =>
      exact ⟨_, _, .block (commentLength?_append_right closed _), Nat.succ_le_succ (commentLength?_le closed)⟩
  | textBlock closed =>
      exact ⟨_, _, .textBlock (textBlockLength?_append_right closed _),
        Nat.succ_le_succ (Nat.succ_le_succ (textBlockLength?_le closed))⟩
  | string single closed =>
      have apart_ : rest ≠ ['"'] := by
        rintro rfl
        cases closed
        exact apart (Nat.le_refl 1) (Or.inr (Or.inr ⟨rfl, by decide⟩))
      exact ⟨_, _, .string (single_append single closed apart_) (quotedLength?_append_right closed _),
        quotedLength?_le closed⟩
  | character closed => exact ⟨_, _, .character (quotedLength?_append_right closed _), quotedLength?_le closed⟩
  | word start _ _ =>
      have noPart : Name.isPart c = false := by
        rcases eq_of_opensLiteral opener with rfl | rfl | rfl
        · decide +kernel
        · decide +kernel
        · decide +kernel
      exact ⟨_, _, .word start rfl rfl, takeWhile_append_le noPart rest inside⟩
  | number begins _ =>
      have again : startsNumber first (rest ++ c :: inside) = true := by
        cases rest with
        | cons d tail => exact begins
        | nil =>
            rw [startsNumber, startsWithDigit, Bool.and_false, Bool.or_false] at begins
            rw [startsNumber, begins, Bool.true_or]
      exact ⟨_, _, .number again rfl, numberLength_append_le opener _ first⟩
  | mark unclaimed mark _ =>
      have slash : rest = [] → first ≠ '/' := by
        rintro rfl rfl
        exact apart (Nat.zero_le _) (Or.inr (Or.inl (by decide)))
      exact ⟨_, _, .mark (unclaimed.append opener slash) mark rfl, operatorReach_append_le opener⟩
  | other unclaimed noMark =>
      have slash : rest = [] → first ≠ '/' := by
        rintro _ rfl
        cases noMark
      exact ⟨_, _, .other (unclaimed.append opener slash) noMark, Nat.zero_le _⟩

/-- A token in front of a literal or comment that it does not absorb is the one it is without them. -/
theorem reach_append (reached : reach first rest = .ok (kind, count))
    (apart : rest.length ≤ count → ¬ (⟨kind, String.ofList (first :: rest)⟩ : Lexeme).Absorbs) :
    count ≤ rest.length ∧ reach first (rest ++ c :: inside) = .ok (kind, count) := by
  obtain ⟨otherKind, otherCount, again, short⟩ :
      ∃ kind count, reach first (rest ++ c :: inside) = .ok (kind, count) ∧ count ≤ rest.length :=
    exists_reach_append opener reached apart
  have cut := reach_take again short
  rw [List.take_left, reached] at cut
  cases cut
  exact ⟨short, again⟩

end Behind

/-! ### Scans that stop -/

/-- Where a scan stops, a literal or comment starts that never closes, and what is in front of it is scanned in the same
way on its own. -/
theorem exists_split_of_fault {chars : List Char} {fault : Unterminated} (stopped : (scan chars).fault = some fault) :
    ∃ before after, chars = before ++ after ∧ scan before = ⟨(scan chars).lexemes, none⟩ ∧
      NeverCloses fault after := by
  fun_induction scan chars with
  | case1 => cases stopped
  | case2 first rest kind failed =>
      cases stopped
      exact ⟨[], first :: rest, rfl, by rw [scan.eq_def], reach_eq_error_iff.mp failed⟩
  | case3 first rest kind count reached further ih =>
      obtain ⟨before, after, split, scanned, never⟩ := ih stopped
      have taken : rest.take (count + before.length) = rest.take count ++ before := by
        rw [List.take_add, split, List.take_left]
      have remains : scan ((rest.take (count + before.length)).drop count) = ⟨further.lexemes, none⟩ := by
        rw [List.drop_take, split, Nat.add_sub_cancel_left, List.take_left]
        exact scanned
      have again := scan_cons (reach_take reached (Nat.le_add_right count before.length)) remains
      rw [List.take_take, Nat.min_eq_left (Nat.le_add_right count before.length), taken] at again
      refine ⟨first :: (rest.take count ++ before), after, ?_, again, never⟩
      rw [List.cons_append, List.append_assoc, ← split, List.take_append_drop]

/-- A literal or comment that never closes stops a scan where it starts, unless the last lexeme in front absorbs it. -/
theorem scan_append_neverCloses {before after : List Char} {lexemes : List Lexeme} {fault : Unterminated}
    (scanned : scan before = ⟨lexemes, none⟩) (apart : ∀ last ∈ lexemes.getLast?, ¬ last.Absorbs)
    (never : NeverCloses fault after) : scan (before ++ after) = ⟨lexemes, some fault⟩ := by
  obtain ⟨c, inside, rfl, opener⟩ := opensLiteral_of_neverCloses never
  induction lexemes generalizing before with
  | nil =>
      have empty : before = [] := by
        have spelled := scan_flatMap_text before (by rw [scanned])
        rw [scanned] at spelled
        exact spelled.symm
      rw [empty, List.nil_append, scan.eq_def]
      dsimp only
      rw [reach_eq_error_iff.mpr never]
  | cons lexeme further ih =>
      obtain ⟨first, rest, count, rfl, reached, text, remains⟩ := scan_eq_cons scanned
      have alone : rest.length ≤ count → ¬ (⟨lexeme.kind, String.ofList (first :: rest)⟩ : Lexeme).Absorbs := by
        intro all
        have whole : (⟨lexeme.kind, String.ofList (first :: rest)⟩ : Lexeme) = lexeme := by
          rw [← List.take_of_length_le all, ← text, String.ofList_toList]
        have last : further = [] := by
          rw [List.drop_eq_nil_of_le all, scan.eq_def] at remains
          exact (Scan.mk.inj remains).1.symm
        rw [whole]
        exact apart lexeme (by rw [last]; rfl)
      obtain ⟨short, again⟩ := reach_append opener reached alone
      have later : scan ((rest ++ c :: inside).drop count) = ⟨further, some fault⟩ := by
        rw [List.drop_append_of_le_length short]
        refine ih remains ?_
        intro last member
        exact apart last (by rw [List.getLast?_cons, Option.mem_def.mp member]; rfl)
      rw [List.cons_append, scan_cons again later, List.take_append_of_le_length short, ← text, String.ofList_toList]

theorem totalBytes_eq (lexemes : List Lexeme) :
    Lexeme.totalBytes lexemes = (String.ofList (spelling lexemes)).utf8ByteSize := by
  induction lexemes with
  | nil => rfl
  | cons lexeme rest ih =>
      rw [Lexeme.totalBytes, ih]
      unfold spelling
      rw [List.flatMap_cons, String.ofList_append, String.utf8ByteSize_append, String.ofList_toList]

end Lexer

namespace Token

theorem ofText_eq_error_iff {source : String} {error : LexError} :
    ofText source = .error error ↔ (Lexer.scan source.toList).fault = some error.kind ∧
      error.offset = Lexeme.totalBytes (Lexer.scan source.toList).lexemes := by
  unfold ofText
  dsimp only
  cases fault : (Lexer.scan source.toList).fault with
  | none =>
      constructor
      · intro impossible
        cases impossible
      · rintro ⟨impossible, _⟩
        cases impossible
  | some kind =>
      constructor
      · intro failed
        cases failed
        exact ⟨rfl, rfl⟩
      · rintro ⟨same, offset⟩
        cases same
        rw [← offset]

theorem totalBytes_of_scan {source : String} {lexemes : List Lexeme}
    (scanned : Lexer.scan source.toList = ⟨lexemes, none⟩) : Lexeme.totalBytes lexemes = source.utf8ByteSize := by
  have spelled := Lexer.scan_flatMap_text source.toList (by rw [scanned])
  rw [scanned] at spelled
  rw [Lexer.totalBytes_eq, Lexer.spelling, spelled, String.ofList_toList]

/-- A text that does not split is cut where a literal or comment starts that never closes, behind a text that splits. -/
theorem split_of_ofText_error {source : String} {error : LexError} (failed : ofText source = .error error) :
    ∃ before after, source = before ++ after ∧ error.offset = before.utf8ByteSize ∧
      error.offset < source.utf8ByteSize ∧ (∃ tokens, ofText before = .ok tokens) ∧
      NeverCloses error.kind after.toList := by
  obtain ⟨stopped, offset⟩ := ofText_eq_error_iff.mp failed
  obtain ⟨before, after, split, scanned, never⟩ := Lexer.exists_split_of_fault stopped
  obtain ⟨c, inside, rfl, _⟩ := Lexer.opensLiteral_of_neverCloses never
  have front : Lexer.scan (String.ofList before).toList = ⟨(Lexer.scan source.toList).lexemes, none⟩ := by
    rw [String.toList_ofList]
    exact scanned
  have whole : source = String.ofList before ++ String.ofList (c :: inside) := by
    rw [← String.ofList_append, ← split, String.ofList_toList]
  have place : error.offset = (String.ofList before).utf8ByteSize := by
    rw [offset, totalBytes_of_scan front]
  refine ⟨String.ofList before, String.ofList (c :: inside), whole, place, ?_, ⟨_, ofText_of_scan front⟩, ?_⟩
  · have positive := c.utf8Size_pos
    rw [place, whole, String.utf8ByteSize_append, String.ofList_cons, String.utf8ByteSize_append,
      String.utf8ByteSize_singleton]
    omega
  · rw [String.toList_ofList]
    exact never

end Token

/-- Splitting a text fails only where a literal or comment starts that never closes, and the text in front of it splits.
Behind a text that splits, such a literal or comment makes the whole fail where it starts, unless the last token absorbs
it: a line comment, a slash or an empty string. -/
theorem unterminated_exact (source : String) :
    (∀ error, Token.ofText source = .error error →
      ∃ before after, source = before ++ after ∧ error.offset = before.utf8ByteSize ∧
        error.offset < source.utf8ByteSize ∧ (∃ tokens, Token.ofText before = .ok tokens) ∧
        NeverCloses error.kind after.toList) ∧
      ∀ before after tokens fault, source = before ++ after → Token.ofText before = .ok tokens →
        (∀ last ∈ tokens.getLast?, ¬ last.Absorbs) → NeverCloses fault after.toList →
        Token.ofText source = .error ⟨fault, before.utf8ByteSize⟩ := by
  constructor
  · exact fun error failed => Token.split_of_ofText_error failed
  · rintro before after tokens fault rfl split apart never
    have scanned := Token.scan_of_ofText split
    have alone : ∀ last ∈ (tokens.map (·.toLexeme)).getLast?, ¬ last.Absorbs := by
      rw [List.getLast?_map]
      intro last member
      obtain ⟨token, listed, rfl⟩ := Option.map_eq_some_iff.mp member
      exact apart token listed
    have stopped := Lexer.scan_append_neverCloses scanned alone never
    rw [← String.toList_append] at stopped
    rw [Token.ofText_eq_error_iff, stopped]
    exact ⟨rfl, (Token.totalBytes_of_scan scanned).symm⟩

end ScopedRename
