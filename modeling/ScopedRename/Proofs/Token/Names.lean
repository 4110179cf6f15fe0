import Mathlib.Data.List.Find
import ScopedRename.Proofs.Token.Reading
import ScopedRename.Proofs.Token.Tiling

/-!
Names and identifiers: what may spell a name, and how a text is split where one starts. Main statement: the names that
can be given to a declaration are the texts that split into one identifier, and the texts that stand as an identifier in
some text.
-/

namespace ScopedRename

namespace Name

/-- A name is accepted if it starts like one, goes on like one and is not reserved. -/
theorem fault?_eq_none_iff {name : String} :
    fault? name = none ↔ ∃ first rest, name.toList = first :: rest ∧ isStart first = true ∧
      (∀ c ∈ rest, isPart c = true) ∧ isKeyword name = false := by
  unfold fault?
  cases name.toList with
  | nil => simp
  | cons first rest =>
      cases start : isStart first with
      | false => simp [start]
      | true =>
          dsimp only
          rw [if_neg (by simp [start])]
          cases bad : rest.find? fun c => !isPart c with
          | some c =>
              have badPart : isPart c = false := by simpa using List.find?_some bad
              have member := List.mem_of_find?_eq_some bad
              constructor
              · intro impossible
                cases impossible
              · rintro ⟨_, _, same, _, parts, _⟩
                cases same
                rw [parts c member] at badPart
                cases badPart
          | none =>
              have parts : ∀ c ∈ rest, isPart c = true := by simpa using List.find?_eq_none.mp bad
              dsimp only
              constructor
              · intro free
                exact ⟨first, rest, rfl, start, parts, by simpa using free⟩
              · rintro ⟨_, _, _, _, _, free⟩
                rw [free, if_neg Bool.false_ne_true]

theorem not_isKeyword_of_fault? {name : String} (valid : fault? name = none) : isKeyword name = false := by
  obtain ⟨_, _, _, _, _, free⟩ := fault?_eq_none_iff.mp valid
  exact free

theorem parts_of_fault? {name : String} (valid : fault? name = none) : ∀ c ∈ name.toList, isPart c = true := by
  obtain ⟨first, rest, spelled, start, parts, _⟩ := fault?_eq_none_iff.mp valid
  rw [spelled]
  exact List.forall_mem_cons.mpr ⟨isPart_of_isStart start, parts⟩

end Name

namespace Lexer

theorem reach_name {name : String} (valid : Name.fault? name = none) {remaining : List Char}
    (ends : remaining.takeWhile Name.isPart = []) :
    ∃ first tail, name.toList = first :: tail ∧ Name.isStart first = true ∧
      reach first (tail ++ remaining) = .ok (.identifier, tail.length) := by
  obtain ⟨first, tail, spelled, start, parts, free⟩ := Name.fault?_eq_none_iff.mp valid
  have run : (tail ++ remaining).takeWhile Name.isPart = tail := by
    rw [List.takeWhile_append_of_pos parts, ends, List.append_nil]
  have word : String.ofList (first :: tail) = name := by
    rw [← spelled, String.ofList_toList]
  refine ⟨first, tail, spelled, start, ?_⟩
  rw [reach_of_isStart start, run, word, wordKind, free]
  rfl

/-- An identifier starts like a name, goes on as long as a name can, and is not reserved. -/
theorem identifier_of_reach {first : Char} {rest : List Char} {count : Nat}
    (reached : reach first rest = .ok (.identifier, count)) :
    Name.isStart first = true ∧ (rest.drop count).takeWhile Name.isPart = [] ∧
      isKeyword (String.ofList (first :: rest.take count)) = false := by
  have ended (chars : List Char) : (chars.drop (chars.takeWhile Name.isPart).length).takeWhile Name.isPart = [] := by
    induction chars with
    | nil => rfl
    | cons c chars ih =>
        by_cases part : Name.isPart c = true
        · simpa [part] using ih
        · simp [part]
  cases reach_eq_iff.mp reached with
  | word start run named =>
      have taken := List.prefix_iff_eq_take.mp (List.takeWhile_prefix Name.isPart (l := rest))
      rw [run] at taken
      refine ⟨start, run ▸ ended rest, ?_⟩
      rw [← taken]
      unfold wordKind at named
      split at named
      · cases named
      · rename_i free
        exact Bool.not_eq_true _ ▸ free

theorem parts_of_reach {first : Char} {rest : List Char} {count : Nat}
    (reached : reach first rest = .ok (.identifier, count)) :
    ∀ c ∈ first :: rest.take count, Name.isPart c = true := by
  cases reach_eq_iff.mp reached with
  | word start run _ =>
      have taken := List.prefix_iff_eq_take.mp (List.takeWhile_prefix Name.isPart (l := rest))
      rw [run] at taken
      rw [← taken]
      exact List.forall_mem_cons.mpr ⟨Name.isPart_of_isStart start, List.all_eq_true.mp List.all_takeWhile⟩

theorem scan_identifier_valid (chars : List Char) :
    ∀ lexeme ∈ (scan chars).lexemes, lexeme.kind = .identifier → Name.fault? lexeme.text = none := by
  fun_induction scan chars with
  | case1 => simp
  | case2 first rest fault _ => simp
  | case3 first rest kind count reached further ih =>
      intro lexeme member identifier
      rcases List.mem_cons.mp member with here | later
      · rw [here] at identifier ⊢
        dsimp only at identifier
        rw [identifier] at reached
        obtain ⟨start, _, free⟩ := identifier_of_reach reached
        refine Name.fault?_eq_none_iff.mpr ⟨first, rest.take count, String.toList_ofList, start, ?_, free⟩
        intro c inside
        exact parts_of_reach reached c (List.mem_cons_of_mem _ inside)
      · exact ih lexeme later identifier

end Lexer

namespace Token

/-- An identifier is a name that can be given to a declaration. -/
theorem ofText_identifier_valid {source : String} {tokens : List Token} (split : ofText source = .ok tokens)
    {token : Token} (member : token ∈ tokens) (identifier : token.isIdentifier = true) :
    Name.fault? token.text = none :=
  Lexer.scan_identifier_valid _ _ (ofText_scanned split member) (beq_iff_eq.mp identifier)

theorem ofText_identifier_free {source : String} {tokens : List Token} (split : ofText source = .ok tokens)
    {token : Token} (member : token ∈ tokens) (identifier : token.isIdentifier = true) :
    isKeyword token.text = false :=
  Name.not_isKeyword_of_fault? (ofText_identifier_valid split member identifier)

/-- An identifier is made of characters that names can have. -/
theorem ofText_identifier_parts {source : String} {tokens : List Token} (split : ofText source = .ok tokens)
    {token : Token} (member : token ∈ tokens) (identifier : token.isIdentifier = true) :
    ∀ c ∈ token.text.toList, Name.isPart c = true :=
  Name.parts_of_fault? (ofText_identifier_valid split member identifier)

end Token

theorem isTypeKeyword_of_not_isKeyword {text : String} (free : isKeyword text = false) :
    isTypeKeyword text = false := by
  have reserved : ∀ word ∈ typeKeywords, isKeyword word = true := by decide
  cases keyword : isTypeKeyword text with
  | false => rfl
  | true =>
      rw [reserved text (List.contains_iff_mem.mp keyword)] at free
      cases free

/-- A name that can be given to a declaration splits into one identifier. -/
theorem Token.ofText_name {name : String} (valid : Name.fault? name = none) :
    ofText name = .ok [⟨⟨.identifier, name⟩, ⟨0, name.utf8ByteSize⟩⟩] := by
  have ended : ([] : List Char).takeWhile Name.isPart = [] := rfl
  obtain ⟨first, tail, spelled, _, reached⟩ := Lexer.reach_name valid ended
  rw [List.append_nil] at reached
  have empty : Lexer.scan (tail.drop tail.length) = ⟨[], none⟩ := by
    rw [List.drop_length, Lexer.scan.eq_def]
  have scanned := Lexer.scan_cons reached empty
  rw [List.take_length, ← spelled, String.ofList_toList] at scanned
  have split := ofText_of_scan scanned
  rwa [layOut, layOut, Nat.zero_add] at split

/-- A name is accepted exactly if it splits into a single identifier that covers it, and exactly if some text that
splits has it as an identifier. -/
theorem name_valid_iff_identifier (name : String) :
    (Name.fault? name = none ↔ ∃ token, Token.ofText name = .ok [token] ∧ token.kind = .identifier ∧
      token.span = ⟨0, name.utf8ByteSize⟩) ∧
    (Name.fault? name = none ↔ ∃ source tokens token, Token.ofText source = .ok tokens ∧ token ∈ tokens ∧
      token.kind = .identifier ∧ token.text = name) := by
  have lexed {source : String} {tokens : List Token} {token : Token} (split : Token.ofText source = .ok tokens)
      (member : token ∈ tokens) (identifier : token.kind = .identifier) : Name.fault? token.text = none :=
    Token.ofText_identifier_valid split member (beq_iff_eq.mpr identifier)
  refine ⟨⟨?_, ?_⟩, ⟨?_, ?_⟩⟩
  · intro valid
    exact ⟨_, Token.ofText_name valid, rfl, rfl⟩
  · rintro ⟨token, split, identifier, _⟩
    have text := Token.ofText_join split
    rw [List.map_singleton, String.join_cons, String.join_nil, String.append_empty] at text
    rw [← text]
    exact lexed split List.mem_cons_self identifier
  · intro valid
    exact ⟨name, _, _, Token.ofText_name valid, List.mem_cons_self, rfl, rfl⟩
  · rintro ⟨source, tokens, token, split, member, identifier, rfl⟩
    exact lexed split member identifier

end ScopedRename
