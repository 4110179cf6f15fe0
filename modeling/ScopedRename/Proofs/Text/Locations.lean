import Mathlib.Data.List.TakeDrop
import Mathlib.Data.List.TakeWhile
import ScopedRename.Location

/-!
Locations as text: a file, a line and a column joined by colons. Reading starts from the right, so that only the file
may hold colons. Main statement: a text is read as a location exactly if it is spelled as one, and the text that a
location is printed as is read back.
-/

namespace ScopedRename

namespace Text

structure Digits (limit value : Nat) (digits : List Char) : Prop where
  nonempty : digits ≠ []
  decimal : ∀ c ∈ digits, c.isDigit = true
  stands : Nat.ofDigitChars 10 digits 0 = value
  below : value < limit

/-- The spellings of a number: its digits, with any number of zeros in front, and a plus sign if wanted. -/
inductive Numeral (limit value : Nat) : List Char → Prop where
  | plain {digits : List Char} (written : Digits limit value digits) : Numeral limit value digits
  | signed {digits : List Char} (written : Digits limit value digits) : Numeral limit value ('+' :: digits)

theorem digitsValue?_eq_some_iff (digits : List Char) (start value : Nat) :
    digitsValue? start digits = some value ↔
      (∀ c ∈ digits, c.isDigit = true) ∧ Nat.ofDigitChars 10 digits start = value := by
  induction digits generalizing start with
  | nil => simp [digitsValue?]
  | cons c rest ih =>
      rw [Nat.ofDigitChars_cons, List.forall_mem_cons, and_assoc, ← ih, digitsValue?]
      cases c.isDigit with
      | true => rw [if_pos rfl, eq_self, true_and]
      | false => simp

theorem digits_iff (limit value : Nat) (digits : List Char) :
    (if digits.isEmpty then none else (digitsValue? 0 digits).filter (· < limit)) = some value ↔
      Digits limit value digits := by
  cases digits with
  | nil =>
      constructor
      · intro impossible
        cases impossible
      · intro written
        exact absurd rfl written.nonempty
  | cons c rest =>
      rw [List.isEmpty_cons, if_neg Bool.false_ne_true, Option.filter_eq_some_iff, digitsValue?_eq_some_iff,
        decide_eq_true_iff]
      constructor
      · intro read
        exact ⟨List.cons_ne_nil c rest, read.1.1, read.1.2, read.2⟩
      · intro written
        exact ⟨⟨written.decimal, written.stands⟩, written.below⟩

theorem Digits.not_mem {limit value : Nat} {digits : List Char} (written : Digits limit value digits) {c : Char}
    (other : c.isDigit = false) : c ∉ digits := by
  intro member
  rw [written.decimal c member] at other
  cases other

theorem Numeral.colon_not_mem {limit value : Nat} {numeral : List Char} (written : Numeral limit value numeral) :
    ':' ∉ numeral := by
  cases written with
  | plain digits => exact digits.not_mem rfl
  | signed digits => exact List.not_mem_cons_of_ne_of_not_mem (by decide) (digits.not_mem rfl)

theorem decimal?_eq_some_iff (limit value : Nat) (numeral : List Char) :
    decimal? limit numeral = some value ↔ Numeral limit value numeral := by
  by_cases sign : ∃ digits, numeral = '+' :: digits
  · rcases sign with ⟨digits, rfl⟩
    rw [decimal?, digits_iff]
    constructor
    · exact Numeral.signed
    · intro written
      cases written with
      | plain digits => exact absurd List.mem_cons_self (digits.not_mem rfl)
      | signed digits => exact digits
  · have unsigned : decimal? limit numeral =
        if numeral.isEmpty then none else (digitsValue? 0 numeral).filter (· < limit) := by
      unfold decimal?
      split
      · exact absurd ⟨_, rfl⟩ sign
      · rfl
    rw [unsigned, digits_iff]
    constructor
    · exact Numeral.plain
    · intro written
      cases written with
      | plain digits => exact digits
      | signed digits => exact absurd ⟨_, rfl⟩ sign

theorem numeral_toString {limit value : Nat} (below : value < limit) : Numeral limit value (toString value).toList := by
  rw [Nat.toString_eq_repr, Nat.toList_repr]
  refine Numeral.plain ⟨Nat.toDigits_ne_nil, ?_, Nat.ofDigitChars_ten_toDigits, below⟩
  intro c member
  exact Nat.isDigit_of_mem_toDigits (by decide) (by decide) member

end Text

namespace Location

open Text

theorem splitAtLastColon_eq_some_iff {chars front tail : List Char} :
    splitAtLastColon chars = some (front, tail) ↔ chars = front ++ ':' :: tail ∧ ':' ∉ tail := by
  unfold splitAtLastColon
  rw [List.span_eq_takeWhile_dropWhile]
  constructor
  · intro split
    have parts := List.takeWhile_append_dropWhile (p := (· != ':')) (l := chars.reverse)
    cases rest : chars.reverse.dropWhile (· != ':') with
    | nil =>
        rw [rest] at split
        cases split
    | cons c before =>
        have colon : c = ':' := by
          have stop := List.head?_dropWhile_not (· != ':') chars.reverse
          rw [rest] at stop
          simpa using stop
        rw [rest] at split parts
        cases split
        subst colon
        constructor
        · have mirrored := congrArg List.reverse parts
          simpa using mirrored.symm
        · intro member
          have passed := List.mem_takeWhile_imp (List.mem_reverse.mp member)
          cases passed
  · rintro ⟨rfl, free⟩
    have passed : ∀ c ∈ tail.reverse, (c != ':') = true := by
      intro c member
      rw [bne_iff_ne]
      rintro rfl
      exact free (List.mem_reverse.mp member)
    rw [List.reverse_append, List.reverse_cons, List.append_assoc, List.singleton_append,
      List.takeWhile_append_of_pos passed, List.dropWhile_append_of_pos passed]
    simp

structure Spelling (location : Location) (text line column : String) : Prop where
  joined : text = location.file ++ ":" ++ line ++ ":" ++ column
  named : location.file ≠ ""
  lineFlat : ':' ∉ line.toList
  columnFlat : ':' ∉ column.toList
  lineNumeral : Numeral limit location.position.line line.toList
  columnNumeral : Numeral limit location.position.column column.toList
  lineCounted : location.position.line ≠ 0
  columnCounted : location.position.column ≠ 0
  spanless : location.span = none

theorem toList_joined (file line column : String) :
    (file ++ ":" ++ line ++ ":" ++ column).toList =
      (file.toList ++ ':' :: line.toList) ++ ':' :: column.toList := by
  simp [String.toList_append]

theorem parse?_of_spelling {text line column : String} {location : Location}
    (spelling : Spelling location text line column) : parse? text = some location := by
  have whole : text.toList = (location.file.toList ++ ':' :: line.toList) ++ ':' :: column.toList := by
    rw [spelling.joined, toList_joined]
  have named : location.file.toList.isEmpty = false := by
    rw [List.isEmpty_eq_false_iff]
    exact fun empty => spelling.named (String.toList_eq_nil_iff.mp empty)
  have counted : (location.file.toList.isEmpty || location.position.line == 0 || location.position.column == 0) =
      false := by
    rw [named, beq_false_of_ne spelling.lineCounted, beq_false_of_ne spelling.columnCounted]
    rfl
  unfold parse?
  simp only [splitAtLastColon_eq_some_iff.mpr ⟨whole, spelling.columnFlat⟩,
    splitAtLastColon_eq_some_iff.mpr ⟨rfl, spelling.lineFlat⟩, (decimal?_eq_some_iff _ _ _).mpr spelling.lineNumeral,
    (decimal?_eq_some_iff _ _ _).mpr spelling.columnNumeral, Option.bind_eq_bind, Option.bind_some, counted]
  cases location with
  | mk file position span =>
      cases spelling.spanless
      simp

theorem spelling_of_parse? {text : String} {location : Location} (read : parse? text = some location) :
    ∃ line column, Spelling location text line column := by
  obtain ⟨⟨front, columnText⟩, lastSplit, fromColumn⟩ := Option.bind_eq_some_iff.mp read
  obtain ⟨column, columnRead, fromFront⟩ := Option.bind_eq_some_iff.mp fromColumn
  obtain ⟨⟨file, lineText⟩, frontSplit, fromLine⟩ := Option.bind_eq_some_iff.mp fromFront
  obtain ⟨line, lineRead, checked⟩ := Option.bind_eq_some_iff.mp fromLine
  have whole := splitAtLastColon_eq_some_iff.mp lastSplit
  have inner := splitAtLastColon_eq_some_iff.mp frontSplit
  split at checked
  · cases checked
  · rename_i accepted
    rw [Bool.or_eq_true, Bool.or_eq_true, not_or, not_or, List.isEmpty_iff, beq_iff_eq, beq_iff_eq] at accepted
    cases checked
    refine ⟨String.ofList lineText, String.ofList columnText, ?_⟩
    constructor
    · rw [← String.toList_inj, toList_joined, whole.1, inner.1]
      simp only [String.toList_ofList]
    · exact fun empty => accepted.1.1 (String.ofList_eq_empty_iff.mp empty)
    · rw [String.toList_ofList]
      exact inner.2
    · rw [String.toList_ofList]
      exact whole.2
    · rw [String.toList_ofList]
      exact (decimal?_eq_some_iff _ _ _).mp lineRead
    · rw [String.toList_ofList]
      exact (decimal?_eq_some_iff _ _ _).mp columnRead
    · exact accepted.1.2
    · exact accepted.2
    · rfl

end Location

open Text in
/-- A text is read as a location exactly if it spells one: a file that is not empty, then, behind a colon each, the
numerals of a line and a column that are not zero and fit into 32 bits. What a file, a line and a column are printed as
is read back as just these. -/
theorem locations_exact :
    (∀ text location, Location.parse? text = some location ↔
      ∃ line column, Location.Spelling location text line column) ∧
    ∀ (file : String) (line column : Nat), file ≠ "" → 0 < line → line < Location.limit → 0 < column →
      column < Location.limit →
      Location.parse? (file ++ ":" ++ toString line ++ ":" ++ toString column) =
        some ⟨file, ⟨line, column⟩, none⟩ := by
  constructor
  · intro text location
    constructor
    · exact Location.spelling_of_parse?
    · rintro ⟨line, column, spelling⟩
      exact Location.parse?_of_spelling spelling
  · intro file line column named lineCounted lineBelow columnCounted columnBelow
    have lineNumeral := numeral_toString lineBelow
    have columnNumeral := numeral_toString columnBelow
    apply Location.parse?_of_spelling
    exact ⟨rfl, named, lineNumeral.colon_not_mem, columnNumeral.colon_not_mem, lineNumeral, columnNumeral,
      Nat.ne_of_gt lineCounted, Nat.ne_of_gt columnCounted, rfl⟩

/-- A file with a colon in its name, a sign, and zeros in front; and the same place as it is printed. -/
theorem locations_exact_colon :
    Location.Spelling ⟨"x:y", ⟨3, 40⟩, none⟩ "x:y:+3:0040" "+3" "0040" ∧
      Location.parse? "x:y:+3:0040" = some ⟨"x:y", ⟨3, 40⟩, none⟩ ∧
      Location.parse? "x:y:3:40" = some ⟨"x:y", ⟨3, 40⟩, none⟩ := by
  have line : Text.Numeral Location.limit 3 "+3".toList :=
    .signed ⟨by decide, List.all_eq_true.mp (by decide), by decide, by decide⟩
  have column : Text.Numeral Location.limit 40 "0040".toList :=
    .plain ⟨by decide, List.all_eq_true.mp (by decide), by decide, by decide⟩
  have spelling : Location.Spelling ⟨"x:y", ⟨3, 40⟩, none⟩ "x:y:+3:0040" "+3" "0040" :=
    ⟨by decide, by decide, line.colon_not_mem, column.colon_not_mem, line, column, by decide, by decide, rfl⟩
  have printed := locations_exact.2 "x:y" 3 40 (by decide) (by decide) (by decide) (by decide) (by decide)
  exact ⟨spelling, (locations_exact.1 _ _).mpr ⟨_, _, spelling⟩, printed⟩

end ScopedRename
