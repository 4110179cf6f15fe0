import Mathlib.Algebra.Ring.Nat
import ScopedRename.Proofs.Text.Bytes
import ScopedRename.Text.Lines

/-!
Lines of a text, cut at its newlines. A line starts behind the lines before it and their newlines. Main statements:
an offset on a line has that line's number and its distance from the start as column, and the line's ends as bounds.
-/

namespace ScopedRename

namespace Text

def lines (text : String) : List String := (text.toList.splitOn '\n').map String.ofList

/-- Bytes taken by whole lines of these lengths, each with its newline. -/
def through (lengths : List Nat) : Nat := (lengths.map (· + 1)).sum

@[simp] theorem through_nil : through [] = 0 := rfl

@[simp] theorem through_cons (length : Nat) (rest : List Nat) : through (length :: rest) = length + 1 + through rest :=
  rfl

@[simp] theorem through_append (left right : List Nat) : through (left ++ right) = through left + through right := by
  unfold through
  rw [List.map_append, List.sum_append]

theorem length_le_through (lengths : List Nat) : lengths.length ≤ through lengths := by
  induction lengths with
  | nil => exact Nat.le_refl 0
  | cons length rest ih =>
      rw [List.length_cons, through_cons]
      omega

theorem bytes_flatMap_newline (pieces : List (List Char)) :
    bytes (pieces.flatMap (· ++ ['\n'])) = through (pieces.map bytes) := by
  induction pieces with
  | nil => rfl
  | cons first rest ih =>
      rw [List.flatMap_cons, bytes_append, bytes_append, ih]
      rfl

def lineStart (text : String) (line : Nat) : Nat := through (((lines text).take line).map (·.utf8ByteSize))

theorem bytes_ahead (text : String) (line : Nat) :
    bytes (((text.toList.splitOn '\n').take line).flatMap (· ++ ['\n'])) = lineStart text line := by
  rw [bytes_flatMap_newline]
  unfold lineStart lines
  rw [← List.map_take, List.map_map]
  rfl

/-- A line stands in the text behind the lines before it with their newlines, and in front of the others. -/
theorem line_split {text row : String} {line : Nat} (found : (lines text)[line]? = some row) :
    text.toList = ((text.toList.splitOn '\n').take line).flatMap (· ++ ['\n']) ++ row.toList ++
      ((text.toList.splitOn '\n').drop (line + 1)).flatMap ('\n' :: ·) := by
  unfold lines at found
  rw [List.getElem?_map, Option.map_eq_some_iff] at found
  obtain ⟨piece, piece_found, rfl⟩ := found
  obtain ⟨inside, same⟩ := List.getElem?_eq_some_iff.mp piece_found
  rw [String.toList_ofList]
  refine append_of_splitOn ?_
  rw [← same, List.getElem_cons_drop, List.take_append_drop]

def OnLine (text : String) (line : Nat) (span : Span) : Prop :=
  ∃ row, (lines text)[line]? = some row ∧ lineStart text line ≤ span.start ∧
    span.stop ≤ lineStart text line + row.utf8ByteSize

theorem lineStart_lt {text row : String} {line later : Nat} (found : (lines text)[line]? = some row)
    (before : line < later) : lineStart text line + row.utf8ByteSize < lineStart text later := by
  have whole : (lines text).take (line + 1) = (lines text).take line ++ [row] := by
    rw [List.take_add_one, found]
    rfl
  have further : (lines text).take later =
      (lines text).take (line + 1) ++ ((lines text).drop (line + 1)).take (later - (line + 1)) := by
    rw [← List.take_add]
    congr 1
    omega
  unfold lineStart
  rw [further, whole]
  simp only [List.map_append, List.map_cons, List.map_nil, through_append, through_cons, through_nil]
  omega

theorem OnLine.unique {text : String} {left right : Nat} {span : Span} (proper : span.start ≤ span.stop)
    (onLeft : OnLine text left span) (onRight : OnLine text right span) : left = right := by
  obtain ⟨leftRow, leftFound, leftStart, leftStop⟩ := onLeft
  obtain ⟨rightRow, rightFound, rightStart, rightStop⟩ := onRight
  rcases Nat.lt_trichotomy left right with before | same | after
  · have apart := lineStart_lt leftFound before
    omega
  · exact same
  · have apart := lineStart_lt rightFound after
    omega

end Text

namespace Lines

open Text

/-! ### Bytes of characters -/

theorem bytes_ofText (text : String) : (ofText text).bytes = utf8 text.toList := encode_eq text

theorem count_newline (chars : List Char) : (utf8 chars).count newline = chars.count '\n' := by
  induction chars with
  | nil => rfl
  | cons c rest ih =>
      rw [List.count_cons, ← ih]
      change (String.utf8EncodeChar c ++ utf8 rest).count newline = _
      have code : c = '\n' ↔ c.toNat = 10 := by
        rw [← Char.toNat_inj]
        rfl
      have counted : (String.utf8EncodeChar c).count newline = if c.toNat = 10 then 1 else 0 :=
        count_utf8EncodeChar 10 (by decide) c
      rw [List.count_append, counted, Nat.add_comm]
      simp only [beq_iff_eq, code]

theorem newline_mem_utf8 {chars : List Char} : newline ∈ utf8 chars ↔ '\n' ∈ chars := by
  rw [← List.count_pos_iff, count_newline, List.count_pos_iff]

/-- The number counts on unless it is the last that fits. -/
theorem ordinal_of_lt {count : Nat} (fits : count + 1 < 2 ^ 32) : ordinal count = count + 1 := by
  unfold ordinal
  rw [UInt32.toNat_add, UInt32.toNat_ofNat_of_lt' (Nat.lt_of_succ_lt fits)]
  exact Nat.mod_eq_of_lt fits

theorem ordinal_last : ordinal (2 ^ 32 - 1) = 0 := by decide

theorem position_lt (text : String) (offset : Nat) :
    ((ofText text).position offset).line < 2 ^ 32 ∧ ((ofText text).position offset).column < 2 ^ 32 :=
  ⟨UInt32.toNat_lt _, UInt32.toNat_lt _⟩

/-! ### The line around an offset -/

/-- The bytes of a line between those in front of it, which end with a newline, and those behind it, which begin with
one. -/
structure Around (bytes ahead row behind : List UInt8) : Prop where
  whole : bytes = ahead ++ row ++ behind
  after : ahead = [] ∨ ∃ front, ahead = front ++ [newline]
  flat : newline ∉ row
  before : behind = [] ∨ ∃ rest, behind = newline :: rest

namespace Around

variable {lines : Lines} {ahead row behind : List UInt8} (around : Around lines.bytes ahead row behind) {column : Nat}
  (inside : column ≤ row.length)

include around

theorem drop : lines.bytes.drop ahead.length = row ++ behind := by
  rw [around.whole, List.append_assoc, List.drop_left]

theorem newline_mem_drop : newline ∈ lines.bytes.drop ahead.length ↔ behind ≠ [] := by
  rw [around.drop, List.mem_append, or_iff_right around.flat]
  rcases around.before with none | ⟨rest, next⟩
  · simp [none]
  · simp [next]

include inside

theorem take : lines.bytes.take (ahead.length + column) = ahead ++ row.take column := by
  rw [around.whole, List.append_assoc, List.take_length_add_append, List.take_append_of_le_length inside]

theorem count : (lines.bytes.take (ahead.length + column)).count newline = ahead.count newline := by
  rw [around.take inside, List.count_append, Nat.add_eq_left, List.count_eq_zero]
  exact fun among => around.flat (List.mem_of_mem_take among)

theorem start : lines.start (ahead.length + column) = ahead.length := by
  have flat : newline ∉ (row.take column).reverse := fun among =>
    around.flat (List.mem_of_mem_take (List.mem_reverse.mp among))
  have back : ((row.take column).reverse ++ ahead.reverse).idxOf newline = (row.take column).length := by
    rw [List.idxOf_append, if_neg flat, List.length_reverse]
    rcases around.after with none | ⟨front, last⟩
    · simp [none]
    · simp [last]
  unfold Lines.start
  dsimp only
  rw [around.take inside, List.reverse_append, back, List.length_append, Nat.add_sub_cancel]

theorem stop : lines.stop (ahead.length + column) = ahead.length + row.length := by
  have flat : newline ∉ row.drop column := fun among => around.flat (List.mem_of_mem_drop among)
  have on : (row.drop column ++ behind).idxOf newline = (row.drop column).length := by
    rw [List.idxOf_append, if_neg flat]
    rcases around.before with none | ⟨rest, next⟩
    · simp [none]
    · simp [next]
  unfold Lines.stop
  rw [← List.drop_drop, around.drop, List.drop_append_of_le_length inside, on, List.length_drop]
  omega

end Around

section Pieces

variable {pieces : List (List Char)}

theorem count_flatMap_newline (flat : ∀ piece ∈ pieces, '\n' ∉ piece) :
    (pieces.flatMap (· ++ ['\n'])).count '\n' = pieces.length := by
  induction pieces with
  | nil => rfl
  | cons first rest ih =>
      rw [List.flatMap_cons, List.count_append, List.count_append, ih fun piece among =>
        flat piece (List.mem_cons_of_mem _ among), List.count_eq_zero.mpr (flat first List.mem_cons_self)]
      simp [Nat.add_comm]

theorem utf8_flatMap_ends (pieces : List (List Char)) :
    utf8 (pieces.flatMap (· ++ ['\n'])) = [] ∨ ∃ front, utf8 (pieces.flatMap (· ++ ['\n'])) = front ++ [newline] := by
  rcases List.eq_nil_or_concat pieces with rfl | ⟨front, last, rfl⟩
  · exact Or.inl rfl
  · refine Or.inr ⟨utf8 (front.flatMap (· ++ ['\n']) ++ last), ?_⟩
    rw [List.concat_eq_append, List.flatMap_append]
    simp only [List.flatMap_cons, List.flatMap_nil, List.append_nil, utf8_append, List.append_assoc]
    rfl

end Pieces

section Found

variable {text row : String} {line column : Nat} (found : (lines text)[line]? = some row)

include found

theorem exists_around :
    ∃ ahead behind, Around (ofText text).bytes ahead (utf8 row.toList) behind ∧
      ahead.length = lineStart text line ∧ ahead.count newline = line ∧
      (behind = [] ↔ (lines text).length ≤ line + 1) := by
  refine ⟨utf8 (((text.toList.splitOn '\n').take line).flatMap (· ++ ['\n'])),
    utf8 (((text.toList.splitOn '\n').drop (line + 1)).flatMap ('\n' :: ·)), ⟨?_, ?_, ?_, ?_⟩, ?_, ?_, ?_⟩
  · rw [bytes_ofText, ← utf8_append, ← utf8_append, ← line_split found]
  · exact utf8_flatMap_ends _
  · rw [newline_mem_utf8]
    unfold lines at found
    rw [List.getElem?_map, Option.map_eq_some_iff] at found
    obtain ⟨piece, piece_found, rfl⟩ := found
    rw [String.toList_ofList]
    exact not_mem_of_mem_splitOn (List.mem_of_getElem? piece_found)
  · cases (text.toList.splitOn '\n').drop (line + 1) with
    | nil => exact Or.inl rfl
    | cons next further => exact Or.inr ⟨utf8 (next ++ further.flatMap ('\n' :: ·)), rfl⟩
  · rw [length_utf8, bytes_ahead]
  · rw [count_newline, count_flatMap_newline fun piece among => not_mem_of_mem_splitOn (List.mem_of_mem_take among),
      List.length_take]
    have inside := (List.getElem?_eq_some_iff.mp found).1
    unfold lines at inside
    rw [List.length_map] at inside
    omega
  · unfold lines
    rw [List.length_map, ← List.drop_eq_nil_iff]
    cases (text.toList.splitOn '\n').drop (line + 1) with
    | nil => exact iff_of_true rfl rfl
    | cons next further => exact iff_of_false (fun impossible => nomatch impossible) (fun impossible => nomatch impossible)

variable (inside : column ≤ row.utf8ByteSize)

include inside

theorem position_of_line :
    (ofText text).position (lineStart text line + column) = ⟨ordinal line, ordinal column⟩ := by
  obtain ⟨ahead, behind, around, starts, counted, _⟩ := exists_around found
  have reaches : column ≤ (utf8 row.toList).length := by rwa [length_utf8, bytes_toList]
  have within : ahead.length + column ≤ (ofText text).bytes.length := by
    rw [around.whole, List.length_append, List.length_append]
    omega
  unfold position
  dsimp only
  rw [← starts, Nat.min_eq_left within, around.count reaches, around.start reaches, counted, Nat.add_sub_cancel_left]

theorem bounds_of_line : (ofText text).bounds (lineStart text line + column) =
    ⟨lineStart text line, lineStart text line + row.utf8ByteSize⟩ := by
  obtain ⟨ahead, behind, around, starts, _, _⟩ := exists_around found
  have reaches : column ≤ (utf8 row.toList).length := by rwa [length_utf8, bytes_toList]
  have within : ahead.length + column ≤ (ofText text).bytes.length := by
    rw [around.whole, List.length_append, List.length_append]
    omega
  unfold bounds
  dsimp only
  rw [← starts, Nat.min_eq_left within, around.start reaches, around.stop reaches, length_utf8, bytes_toList]

end Found

end Lines

end ScopedRename
