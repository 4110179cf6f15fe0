import ScopedRename.Command.Target
import ScopedRename.Proofs.Text.Lines
import ScopedRename.Proofs.Token.Lossless

/-!
Offsets and positions are two names for the same places. Every offset up to the end lies on exactly one line, and both
conversions are read off that line: its number and the distance from its start lead to the offset and back. What a
position outside the text misses is the line or the column.
-/

namespace ScopedRename

namespace Text

/-- Offsets below the total lie on a line, at most as far from its start as the line is long. -/
theorem exists_length_at {lengths : List Nat} {offset : Nat} (inside : offset < through lengths) :
    ∃ line column length, lengths[line]? = some length ∧ column ≤ length ∧
      offset = through (lengths.take line) + column := by
  induction lengths generalizing offset with
  | nil => exact absurd inside (Nat.not_lt_zero offset)
  | cons first rest ih =>
      by_cases here : offset ≤ first
      · exact ⟨0, offset, first, rfl, here, by simp⟩
      · rw [through_cons] at inside
        have further : offset - (first + 1) < through rest := by omega
        obtain ⟨line, column, length, found, short, place⟩ := ih further
        refine ⟨line + 1, column, length, found, short, ?_⟩
        rw [List.take_succ_cons, through_cons]
        omega

section Line

variable {text row : String} {line : Nat} (found : (lines text)[line]? = some row)

include found

theorem slice?_of_line :
    (Span.mk (lineStart text line) (lineStart text line + row.utf8ByteSize)).slice? text = some row := by
  refine Token.slice?_of_split (line_split found) (bytes_ahead text line).symm ?_
  change _ = bytes (_ ++ row.toList)
  rw [bytes_append, bytes_toList, bytes_ahead]

theorem lineStart_add_le : lineStart text line + row.utf8ByteSize ≤ text.utf8ByteSize := by
  have size := congrArg bytes (line_split found)
  rw [bytes_append, bytes_append, bytes_toList, bytes_toList, bytes_ahead] at size
  omega

theorem le_lineStart : line ≤ lineStart text line := by
  obtain ⟨inside, _⟩ := List.getElem?_eq_some_iff.mp found
  have counted := length_le_through (((lines text).take line).map (·.utf8ByteSize))
  rw [List.length_map, List.length_take] at counted
  unfold lineStart
  omega

end Line

/-- The lines and their newlines make up the text and one newline more. -/
theorem through_lines (text : String) : through ((lines text).map (·.utf8ByteSize)) = text.utf8ByteSize + 1 := by
  have nonempty : lines text ≠ [] := by
    unfold lines
    rw [Ne, List.map_eq_nil_iff]
    exact List.splitOn_ne_nil '\n' text.toList
  obtain ⟨front, last, shape⟩ := (List.eq_nil_or_concat (lines text)).resolve_left nonempty
  have found : (lines text)[front.length]? = some last := by
    rw [shape]
    simp
  have counted : (text.toList.splitOn '\n').length = front.length + 1 := by
    rw [← List.length_map String.ofList]
    change (lines text).length = _
    rw [shape]
    simp
  have size := congrArg bytes (line_split found)
  rw [bytes_append, bytes_append, bytes_toList, bytes_toList, bytes_ahead, List.drop_of_length_le (by omega)] at size
  unfold lineStart at size
  rw [shape] at size ⊢
  simp at size ⊢
  omega

end Text

namespace Lines

open Text

/-- Every offset up to the end lies on a line. -/
theorem exists_line_at {text : String} {offset : Nat} (inside : offset ≤ text.utf8ByteSize) :
    ∃ line column row, (lines text)[line]? = some row ∧ column ≤ row.utf8ByteSize ∧
      offset = lineStart text line + column := by
  have below : offset < through ((lines text).map (·.utf8ByteSize)) := by
    rw [through_lines]
    exact Nat.lt_succ_of_le inside
  obtain ⟨line, column, length, found, short, place⟩ := exists_length_at below
  rw [List.getElem?_map, Option.map_eq_some_iff] at found
  obtain ⟨row, row_found, rfl⟩ := found
  rw [← List.map_take] at place
  exact ⟨line, column, row, row_found, short, place⟩

/-- Passing over newlines leads from the start of a line to the starts of the lines below. -/
theorem below?_of_line {text row : String} {line : Nat} (found : (lines text)[line]? = some row) (count : Nat) :
    (ofText text).below? count (lineStart text line) =
      if line + count < (lines text).length then some (lineStart text (line + count)) else none := by
  induction count generalizing line row with
  | zero => rw [Nat.add_zero, if_pos (List.getElem?_eq_some_iff.mp found).1, below?]
  | succ count ih =>
      obtain ⟨ahead, behind, around, starts, _, last⟩ := exists_around found
      rw [below?, ← starts]
      by_cases more : line + 1 < (lines text).length
      · have stops := around.stop (Nat.zero_le _)
        have following : lineStart text (line + 1) = lineStart text line + row.utf8ByteSize + 1 := by
          unfold lineStart
          rw [List.take_add_one, found]
          simp [Nat.add_assoc]
        rw [Nat.add_zero, length_utf8, bytes_toList] at stops
        rw [if_pos (around.newline_mem_drop.mpr fun none => absurd (last.mp none) (Nat.not_le_of_lt more)), stops,
          starts, ← following, ih (List.getElem?_eq_getElem more), Nat.add_assoc, Nat.add_comm 1]
      · rw [if_neg fun among => around.newline_mem_drop.mp among (last.mpr (Nat.le_of_not_lt more)),
          if_neg (by omega)]

variable {text : String} {place : Position}

theorem first_line (text : String) : ∃ row, (lines text)[0]? = some row := by
  obtain ⟨line, column, row, found, _, start⟩ := exists_line_at (Nat.zero_le text.utf8ByteSize)
  have numbered := le_lineStart found
  obtain rfl : line = 0 := by omega
  exact ⟨row, found⟩

theorem offset?_eq (text : String) (place : Position) : (ofText text).offset? place =
    (lines text)[place.line - 1]?.bind fun row =>
      if place.column - 1 ≤ row.utf8ByteSize then some (lineStart text (place.line - 1) + (place.column - 1))
      else none := by
  obtain ⟨_, first⟩ := first_line text
  have reached : (ofText text).below? (place.line - 1) 0 = _ := below?_of_line first (place.line - 1)
  have line : max place.line 1 - 1 = place.line - 1 := by omega
  unfold offset?
  rw [line, reached, Nat.zero_add]
  by_cases inside : place.line - 1 < (lines text).length
  · have found := List.getElem?_eq_getElem inside
    have bounds := bounds_of_line found (Nat.zero_le _)
    have column : lineStart text (place.line - 1) + max place.column 1 - 1 =
        lineStart text (place.line - 1) + (place.column - 1) := by omega
    rw [Nat.add_zero] at bounds
    rw [if_pos inside, found]
    simp only [bind, Option.bind, bounds, column, Nat.add_lt_add_iff_left]
    by_cases short : place.column - 1 ≤ ((lines text)[place.line - 1]).utf8ByteSize
    · rw [if_neg (Nat.not_lt_of_le short), if_pos short]
    · rw [if_pos (Nat.lt_of_not_le short), if_neg short]
  · rw [if_neg inside, List.getElem?_eq_none (Nat.le_of_not_lt inside)]
    rfl

theorem offset?_eq_some_iff {offset : Nat} : (ofText text).offset? place = some offset ↔
    ∃ row, (lines text)[place.line - 1]? = some row ∧ place.column - 1 ≤ row.utf8ByteSize ∧
      offset = lineStart text (place.line - 1) + (place.column - 1) := by
  rw [offset?_eq, Option.bind_eq_some_iff]
  constructor
  · rintro ⟨row, found, reached⟩
    split at reached
    next short => exact ⟨row, found, short, (Option.some.inj reached).symm⟩
    next => cases reached
  · rintro ⟨row, found, short, rfl⟩
    exact ⟨row, found, if_pos short⟩

/-- A position leads nowhere if its line is missing or ends before its column. -/
theorem offset?_eq_none_iff : (ofText text).offset? place = none ↔
    (lines text).length < max place.line 1 ∨
      ∃ row, (lines text)[max place.line 1 - 1]? = some row ∧ row.utf8ByteSize + 1 < max place.column 1 := by
  have line : max place.line 1 - 1 = place.line - 1 := by omega
  rw [Option.eq_none_iff_forall_ne_some, line]
  constructor
  · intro missing
    by_cases there : place.line - 1 < (lines text).length
    · have found := List.getElem?_eq_getElem there
      refine Or.inr ⟨_, found, Nat.lt_of_not_le fun reached => ?_⟩
      exact missing _ (offset?_eq_some_iff.mpr ⟨_, found, by omega, rfl⟩)
    · exact Or.inl (by omega)
  · rintro missing offset given
    obtain ⟨row, found, short, _⟩ := offset?_eq_some_iff.mp given
    obtain ⟨inside, _⟩ := List.getElem?_eq_some_iff.mp found
    rcases missing with few | ⟨other, other_found, beyond⟩
    · omega
    · have same : row = other := Option.some.inj (found.symm.trans other_found)
      rw [same] at short
      omega

variable {offset line column : Nat} {row : String}

/-- The end of a text is on its last line. -/
theorem line_of_end (found : (lines text)[line]? = some row) (place : lineStart text line + column = text.utf8ByteSize)
    (within : column ≤ row.utf8ByteSize) : (lines text).length = line + 1 := by
  have inside := (List.getElem?_eq_some_iff.mp found).1
  refine Nat.le_antisymm (Nat.le_of_not_lt fun more => ?_) inside
  have next := List.getElem?_eq_getElem more
  have before := lineStart_lt found (Nat.lt_add_one line)
  have ends := lineStart_add_le next
  omega

theorem length_lines_le (text : String) : (lines text).length ≤ text.utf8ByteSize + 1 := by
  rw [← through_lines, ← List.length_map (·.utf8ByteSize)]
  exact length_le_through _

theorem offset?_origin (topmost : place.line ≤ 1) (leftmost : place.column ≤ 1) :
    (ofText text).offset? place = some 0 := by
  obtain ⟨row, first⟩ := first_line text
  refine offset?_eq_some_iff.mpr ⟨row, ?_, ?_, ?_⟩
  · rw [Nat.sub_eq_zero_of_le topmost]
    exact first
  · rw [Nat.sub_eq_zero_of_le leftmost]
    exact Nat.zero_le _
  · rw [Nat.sub_eq_zero_of_le topmost, Nat.sub_eq_zero_of_le leftmost]
    rfl

/-- A line or a column that would be 2^32 counts as zero, which leads to the start of the text instead. -/
theorem offset?_position_iff (short : text.utf8ByteSize < Location.limit) (inside : offset ≤ text.utf8ByteSize) :
    (ofText text).offset? ((ofText text).position offset) = some offset ↔
      ¬(offset + 1 = Location.limit ∧ ((lines text).length = 1 ∨ (lines text).length = Location.limit)) := by
  have limit : Location.limit = 2 ^ 32 := rfl
  obtain ⟨line, column, row, found, within, rfl⟩ := exists_line_at inside
  have numbered := le_lineStart found
  have counted := (List.getElem?_eq_some_iff.mp found).1
  have few := length_lines_le text
  rw [position_of_line found within]
  by_cases long : column + 1 = 2 ^ 32
  · -- the whole text is one line
    obtain rfl : line = 0 := by omega
    have ends := line_of_end found (by omega) within
    have wrapped : ordinal column = 0 := by rw [show column = 2 ^ 32 - 1 by omega, ordinal_last]
    rw [wrapped, offset?_origin (Nat.le_of_eq (ordinal_of_lt (by decide))) (Nat.zero_le _), Option.some.injEq]
    exact iff_of_false (by omega) (not_not_intro ⟨by omega, Or.inl ends⟩)
  · by_cases many : line + 1 = 2 ^ 32
    · -- the text is nothing but newlines
      have wrapped : ordinal line = 0 := by rw [show line = 2 ^ 32 - 1 by omega, ordinal_last]
      obtain rfl : column = 0 := by omega
      rw [wrapped, offset?_origin (Nat.zero_le _) (Nat.le_of_eq (ordinal_of_lt (by decide))), Option.some.injEq]
      exact iff_of_false (by omega) (not_not_intro ⟨by omega, Or.inr (by omega)⟩)
    · rw [ordinal_of_lt (by omega), ordinal_of_lt (by omega)]
      refine iff_of_true (offset?_eq_some_iff.mpr ⟨row, found, within, rfl⟩) ?_
      rintro ⟨last, one | all⟩
      · obtain rfl : line = 0 := by omega
        have start : lineStart text 0 = 0 := rfl
        omega
      · have ends := line_of_end found (by omega) within
        omega

end Lines

end ScopedRename
