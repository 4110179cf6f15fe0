import ScopedRename.Proofs.Text.Lines

/-!
Texts with holes. Filling the holes of a template with two words gives two texts that differ at the holes only. If
neither word holds a newline, the holes lie within the lines: the rows of the template, filled, are the lines of the
filled text, and each hole has the number of its row.
-/

namespace ScopedRename.Template

open Text

def fill (word : List Char) : List (Option Char) → List Char
  | [] => []
  | none :: rest => word ++ fill word rest
  | some c :: rest => c :: fill word rest

/-- Spans of the holes in the filled text, when it starts at an offset. -/
def holes (word : List Char) : Nat → List (Option Char) → List Span
  | _, [] => []
  | offset, none :: rest => ⟨offset, offset + bytes word⟩ :: holes word (offset + bytes word) rest
  | offset, some c :: rest => holes word (offset + c.utf8Size) rest

def rows (template : List (Option Char)) : List (List (Option Char)) := template.splitOn (some '\n')

/-- Spans of the holes of rows with the numbers of the rows, when the first one has a number and starts at an offset. -/
def numbered (word : List Char) : Nat → Nat → List (List (Option Char)) → List (Nat × Span)
  | _, _, [] => []
  | line, offset, row :: rest =>
    (holes word offset row).map (line, ·) ++ numbered word (line + 1) (offset + bytes (fill word row) + 1) rest

variable {word : List Char}

@[simp] theorem fill_append (left right : List (Option Char)) :
    fill word (left ++ right) = fill word left ++ fill word right := by
  induction left with
  | nil => rfl
  | cons piece rest ih =>
      cases piece with
      | none => rw [List.cons_append, fill, fill, ih, List.append_assoc]
      | some c => rw [List.cons_append, fill, fill, ih, List.cons_append]

@[simp] theorem fill_map_some (chars : List Char) : fill word (chars.map some) = chars := by
  induction chars with
  | nil => rfl
  | cons c rest ih => rw [List.map_cons, fill, ih]

theorem fill_flatMap {item : Type} (items : List item) (pieces : item → List (Option Char)) :
    fill word (items.flatMap pieces) = items.flatMap fun item => fill word (pieces item) := by
  induction items with
  | nil => rfl
  | cons item rest ih => rw [List.flatMap_cons, fill_append, ih, List.flatMap_cons]

theorem holes_append (offset : Nat) (left right : List (Option Char)) :
    holes word offset (left ++ right) =
      holes word offset left ++ holes word (offset + bytes (fill word left)) right := by
  induction left generalizing offset with
  | nil => rfl
  | cons piece rest ih =>
      cases piece with
      | none => simp [holes, fill, ih, Nat.add_assoc]
      | some c => simp [holes, fill, ih, Nat.add_assoc]

@[simp] theorem holes_map_some (offset : Nat) (chars : List Char) : holes word offset (chars.map some) = [] := by
  induction chars generalizing offset with
  | nil => rfl
  | cons c rest ih => rw [List.map_cons, holes, ih]

theorem mem_holes {offset : Nat} {template : List (Option Char)} {span : Span}
    (member : span ∈ holes word offset template) :
    offset ≤ span.start ∧ span.stop = span.start + bytes word ∧
      span.stop ≤ offset + bytes (fill word template) := by
  induction template generalizing offset with
  | nil => cases member
  | cons piece rest ih =>
      cases piece with
      | none =>
          rw [fill, bytes_append]
          rcases List.mem_cons.mp member with rfl | later
          · refine ⟨Nat.le_refl _, rfl, ?_⟩
            dsimp only
            omega
          · have further := ih later
            exact ⟨by omega, further.2.1, by omega⟩
      | some c =>
          rw [fill, bytes_cons]
          have further := ih member
          exact ⟨by omega, further.2.1, by omega⟩

theorem holes_ordered (offset : Nat) (template : List (Option Char)) :
    (holes word offset template).Pairwise fun left right => left.stop ≤ right.start := by
  induction template generalizing offset with
  | nil => exact List.Pairwise.nil
  | cons piece rest ih =>
      cases piece with
      | none => exact List.pairwise_cons.mpr ⟨fun later member => (mem_holes member).1, ih _⟩
      | some c => exact ih _

theorem exists_mem_holes {offset : Nat} {template : List (Option Char)} :
    (∃ span, span ∈ holes word offset template) ↔ none ∈ template := by
  induction template generalizing offset with
  | nil => simp [holes]
  | cons piece rest ih =>
      cases piece with
      | none => simp [holes]
      | some c => simp [holes, ih]

/-! ### Rows -/

theorem rows_ne_nil (template : List (Option Char)) : rows template ≠ [] := List.splitOn_ne_nil _ _

theorem rows_cons (piece : Option Char) (rest : List (Option Char)) :
    rows (piece :: rest) =
      if piece = some '\n' then [] :: rows rest else (rows rest).modifyHead (piece :: ·) := by
  unfold rows List.splitOn
  rw [List.splitOnP_cons_eq_if_modifyHead]
  simp only [beq_iff_eq]

private theorem splitOn_append {word : List Char} (flat : '\n' ∉ word) (rest : List Char) :
    (word ++ rest).splitOn '\n' = (rest.splitOn '\n').modifyHead (word ++ ·) := by
  induction word with
  | nil =>
      obtain ⟨first, further, shape⟩ := List.exists_cons_of_ne_nil (List.splitOn_ne_nil '\n' rest)
      rw [List.nil_append, shape]
      rfl
  | cons c word ih =>
      have other : c ≠ '\n' := fun same => flat (same ▸ List.mem_cons_self)
      have split := ih fun member => flat (List.mem_cons_of_mem c member)
      rw [List.splitOn] at split ⊢
      rw [List.cons_append, List.splitOnP_cons_eq_if_modifyHead, if_neg (by simpa using other), split,
        List.splitOn, List.modifyHead_modifyHead]
      rfl

/-- The rows of a template, filled with a word without newlines, are the lines of the filled template. -/
theorem splitOn_fill {template : List (Option Char)} (flat : none ∈ template → '\n' ∉ word) :
    (fill word template).splitOn '\n' = (rows template).map (fill word) := by
  induction template with
  | nil => rfl
  | cons piece rest ih =>
      have split := ih fun member => flat (List.mem_cons_of_mem piece member)
      obtain ⟨first, further, shape⟩ := List.exists_cons_of_ne_nil (rows_ne_nil rest)
      rw [rows_cons]
      cases piece with
      | none =>
          rw [fill, splitOn_append (flat List.mem_cons_self), split, shape]
          rfl
      | some c =>
          rw [List.splitOn] at split ⊢
          rw [fill, List.splitOnP_cons_eq_if_modifyHead, split, shape]
          by_cases newline : c = '\n'
          · simp [newline, fill]
          · simp [newline, fill]

theorem numbered_rows (line offset : Nat) (template : List (Option Char)) :
    (numbered word line offset (rows template)).map (·.2) = holes word offset template := by
  induction template generalizing line offset with
  | nil => rfl
  | cons piece rest ih =>
      obtain ⟨first, further, shape⟩ := List.exists_cons_of_ne_nil (rows_ne_nil rest)
      rw [rows_cons]
      cases piece with
      | none =>
          have below := ih line (offset + bytes word)
          rw [shape] at below ⊢
          rw [if_neg (by simp), List.modifyHead_cons, holes, ← below]
          simp [numbered, holes, fill, Nat.add_assoc]
      | some c =>
          by_cases newline : c = '\n'
          · rw [if_pos (congrArg some newline), holes, ← ih (line + 1) (offset + c.utf8Size), newline]
            rfl
          · have below := ih line (offset + c.utf8Size)
            rw [shape] at below ⊢
            rw [if_neg (by simpa using newline), List.modifyHead_cons, holes, ← below]
            simp [numbered, holes, fill, Nat.add_assoc]

def rowsThrough (word : List Char) (before : List (List (Option Char))) : Nat :=
  through (before.map fun row => bytes (fill word row))

/-- A numbered hole lies in the row with its number. -/
theorem mem_numbered {line offset number : Nat} {all : List (List (Option Char))} {span : Span} :
    (number, span) ∈ numbered word line offset all ↔
      ∃ before row after, all = before ++ row :: after ∧ number = line + before.length ∧
        span ∈ holes word (offset + rowsThrough word before) row := by
  induction all generalizing line offset with
  | nil => simp [numbered]
  | cons first rest ih =>
      rw [numbered, List.mem_append, List.mem_map]
      constructor
      · rintro (⟨own, member, same⟩ | later)
        · cases same
          exact ⟨[], first, rest, rfl, rfl, member⟩
        · obtain ⟨before, row, after, shape, counted, member⟩ := ih.mp later
          refine ⟨first :: before, row, after, by rw [shape]; rfl, by rw [counted, List.length_cons]; omega, ?_⟩
          simpa [rowsThrough, Nat.add_assoc] using member
      · rintro ⟨before, row, after, shape, counted, member⟩
        cases before with
        | nil =>
            cases shape
            exact Or.inl ⟨span, member, by rw [counted]; rfl⟩
        | cons head before =>
            cases shape
            refine Or.inr (ih.mpr ⟨before, row, after, rfl, by rw [counted, List.length_cons]; omega, ?_⟩)
            simpa [rowsThrough, Nat.add_assoc] using member

/-- The holes of a template are those of its rows. -/
theorem mem_holes_iff {template : List (Option Char)} {span : Span} :
    span ∈ holes word 0 template ↔ ∃ before row after, rows template = before ++ row :: after ∧
      span ∈ holes word (rowsThrough word before) row := by
  rw [← numbered_rows 1 0 template, List.mem_map]
  constructor
  · rintro ⟨⟨number, _⟩, member, rfl⟩
    obtain ⟨before, row, after, shape, _, inside⟩ := mem_numbered.mp member
    rw [Nat.zero_add] at inside
    exact ⟨before, row, after, shape, inside⟩
  · rintro ⟨before, row, after, shape, inside⟩
    refine ⟨(1 + before.length, span), mem_numbered.mpr ⟨before, row, after, shape, rfl, ?_⟩, rfl⟩
    rw [Nat.zero_add]
    exact inside

/-- The holes with one number are those of one row. -/
theorem filter_numbered (word : List Char) (line offset : Nat) (before : List (List (Option Char)))
    (row : List (Option Char)) (after : List (List (Option Char))) :
    (numbered word line offset (before ++ row :: after)).filter (·.1 == line + before.length) =
      (holes word (offset + rowsThrough word before) row).map (line + before.length, ·) := by
  have other {next start : Nat} {more : List (List (Option Char))} {number : Nat} (past : number < next) :
      (numbered word next start more).filter (·.1 == number) = [] := by
    rw [List.filter_eq_nil_iff]
    rintro ⟨found, span⟩ member same
    obtain ⟨earlier, _, _, _, counted, _⟩ := mem_numbered.mp member
    have equal : found = number := beq_iff_eq.mp same
    omega
  induction before generalizing line offset with
  | nil =>
      rw [List.nil_append, List.length_nil, Nat.add_zero, numbered, List.filter_append,
        other (Nat.lt_succ_self line), List.append_nil, List.filter_eq_self.mpr]
      · rfl
      · simp
  | cons first before ih =>
      have below := ih (line + 1) (offset + bytes (fill word first) + 1)
      have number : line + 1 + before.length = line + (first :: before).length := by
        rw [List.length_cons]
        omega
      have start : offset + bytes (fill word first) + 1 + rowsThrough word before =
          offset + rowsThrough word (first :: before) := by
        simp only [rowsThrough, List.map_cons, through_cons]
        omega
      rw [number, start] at below
      rw [List.cons_append, numbered, List.filter_append, below, List.filter_eq_nil_iff.mpr, List.nil_append]
      simp

/-! ### Rows as lines -/

theorem bytes_fill_rows (word : List Char) (before : List (List (Option Char))) :
    bytes (fill word (before.flatMap (· ++ [some '\n']))) = rowsThrough word before := by
  induction before with
  | nil => rfl
  | cons first before ih =>
      rw [List.flatMap_cons, fill_append, fill_append, bytes_append, bytes_append, ih]
      rfl

theorem template_split (word : List Char) {template row : List (Option Char)} {before after : List (List (Option Char))}
    (shape : rows template = before ++ row :: after) :
    ∃ ahead behind, template = ahead ++ row ++ behind ∧ bytes (fill word ahead) = rowsThrough word before := by
  exact ⟨_, _, append_of_splitOn shape, bytes_fill_rows word before⟩

section Located

variable {template row : List (Option Char)} {before after : List (List (Option Char))}
  (flat : none ∈ template → '\n' ∉ word) (shape : rows template = before ++ row :: after)

include flat

theorem lines_fill :
    lines (String.ofList (fill word template)) = (rows template).map fun row => String.ofList (fill word row) := by
  unfold lines
  rw [String.toList_ofList, splitOn_fill flat, List.map_map]
  rfl

include shape

theorem line_fill :
    (lines (String.ofList (fill word template)))[before.length]? = some (String.ofList (fill word row)) := by
  rw [lines_fill flat, shape]
  simp

theorem lineStart_fill : lineStart (String.ofList (fill word template)) before.length = rowsThrough word before := by
  unfold lineStart
  rw [lines_fill flat, shape, ← List.map_take, List.take_left, List.map_map]
  rfl

variable {span : Span} (member : span ∈ holes word (rowsThrough word before) row)

include member

theorem onLine_of_hole : OnLine (String.ofList (fill word template)) before.length span := by
  obtain ⟨starts, _, stops⟩ := mem_holes member
  refine ⟨_, line_fill flat shape, ?_, ?_⟩
  · rw [lineStart_fill flat shape]
    exact starts
  · rw [lineStart_fill flat shape]
    exact stops

omit flat shape in
theorem column_of_hole : ∃ column, span.start = rowsThrough word before + column ∧
    column ≤ (String.ofList (fill word row)).utf8ByteSize := by
  obtain ⟨starts, sized, stops⟩ := mem_holes member
  refine ⟨span.start - rowsThrough word before, by omega, ?_⟩
  change _ ≤ bytes (fill word row)
  omega

theorem bounds_of_hole : (Lines.ofText (String.ofList (fill word template))).bounds span.start =
    ⟨rowsThrough word before, rowsThrough word before + bytes (fill word row)⟩ := by
  obtain ⟨column, place, inside⟩ := column_of_hole member
  have bounds := Lines.bounds_of_line (line_fill flat shape) inside
  rwa [lineStart_fill flat shape, ← place] at bounds

theorem position_of_hole (fits : span.start + 1 < 2 ^ 32) :
    (Lines.ofText (String.ofList (fill word template))).position span.start =
      ⟨before.length + 1, span.start - rowsThrough word before + 1⟩ := by
  obtain ⟨column, place, inside⟩ := column_of_hole member
  have position := Lines.position_of_line (line_fill flat shape) inside
  have numbered := length_le_through (before.map fun row => bytes (fill word row))
  rw [List.length_map] at numbered
  change before.length ≤ rowsThrough word before at numbered
  rw [lineStart_fill flat shape, ← place, Lines.ordinal_of_lt (by omega), Lines.ordinal_of_lt (by omega)] at position
  rw [position, place, Nat.add_sub_cancel_left]

end Located

end ScopedRename.Template
