import ScopedRename.Text.Bytes

/-!
The bytes of texts. A character below 128 is its own byte and occurs in no other, so cutting the bytes there cuts the
text. Main statement: a text is read back from its bytes.
-/

namespace ScopedRename

namespace Text

def bytes (chars : List Char) : Nat := (String.ofList chars).utf8ByteSize

@[simp] theorem bytes_nil : bytes [] = 0 := rfl

@[simp] theorem bytes_cons (c : Char) (rest : List Char) : bytes (c :: rest) = c.utf8Size + bytes rest := by
  unfold bytes
  rw [String.ofList_cons, String.utf8ByteSize_append, String.utf8ByteSize_singleton]

@[simp] theorem bytes_append (left right : List Char) : bytes (left ++ right) = bytes left + bytes right := by
  unfold bytes
  rw [String.ofList_append, String.utf8ByteSize_append]

@[simp] theorem bytes_toList (text : String) : bytes text.toList = text.utf8ByteSize := by
  unfold bytes
  rw [String.ofList_toList]

def utf8 (chars : List Char) : List UInt8 := chars.flatMap String.utf8EncodeChar

theorem utf8_cons (c : Char) (rest : List Char) : utf8 (c :: rest) = String.utf8EncodeChar c ++ utf8 rest := rfl

@[simp] theorem utf8_append (left right : List Char) : utf8 (left ++ right) = utf8 left ++ utf8 right :=
  List.flatMap_append

@[simp] theorem length_utf8 (chars : List Char) : (utf8 chars).length = bytes chars := by
  induction chars with
  | nil => rfl
  | cons c rest ih =>
      rw [bytes_cons, ← ih, ← String.length_utf8EncodeChar]
      exact List.length_append

theorem toByteArray_utf8 (chars : List Char) : (utf8 chars).toByteArray = chars.utf8Encode := rfl

theorem encode_eq (text : String) : encode text = utf8 text.toList := by
  have encoded : text.toUTF8 = text.toList.utf8Encode := by
    rw [← String.toByteArray_ofList, String.ofList_toList]
    rfl
  unfold encode utf8
  rw [encoded, List.utf8Encode, List.data_toByteArray]

/-! ### Cutting -/

/-- A piece of a cut list stands between those before it and those after it, each with a separator. -/
theorem append_of_splitOn {α : Type} [BEq α] [LawfulBEq α] {separator : α} {items row : List α}
    {before after : List (List α)} (shape : items.splitOn separator = before ++ row :: after) :
    items = before.flatMap (· ++ [separator]) ++ row ++ after.flatMap (separator :: ·) := by
  have joined : items = [separator].intercalate (before ++ row :: after) := by
    rw [← shape]
    exact (List.intercalate_splitOn separator).symm
  have behind : [separator].intercalate (row :: after) = row ++ after.flatMap (separator :: ·) := by
    clear shape joined
    induction after generalizing row with
    | nil => simp
    | cons next further ih => rw [List.intercalate_cons_cons, ih, List.flatMap_cons, List.append_assoc]; rfl
  rw [joined]
  clear shape joined
  induction before with
  | nil => exact behind
  | cons first before ih =>
      rw [List.cons_append, List.intercalate_cons_of_ne_nil (by simp), ih, List.flatMap_cons]
      simp only [List.append_assoc]

theorem not_mem_of_mem_splitOn {α : Type} [BEq α] [LawfulBEq α] {separator : α} {items row : List α}
    (piece : row ∈ items.splitOn separator) : separator ∉ row := by
  induction items generalizing row with
  | nil =>
      rw [List.splitOn_nil, List.mem_singleton] at piece
      rw [piece]
      exact List.not_mem_nil
  | cons first rest ih =>
      obtain ⟨next, further, shape⟩ := List.exists_cons_of_ne_nil (List.splitOn_ne_nil separator rest)
      rw [List.splitOn, List.splitOnP_cons_eq_if_modifyHead, ← List.splitOn, shape] at piece
      rw [shape] at ih
      by_cases cut : (first == separator) = true
      · rw [if_pos cut] at piece
        rcases List.mem_cons.mp piece with rfl | later
        · exact List.not_mem_nil
        · exact ih later
      · rw [if_neg cut, List.modifyHead_cons] at piece
        rcases List.mem_cons.mp piece with rfl | later
        · intro among
          rcases List.mem_cons.mp among with same | inside
          · exact cut (beq_iff_eq.mpr same.symm)
          · exact ih List.mem_cons_self inside
        · exact ih (List.mem_cons_of_mem _ later)

/-! ### Small characters -/

/-- Only the character with this code is encoded with it: the bytes of a longer code are 128 or more. -/
theorem count_utf8EncodeChar (byte : Nat) (small : byte < 128) (c : Char) :
    (String.utf8EncodeChar c).count (UInt8.ofNat byte) = if c.toNat = byte then 1 else 0 := by
  have same {value : Nat} (fits : value < 256) : UInt8.ofNat value = UInt8.ofNat byte ↔ value = byte := by
    rw [← UInt8.toNat_inj, UInt8.toNat_ofNat_of_lt' fits,
      UInt8.toNat_ofNat_of_lt' (show byte < UInt8.size by have : UInt8.size = 256 := rfl; omega)]
  have code : c.toNat = c.val.toNat := rfl
  simp only [String.utf8EncodeChar, code]
  generalize c.val.toNat = value
  split
  · simp (disch := omega) only [List.count_cons, List.count_nil, beq_iff_eq, same, Nat.zero_add]
  · have other : value ≠ byte := by omega
    rw [if_neg other]
    split
    · simp (disch := omega) only [List.count_cons, List.count_nil, beq_iff_eq, same, if_neg]
    · split
      · simp (disch := omega) only [List.count_cons, List.count_nil, beq_iff_eq, same, if_neg]
      · simp (disch := omega) only [List.count_cons, List.count_nil, beq_iff_eq, same, if_neg]

/-- A piece without the separator goes on to the first cut of what follows. -/
theorem splitOn_append_of_not_mem {separator : UInt8} {piece : List UInt8} (absent : separator ∉ piece)
    (rest : List UInt8) :
    (piece ++ rest).splitOn separator = (rest.splitOn separator).modifyHead (piece ++ ·) := by
  induction piece with
  | nil =>
      obtain ⟨head, tail, shape⟩ := List.exists_cons_of_ne_nil (List.splitOn_ne_nil separator rest)
      rw [List.nil_append, shape]
      rfl
  | cons first piece ih =>
      have other : first ≠ separator := fun same => absent (same ▸ List.mem_cons_self)
      have later : separator ∉ piece := fun inside => absent (List.mem_cons_of_mem _ inside)
      obtain ⟨head, tail, shape⟩ := List.exists_cons_of_ne_nil (List.splitOn_ne_nil separator rest)
      have kept : (first == separator) = false := beq_eq_false_iff_ne.mpr other
      rw [List.cons_append, List.splitOn_cons_eq_if_modifyHead, kept, ih later, shape]
      rfl

/-- Cutting the bytes of a text at a small character cuts the text there. -/
theorem splitOn_utf8 (separator : Char) (small : separator.toNat < 128) (chars : List Char) :
    (utf8 chars).splitOn (UInt8.ofNat separator.toNat) = (chars.splitOn separator).map utf8 := by
  induction chars with
  | nil => rfl
  | cons c rest ih =>
      obtain ⟨head, tail, shape⟩ := List.exists_cons_of_ne_nil (List.splitOn_ne_nil separator rest)
      rw [utf8_cons, List.splitOn_cons_eq_if_modifyHead]
      by_cases cut : c = separator
      · subst cut
        have single : String.utf8EncodeChar c = [UInt8.ofNat c.toNat] := by
          have short : c.val.toNat ≤ 0x7F := Nat.le_of_lt_succ small
          simp only [String.utf8EncodeChar, if_pos short]
          rfl
        rw [single, if_pos (beq_iff_eq.mpr rfl), List.singleton_append, List.splitOn_cons_eq_if_modifyHead,
          if_pos (beq_iff_eq.mpr rfl), ih]
        rfl
      · have absent : UInt8.ofNat separator.toNat ∉ String.utf8EncodeChar c := by
          rw [← List.count_eq_zero, count_utf8EncodeChar _ small, if_neg]
          exact fun same => cut (Char.toNat_inj.mp same)
        rw [splitOn_append_of_not_mem absent, ih, if_neg (by simpa using cut), shape]
        rfl

/-! ### Reading bytes -/

theorem decodeFrom_covered (piece rest : List UInt8) :
    decodeFrom piece.length (piece ++ rest) = decodeFrom 0 rest := by
  induction piece with
  | nil => rfl
  | cons first piece ih => exact ih

theorem decodeFrom_utf8 (chars : List Char) : decodeFrom 0 (utf8 chars) = chars := by
  induction chars with
  | nil => rfl
  | cons c rest ih =>
      have length := String.length_utf8EncodeChar c
      have reads : (utf8 (c :: rest)).toByteArray.utf8DecodeChar? 0 = some c := by
        rw [toByteArray_utf8]
        exact List.utf8DecodeChar?_utf8Encode_cons
      rw [utf8_cons] at reads ⊢
      cases code : String.utf8EncodeChar c with
      | nil =>
          rw [code] at length
          exact absurd length (Nat.ne_of_lt (Char.utf8Size_pos c))
      | cons first further =>
          rw [code] at reads length
          rw [List.cons_append] at reads ⊢
          unfold decodeFrom
          have behind : c.utf8Size - 1 = further.length := by
            rw [← length]
            rfl
          rw [reads]
          dsimp only
          rw [behind, decodeFrom_covered, ih]

theorem decode_encode (text : String) : decode (encode text) = text := by
  unfold decode
  rw [encode_eq, decodeFrom_utf8, String.ofList_toList]

end Text

end ScopedRename
