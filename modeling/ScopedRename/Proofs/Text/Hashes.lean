import ScopedRename.Proofs.Text.Lines
import ScopedRename.Text.Digest

/-!
Shortening a hash. A digest is made of hexadecimal digits and can be cut anywhere; a hash that a caller made up can be
cut at its twelfth byte exactly if no character lies across it.
-/

namespace ScopedRename

namespace Text

/-- Some character of the text starts before the offset and ends behind it. -/
def Straddles (chars : List Char) (offset : Nat) : Prop :=
  ∃ before c after, chars = before ++ c :: after ∧ bytes before < offset ∧ offset < bytes before + c.utf8Size

variable {chars rest : List Char} {offset : Nat}

theorem straddles_cons {c : Char} (passed : c.utf8Size ≤ offset) :
    Straddles (c :: rest) offset ↔ Straddles rest (offset - c.utf8Size) := by
  constructor
  · rintro ⟨before, d, after, whole, starts, ends⟩
    cases before with
    | nil =>
        cases whole
        simp only [bytes_nil] at ends
        omega
    | cons first before =>
        cases whole
        simp only [bytes_cons] at starts ends
        exact ⟨before, d, after, rfl, by omega, by omega⟩
  · rintro ⟨before, d, after, rfl, starts, ends⟩
    refine ⟨c :: before, d, after, rfl, ?_, ?_⟩
    · rw [bytes_cons]
      omega
    · rw [bytes_cons]
      omega

/-- Inside the text, cutting fails only within a character. -/
theorem splitAtByte_eq_none_iff (inside : offset ≤ bytes chars) :
    splitAtByte chars offset = none ↔ Straddles chars offset := by
  induction chars generalizing offset with
  | nil =>
      obtain rfl : offset = 0 := Nat.le_zero.mp inside
      simp [splitAtByte, Straddles]
  | cons c rest ih =>
      cases offset with
      | zero => simp [splitAtByte, Straddles]
      | succ offset =>
          rw [splitAtByte]
          by_cases passed : c.utf8Size ≤ offset + 1
          · rw [if_pos passed, Option.map_eq_none_iff, straddles_cons passed]
            refine ih ?_
            rw [bytes_cons] at inside
            omega
          · rw [if_neg passed]
            refine iff_of_true rfl ⟨[], c, rest, rfl, Nat.succ_pos offset, ?_⟩
            rw [bytes_nil]
            omega

theorem not_straddles_of_single (single : ∀ c ∈ chars, c.utf8Size = 1) : ¬Straddles chars offset := by
  rintro ⟨before, c, after, rfl, starts, ends⟩
  rw [single c (by simp)] at ends
  omega

end Text

namespace Digest

theorem hexDigit_utf8Size {value : UInt32} (small : value.toNat < 16) : (hexDigit value).utf8Size = 1 := by
  have digits : ∀ value < 16, ((Nat.toDigits 16 value).headD '0').utf8Size = 1 := by decide
  exact digits value.toNat small

theorem hex_utf8Size (message : ByteArray) : ∀ c ∈ (hex message).toList, c.utf8Size = 1 := by
  intro c member
  unfold hex at member
  rw [String.toList_ofList] at member
  obtain ⟨word, _, inWord⟩ := List.mem_flatMap.mp member
  obtain ⟨i, _, rfl⟩ := List.mem_map.mp inWord
  refine hexDigit_utf8Size ?_
  have masked := Nat.and_le_right (n := (word >>> UInt32.ofNat (4 * (7 - i))).toNat) (m := 0xf)
  rw [UInt32.toNat_and]
  exact Nat.lt_succ_of_le masked

end Digest

namespace ContentHash

/-- A character of the hash lies across its twelfth byte. -/
def Straddles (hash : ContentHash) : Prop := Text.Straddles hash.hex.toList 12

theorem short?_eq_none_iff {hash : ContentHash} : hash.short? = none ↔ hash.Straddles := by
  unfold short?
  rw [Option.map_eq_none_iff, ← Text.bytes_toList, Text.splitAtByte_eq_none_iff (Nat.min_le_left _ _)]
  rcases Nat.le_total 12 (Text.bytes hash.hex.toList) with long | brief
  · rw [Nat.min_eq_right long]
    rfl
  · -- a short text is not cut at all, and no character of it reaches the twelfth byte
    rw [Nat.min_eq_left brief]
    refine iff_of_false ?_ ?_
    · rintro ⟨before, c, after, whole, _, ends⟩
      rw [whole] at ends
      simp only [Text.bytes_append, Text.bytes_cons] at ends
      omega
    · rintro ⟨before, c, after, whole, _, ends⟩
      rw [whole] at brief
      simp only [Text.bytes_append, Text.bytes_cons] at brief
      omega

theorem exists_short?_ofText (source : String) : ∃ shortened, (ofText source).short? = some shortened := by
  refine Option.ne_none_iff_exists'.mp fun uncut => ?_
  exact Text.not_straddles_of_single (Digest.hex_utf8Size _) (short?_eq_none_iff.mp uncut)

end ContentHash

end ScopedRename
