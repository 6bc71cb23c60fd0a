import IncludeClosure.Text.Utf8
/-!
# Proofs.Text.Utf8 — ASCII characters among the bytes of a text

A text is written character by character, and only an ASCII character has a byte below 128.  So an ASCII byte stands
among the bytes of a text exactly when its character stands in the text (`toUInt8_mem_utf8Bytes`).
-/
namespace IncludeClosure
namespace Text

theorem utf8Bytes_eq_flatMap (text : String) : utf8Bytes text = text.toList.flatMap String.utf8EncodeChar := by
  unfold utf8Bytes
  rw [← String.utf8Encode_toList]
  exact List.toList_data_toByteArray

theorem utf8Bytes_append (a b : String) : utf8Bytes (a ++ b) = utf8Bytes a ++ utf8Bytes b := by
  simp [utf8Bytes_eq_flatMap]

theorem utf8Bytes_eq_nil {text : String} : utf8Bytes text = [] ↔ text = "" := by
  constructor
  · intro h
    have read := ofUtf8?_utf8Bytes text
    rw [h, show ([] : Bytes) = utf8Bytes "" by decide, ofUtf8?_utf8Bytes] at read
    exact (Option.some.inj read).symm
  · rintro rfl
    decide

theorem utf8EncodeChar_ascii {c : Char} (ascii : c.toNat < 128) : String.utf8EncodeChar c = [c.toUInt8] := by
  have size : c.utf8Size = 1 := Char.utf8Size_eq_one_iff.2 (Nat.le_of_lt_succ ascii)
  exact String.utf8EncodeChar_eq_singleton size

/-- The bytes of a character that is not ASCII all have their highest bit set. -/
theorem le_of_mem_utf8EncodeChar {c : Char} (wide : 128 ≤ c.toNat) {b : UInt8} (hb : b ∈ String.utf8EncodeChar c) :
    128 ≤ b.toNat := by
  have hc : ¬ c.val.toNat ≤ 127 := Nat.not_le.2 wide
  simp only [String.utf8EncodeChar, hc, if_false] at hb
  split at hb
  · simp only [List.mem_cons, List.not_mem_nil, or_false] at hb
    rcases hb with rfl | rfl <;> simp only [UInt8.toNat_ofNat'] <;> omega
  · split at hb
    · simp only [List.mem_cons, List.not_mem_nil, or_false] at hb
      rcases hb with rfl | rfl | rfl <;> simp only [UInt8.toNat_ofNat'] <;> omega
    · simp only [List.mem_cons, List.not_mem_nil, or_false] at hb
      rcases hb with rfl | rfl | rfl | rfl <;> simp only [UInt8.toNat_ofNat'] <;> omega

theorem toNat_toUInt8 {c : Char} (ascii : c.toNat < 128) : c.toUInt8.toNat = c.toNat := by
  have h : c.toUInt8.toNat = c.toNat % 256 := UInt32.toNat_toUInt8 c.val
  omega

/-- **An ASCII character stands in a text exactly when its byte stands among the bytes of the text.** -/
theorem toUInt8_mem_utf8Bytes {c : Char} (ascii : c.toNat < 128) {text : String} :
    c.toUInt8 ∈ utf8Bytes text ↔ c ∈ text.toList := by
  rw [utf8Bytes_eq_flatMap, List.mem_flatMap]
  constructor
  · rintro ⟨d, hd, hb⟩
    by_cases narrow : d.toNat < 128
    · rw [utf8EncodeChar_ascii narrow, List.mem_singleton] at hb
      have value : c.toNat = d.toNat := by rw [← toNat_toUInt8 ascii, hb, toNat_toUInt8 narrow]
      have same : c = d := Char.ext (UInt32.toNat_inj.1 value)
      rw [same]
      exact hd
    · have high := le_of_mem_utf8EncodeChar (Nat.not_lt.1 narrow) hb
      rw [toNat_toUInt8 ascii] at high
      omega
  · intro hc
    exact ⟨c, hc, by rw [utf8EncodeChar_ascii ascii]; exact List.mem_singleton_self _⟩

end Text
end IncludeClosure
