import Mathlib.Tactic.SplitIfs

/-!
# The order of texts

Texts are compared character by character, and their bytes are compared byte by byte. Both orders
are the same: of two different characters the one with the smaller number has the smaller bytes, at
the first place where the bytes differ, and there is such a place (`encodeChar_lt`).
-/

namespace TextMacro.Utf8

/-- The bytes of a text, in their order. -/
def bytes (text : String) : List UInt8 := text.toUTF8.data.toList

/-- The bytes of a text are those of its characters. -/
theorem bytes_eq (text : String) : bytes text = text.toList.flatMap String.utf8EncodeChar := by
  have hencode : text.toUTF8 = text.toList.utf8Encode := String.utf8Encode_toList.symm
  unfold bytes
  rw [hencode]
  simp [List.utf8Encode]

/-- Of two bytes that are given by numbers below 256 the smaller number gives the smaller one. -/
theorem ofNat_lt_iff {m n : Nat} (hm : m < 256) (hn : n < 256) :
    UInt8.ofNat m < UInt8.ofNat n ↔ m < n := by
  rw [UInt8.lt_iff_toNat_lt, UInt8.toNat_ofNat', UInt8.toNat_ofNat', Nat.mod_eq_of_lt hm,
    Nat.mod_eq_of_lt hn]

/-- Two bytes that are given by numbers below 256 are the same if the numbers are. -/
theorem ofNat_inj {m n : Nat} (hm : m < 256) (hn : n < 256) :
    UInt8.ofNat m = UInt8.ofNat n ↔ m = n := by
  rw [← UInt8.toNat_inj, UInt8.toNat_ofNat', UInt8.toNat_ofNat', Nat.mod_eq_of_lt hm,
    Nat.mod_eq_of_lt hn]

/-- The digits of the number of a character, four of them. -/
theorem eq_digits {n : Nat} (h : n < 0x110000) :
    n = 262144 * (n / 262144 % 8) + 4096 * (n / 4096 % 64) + 64 * (n / 64 % 64) + n % 64 ∧
      n / 4096 % 64 < 64 ∧ n / 64 % 64 < 64 ∧ n % 64 < 64 := by
  omega

/-- The bytes of a smaller character come before those of a greater one, whatever follows them. -/
theorem encodeChar_lt {c d : Char} (h : c < d) (xs ys : List UInt8) :
    String.utf8EncodeChar c ++ xs < String.utf8EncodeChar d ++ ys := by
  have hval : c.val.toNat < d.val.toNat := h
  have hbound : d.val.toNat < 0x110000 := by
    have := d.valid
    unfold UInt32.isValidChar Nat.isValidChar at this
    omega
  unfold String.utf8EncodeChar
  generalize c.val.toNat = m at hval
  generalize d.val.toNat = n at hval hbound
  dsimp only
  -- Characters of different widths differ in the first byte. In those of one width each byte holds
  -- a digit of the number, the highest first.
  by_cases hwide : 65535 < m
  · rw [if_neg (by omega), if_neg (by omega), if_neg (by omega), if_neg (by omega),
      if_neg (by omega), if_neg (by omega)]
    simp (disch := omega) only [List.cons_append, List.cons_lt_cons_iff, ofNat_lt_iff, ofNat_inj]
    obtain ⟨hm, hm₂, hm₁, hm₀⟩ := eq_digits (Nat.lt_trans hval hbound)
    obtain ⟨hn, hn₂, hn₁, hn₀⟩ := eq_digits hbound
    generalize m / 262144 % 8 = m₃, m / 4096 % 64 = m₂, m / 64 % 64 = m₁, m % 64 = m₀ at *
    generalize n / 262144 % 8 = n₃, n / 4096 % 64 = n₂, n / 64 % 64 = n₁, n % 64 = n₀ at *
    omega
  · split_ifs <;>
      simp (disch := omega) only [List.cons_append, List.cons_lt_cons_iff, ofNat_lt_iff,
        ofNat_inj] <;>
      omega

/-- Characters in ascending order have bytes in ascending order. -/
theorem flatMap_encodeChar_lt {cs ds : List Char} (h : cs < ds) :
    cs.flatMap String.utf8EncodeChar < ds.flatMap String.utf8EncodeChar := by
  induction h with
  | @nil d ds =>
    have hfirst : (String.utf8EncodeChar d).length ≠ 0 := by
      rw [String.length_utf8EncodeChar]
      exact Nat.ne_of_gt d.utf8Size_pos
    rw [List.flatMap_nil, List.flatMap_cons]
    cases hbytes : String.utf8EncodeChar d with
    | nil => exact absurd (congrArg List.length hbytes) hfirst
    | cons byte rest => exact List.nil_lt_cons _ _
  | cons _ ih =>
    rw [List.flatMap_cons, List.flatMap_cons]
    exact List.append_left_lt ih
  | rel hlt =>
    rw [List.flatMap_cons, List.flatMap_cons]
    exact encodeChar_lt hlt _ _

/-- A smaller text has smaller bytes. -/
theorem bytes_lt {s t : String} (h : s < t) : bytes s < bytes t := by
  rw [bytes_eq, bytes_eq]
  exact flatMap_encodeChar_lt (String.lt_iff.mp h)

end TextMacro.Utf8
