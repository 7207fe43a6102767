import TextMacro.Text.Utf8

/-!
# Characters and their bytes

A character is read off the number of bytes that its first byte announces. Nothing is lost by that:
`charAt?` finds a character at a place exactly where the bytes from there on begin with those of the
character, whatever follows (`charAt?_eq`). Bytes too few, too many for their character, out of
range or of half a pair are not the bytes of any character, so they need no case of their own.
-/

namespace TextMacro.Utf8

variable {b : ByteArray} {pos : Nat} {c : Char}

/-! ## The width of a character -/

/-- The widths of characters by the number of their first byte. -/
theorem leadWidth?_ofNat {n : Nat} (h : n < 256) : leadWidth? (UInt8.ofNat n)
    = if n ≤ 0x7F then some 1
      else if 0xC2 ≤ n ∧ n ≤ 0xDF then some 2
      else if 0xE0 ≤ n ∧ n ≤ 0xEF then some 3
      else if 0xF0 ≤ n ∧ n ≤ 0xF4 then some 4
      else none := by
  have hn : (UInt8.ofNat n).toNat = n := by
    rw [UInt8.toNat_ofNat']
    exact Nat.mod_eq_of_lt h
  simp [leadWidth?, UInt8.le_iff_toNat_le, hn]

/-- A small byte announces no other. -/
theorem leadWidth?_of_lt {lead : UInt8} (h : lead < 0x80) : leadWidth? lead = some 1 := by
  have hle : lead ≤ 0x7F := by
    rw [UInt8.lt_iff_toNat_lt] at h
    exact UInt8.le_iff_toNat_le.mpr (Nat.le_of_lt_succ h)
  unfold leadWidth?
  rw [if_pos hle]

/-- A width that is announced is that of some character. -/
theorem leadWidth?_pos {lead : UInt8} {width : Nat} (h : leadWidth? lead = some width) :
    0 < width := by
  unfold leadWidth? at h
  grind

/-- The first byte of a character tells how many it has. -/
theorem leadWidth?_utf8EncodeChar (c : Char) (h : 0 < (String.utf8EncodeChar c).length) :
    leadWidth? (String.utf8EncodeChar c)[0] = some c.utf8Size := by
  have hcode : c.val.toNat < 0x110000 := by
    have hvalid := c.valid
    unfold UInt32.isValidChar Nat.isValidChar at hvalid
    omega
  have hlength := String.length_utf8EncodeChar c
  unfold String.utf8EncodeChar at hlength ⊢
  dsimp only at hlength ⊢
  -- The first byte and the number of bytes depend on how large the code of the character is.
  split at hlength
  · rename_i hone
    have hlead := leadWidth?_ofNat (n := c.val.toNat) (by omega)
    simp only [if_pos hone, List.getElem_cons_zero, hlead, ← hlength, List.length_cons,
      List.length_nil]
  · rename_i hone
    split at hlength
    · rename_i htwo
      have hlead := leadWidth?_ofNat (n := c.val.toNat / 64 % 32 + 192) (by omega)
      simp only [if_neg hone, if_pos htwo, List.getElem_cons_zero, hlead, ← hlength,
        List.length_cons, List.length_nil]
      rw [if_neg (by omega), if_pos (by omega)]
    · rename_i htwo
      split at hlength
      · rename_i hthree
        have hlead := leadWidth?_ofNat (n := c.val.toNat / 4096 % 16 + 224) (by omega)
        simp only [if_neg hone, if_neg htwo, if_pos hthree, List.getElem_cons_zero, hlead,
          ← hlength, List.length_cons, List.length_nil]
        rw [if_neg (by omega), if_neg (by omega), if_pos (by omega)]
      · rename_i hthree
        have hlead := leadWidth?_ofNat (n := c.val.toNat / 262144 % 8 + 240) (by omega)
        simp only [if_neg hone, if_neg htwo, if_neg hthree, List.getElem_cons_zero, hlead,
          ← hlength, List.length_cons, List.length_nil]
        rw [if_neg (by omega), if_neg (by omega), if_neg (by omega), if_pos (by omega)]

/-- A small byte is a character by itself. -/
theorem utf8Encode_ofUInt8 {lead : UInt8} (h : lead < 0x80) :
    [Char.ofUInt8 lead].utf8Encode = [lead].toByteArray := by
  have hwidth : (Char.ofUInt8 lead).utf8Size = 1 := by
    rw [Char.utf8Size_eq_one_iff, UInt32.le_iff_toNat_le]
    have hlt := UInt8.lt_iff_toNat_lt.mp h
    have hval : (Char.ofUInt8 lead).val.toNat = lead.toNat := UInt8.toNat_toUInt32 lead
    rw [hval]
    exact Nat.le_of_lt_succ hlt
  have hbyte : (Char.ofUInt8 lead).val.toUInt8 = lead := UInt8.toUInt8_toUInt32 lead
  rw [List.utf8Encode_singleton, String.utf8EncodeChar_eq_singleton hwidth, hbyte]

/-! ## The bytes of a character -/

/-- A character is decoded where bytes of a text stand that it begins. -/
theorem decode_of_extract (stop : Nat) {cs : List Char} (hle : pos ≤ stop) (hstop : stop ≤ b.size)
    (h : b.extract pos stop = (c :: cs).utf8Encode) : b.utf8DecodeChar? pos = some c := by
  rw [ByteArray.utf8DecodeChar?_eq_utf8DecodeChar?_extract,
    ByteArray.extract_eq_extract_append_extract stop hle hstop, h]
  exact ByteArray.utf8DecodeChar?_append_eq_some List.utf8DecodeChar?_utf8Encode_cons _

/-- The bytes of a character that is decoded stand where it is decoded. -/
theorem extract_of_decode (h : b.utf8DecodeChar? pos = some c) :
    b.extract pos (pos + c.utf8Size) = [c].utf8Encode := by
  have hle := ByteArray.le_size_of_utf8DecodeChar?_eq_some h
  rw [ByteArray.utf8DecodeChar?_eq_utf8DecodeChar?_extract] at h
  have hbytes := String.toByteArray_utf8EncodeChar_of_utf8DecodeChar?_eq_some h
  rw [ByteArray.extract_extract, Nat.add_zero, Nat.min_eq_left hle] at hbytes
  rw [List.utf8Encode_singleton, hbytes]

/-- The first byte of a character that is decoded announces its width. -/
theorem leadWidth?_of_decode (h : b.utf8DecodeChar? pos = some c) (hlt : pos < b.size) :
    leadWidth? b[pos] = some c.utf8Size := by
  have hpos := c.utf8Size_pos
  have hlength : 0 < (String.utf8EncodeChar c).length := by
    rw [String.length_utf8EncodeChar]
    exact hpos
  have hlead : b[pos] = (String.utf8EncodeChar c)[0] := by
    have hsize : 0 < (b.extract pos (pos + c.utf8Size)).size := by
      rw [ByteArray.size_extract]
      omega
    have hget : (b.extract pos (pos + c.utf8Size))[0] = b[pos] := by
      simp only [ByteArray.getElem_extract, Nat.add_zero]
    rw [← hget]
    simp only [extract_of_decode h, List.utf8Encode_singleton, List.getElem_toByteArray]
  rw [hlead]
  exact leadWidth?_utf8EncodeChar c hlength

/-- The first character of bytes is the one that begins the text they spell. -/
theorem firstChar?_eq_some_iff : firstChar? b = some c ↔ ∃ cs, b = (c :: cs).utf8Encode := by
  unfold firstChar? String.fromUTF8?
  constructor
  · intro h
    obtain ⟨text, htext, hhead⟩ := Option.bind_eq_some_iff.mp h
    obtain ⟨cs, hcs⟩ := List.head?_eq_some_iff.mp hhead
    split at htext
    · rename_i hvalid
      obtain rfl : String.fromUTF8 b hvalid = text := by simpa using htext
      refine ⟨cs, ?_⟩
      rw [← hcs, String.utf8Encode_toList]
      rfl
    · simp at htext
  · rintro ⟨cs, rfl⟩
    rw [dif_pos ByteArray.isValidUTF8_utf8Encode]
    have htext : String.fromUTF8 (c :: cs).utf8Encode ByteArray.isValidUTF8_utf8Encode
        = String.ofList (c :: cs) := rfl
    rw [htext, Option.bind_some, String.toList_ofList, List.head?_cons]

/-! ## Reading a character -/

/-- The character at a place inside the bytes. -/
theorem charAt?_of_lt (hlt : pos < b.size) : charAt? b pos
    = if b[pos] < 0x80 then some (Char.ofUInt8 b[pos])
      else (leadWidth? b[pos]).bind fun width =>
        if pos + width ≤ b.size then firstChar? (b.extract pos (pos + width)) else none := by
  unfold charAt?
  rw [getElem?_pos b pos hlt, Option.bind_some]

/-- What is found at a place is decoded there. -/
theorem decode_of_charAt? (h : charAt? b pos = some c) : b.utf8DecodeChar? pos = some c := by
  have hlt : pos < b.size := by
    obtain ⟨lead, hlead, -⟩ := Option.bind_eq_some_iff.mp h
    exact (getElem?_eq_some_iff.mp hlead).1
  rw [charAt?_of_lt hlt] at h
  split at h
  · rename_i hsmall
    obtain rfl : Char.ofUInt8 b[pos] = c := by simpa using h
    apply decode_of_extract (pos + 1) (by omega) (by omega)
    rw [utf8Encode_ofUInt8 hsmall, ByteArray.extract_add_one hlt]
  · obtain ⟨width, -, h⟩ := Option.bind_eq_some_iff.mp h
    split at h
    · rename_i hle
      obtain ⟨cs, hcs⟩ := firstChar?_eq_some_iff.mp h
      exact decode_of_extract (pos + width) (Nat.le_add_right _ _) hle hcs
    · simp at h

/-- What is decoded at a place is found there. -/
theorem charAt?_of_decode (h : b.utf8DecodeChar? pos = some c) : charAt? b pos = some c := by
  have hlt := lt_size_of_decode h
  have hwidth := leadWidth?_of_decode h hlt
  have hbytes := extract_of_decode h
  by_cases hsmall : b[pos] < 0x80
  · -- The byte is the whole character, and it has no other.
    have hfound : charAt? b pos = some (Char.ofUInt8 b[pos]) := by
      rw [charAt?_of_lt hlt, if_pos hsmall]
    have hdecode := decode_of_charAt? hfound
    rw [hfound, ← hdecode, h]
  · rw [charAt?_of_lt hlt, if_neg hsmall, hwidth, Option.bind_some,
      if_pos (ByteArray.le_size_of_utf8DecodeChar?_eq_some h), hbytes]
    exact firstChar?_eq_some_iff.mpr ⟨[], rfl⟩

/-- The character at a place is the one that the bytes from there on begin with. -/
theorem charAt?_eq (b : ByteArray) (pos : Nat) : charAt? b pos = b.utf8DecodeChar? pos := by
  apply Option.ext
  intro c
  exact ⟨decode_of_charAt?, charAt?_of_decode⟩

end TextMacro.Utf8
