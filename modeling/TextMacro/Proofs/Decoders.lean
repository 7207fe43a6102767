import TextMacro.Proofs.Codec
import TextMacro.Stream

/-!
# Three readings of the same bytes

Bytes are read as text in three places: unit by unit where a body is stepped through (`decodeAt`),
all at once where a text is wanted of it (`toText`), and byte by byte where a stream is read
(`readRaw`). All three accept the same characters and stop at the same place (`decoders_agree`).

The characters that stepping finds, with the place where it finds no more, are `leadingChars`. One
step of it goes by the character that the bytes begin with, and by nothing else
(`leadingChars_of_decode`, `leadingChars_of_damage`): a mark begins with a byte that no character
has, so it is damage like any other. The end that `toText` reports takes the same steps
(`validUpTo_eq`), and so does a stream, although it asks for the bytes of a character one at a time
and finds out only with the last whether they are one (`readRaw_of_decode`, `readRaw_of_damage`).
-/

namespace TextMacro

variable {b : ByteArray} {pos : Nat} {c : Char}

namespace TextUnit

/-! ## The characters that bytes begin with -/

/-- The characters that stepping with `decodeAt` finds from `pos` on, up to the end or to the first
place that holds a mark or no unit; that place, if there is one. -/
def leadingChars (b : ByteArray) (pos : Nat) : List Char × Option Nat :=
  match _h : decodeAt b pos with
  | .error _ => ([], some pos)
  | .ok none => ([], none)
  | .ok (some (.char c)) =>
    let (cs, stop) := leadingChars b (pos + c.utf8Size)
    (c :: cs, stop)
  | .ok (some _) => ([], some pos)
termination_by b.size - pos
decreasing_by exact size_sub_lt_of_decodeAt _h

/-- A character is the unit exactly where bytes begin with those of the character. -/
theorem decodeAt_eq_char_iff :
    decodeAt b pos = .ok (some (char c)) ↔ b.utf8DecodeChar? pos = some c := by
  constructor
  · intro h
    have hlt := lt_size_of_decodeAt h
    unfold decodeAt at h
    rw [dif_pos hlt] at h
    split at h
    · split at h
      · rename_i mark hmark
        obtain rfl : mark = char c := by simpa using h
        -- A tag stands for a mark, never for a character.
        obtain ⟨tag, -, htag⟩ := Option.bind_eq_some_iff.mp hmark
        exact absurd (isMark_of_ofTag? htag) Bool.false_ne_true
      · simp at h
    · split at h
      · rename_i d hd
        obtain rfl : d = c := by simpa using h
        exact Utf8.decode_of_charAt? hd
      · simp at h
  · intro h
    have hlt := Utf8.lt_size_of_decode h
    have hlead : b[pos] ≠ markLead := by
      intro heq
      have hwidth := Utf8.leadWidth?_of_decode h hlt
      have hnone : Utf8.leadWidth? markLead = none := by decide
      rw [heq, hnone] at hwidth
      simp at hwidth
    unfold decodeAt
    rw [dif_pos hlt, if_neg hlead, Utf8.charAt?_of_decode h]

/-- Stepping over a character. -/
theorem leadingChars_of_decode (h : b.utf8DecodeChar? pos = some c) :
    leadingChars b pos = (c :: (leadingChars b (pos + c.utf8Size)).1,
      (leadingChars b (pos + c.utf8Size)).2) := by
  rw [← decodeAt_eq_char_iff] at h
  rw [leadingChars]
  split
  · simp_all
  · simp_all
  · rename_i d hd
    obtain rfl : d = c := by simpa [h] using hd.symm
    rfl
  · simp_all

/-- Stepping to the end. -/
theorem leadingChars_of_size_le (h : b.size ≤ pos) : leadingChars b pos = ([], none) := by
  have hend := decodeAt_of_size_le h
  rw [leadingChars]
  split
  · simp_all
  · rfl
  · simp_all
  · simp_all

/-- Stepping stops where bytes begin with no character. -/
theorem leadingChars_of_damage (hlt : pos < b.size) (h : b.utf8DecodeChar? pos = none) :
    leadingChars b pos = ([], some pos) := by
  rw [leadingChars]
  split
  · rfl
  · rename_i hend
    have hle := size_le_of_decodeAt hend
    omega
  · rename_i d hd
    rw [decodeAt_eq_char_iff.mp hd] at h
    simp at h
  · rfl

/-- Stepping passes over the bytes of characters, whatever stands behind them. -/
theorem leadingChars_behind (before rest : ByteArray) (cs : List Char) :
    leadingChars (before ++ (cs.utf8Encode ++ rest)) before.size
      = (cs ++ (leadingChars (before ++ (cs.utf8Encode ++ rest))
            (before.size + cs.utf8Encode.size)).1,
          (leadingChars (before ++ (cs.utf8Encode ++ rest))
            (before.size + cs.utf8Encode.size)).2) := by
  induction cs generalizing before with
  | nil => simp
  | cons c cs ih =>
    -- The first character counts as one of the bytes before the others.
    have hbytes : before ++ ((c :: cs).utf8Encode ++ rest)
        = (before ++ (String.utf8EncodeChar c).toByteArray) ++ (cs.utf8Encode ++ rest) := by
      rw [utf8Encode_cons_eq, ByteArray.append_assoc, ByteArray.append_assoc]
    have hwidth : before.size + c.utf8Size
        = (before ++ (String.utf8EncodeChar c).toByteArray).size := by
      rw [ByteArray.size_append, List.size_toByteArray, String.length_utf8EncodeChar]
    have hsize : before.size + (c :: cs).utf8Encode.size
        = (before ++ (String.utf8EncodeChar c).toByteArray).size + cs.utf8Encode.size := by
      rw [utf8Encode_cons_eq, ByteArray.size_append, ByteArray.size_append, Nat.add_assoc]
    have hchar : (before ++ ((c :: cs).utf8Encode ++ rest)).utf8DecodeChar? before.size
        = some c := by
      rw [utf8Encode_cons_eq, ByteArray.append_assoc]
      exact utf8DecodeChar?_append before _ c
    rw [leadingChars_of_decode hchar, hwidth, hsize, hbytes, ih, List.cons_append]

/-- Stepping through a text finds its characters. -/
theorem leadingChars_utf8Encode (cs : List Char) :
    leadingChars cs.utf8Encode 0 = (cs, none) := by
  have h := leadingChars_behind ByteArray.empty ByteArray.empty cs
  rw [ByteArray.append_empty, ByteArray.empty_append, ByteArray.size_empty, Nat.zero_add,
    leadingChars_of_size_le (Nat.le_refl _), List.append_nil] at h
  exact h

/-- A character that stepping finds is there, and stepping goes on behind it. -/
theorem leadingChars_eq_cons_iff {cs : List Char} {stop : Option Nat} :
    leadingChars b pos = (c :: cs, stop) ↔
      b.utf8DecodeChar? pos = some c ∧ leadingChars b (pos + c.utf8Size) = (cs, stop) := by
  constructor
  · intro h
    cases hd : b.utf8DecodeChar? pos with
    | some d =>
      rw [leadingChars_of_decode hd] at h
      obtain ⟨⟨rfl, hcs⟩, hstop⟩ : (d = c ∧ (leadingChars b (pos + d.utf8Size)).1 = cs) ∧
          (leadingChars b (pos + d.utf8Size)).2 = stop := by
        simpa using h
      exact ⟨rfl, Prod.ext hcs hstop⟩
    | none =>
      rcases Nat.lt_or_ge pos b.size with hlt | hge
      · rw [leadingChars_of_damage hlt hd] at h
        simp at h
      · rw [leadingChars_of_size_le hge] at h
        simp at h
  · rintro ⟨hd, hrest⟩
    rw [leadingChars_of_decode hd, hrest]

/-- Where stepping finds no character it is at the end or at damage. -/
theorem leadingChars_nil {stop : Option Nat} (h : leadingChars b pos = ([], stop)) :
    (stop = none ∧ b.size ≤ pos) ∨
      (stop = some pos ∧ pos < b.size ∧ b.utf8DecodeChar? pos = none) := by
  cases hd : b.utf8DecodeChar? pos with
  | some d =>
    rw [leadingChars_of_decode hd] at h
    simp at h
  | none =>
    rcases Nat.lt_or_ge pos b.size with hlt | hge
    · rw [leadingChars_of_damage hlt hd] at h
      exact .inr ⟨(Prod.mk.inj h).2.symm, hlt, rfl⟩
    · rw [leadingChars_of_size_le hge] at h
      exact .inl ⟨(Prod.mk.inj h).2.symm, hge⟩

/-- Stepping that stops short stops inside the bytes. -/
theorem lt_size_of_leadingChars {cs : List Char} {stop : Nat}
    (h : leadingChars b pos = (cs, some stop)) : stop < b.size := by
  induction cs generalizing pos with
  | nil =>
    rcases leadingChars_nil h with ⟨hnone, -⟩ | ⟨hstop, hlt, -⟩
    · simp at hnone
    · rwa [Option.some.inj hstop]
  | cons c cs ih =>
    obtain ⟨-, hrest⟩ := leadingChars_eq_cons_iff.mp h
    exact ih hrest

/-! ## All at once -/

/-- The longest run of whole characters ends where stepping does. -/
theorem validUpTo_eq (hle : pos ≤ b.size) :
    Utf8.validUpTo b pos = (leadingChars b pos).2.getD b.size := by
  fun_induction Utf8.validUpTo b pos with
  | case1 pos c hc ih =>
    rw [leadingChars_of_decode hc]
    exact ih (ByteArray.le_size_of_utf8DecodeChar?_eq_some hc)
  | case2 pos hnone =>
    rcases Nat.lt_or_eq_of_le hle with hlt | rfl
    · rw [leadingChars_of_damage hlt hnone, Option.getD_some]
    · rw [leadingChars_of_size_le (Nat.le_refl _), Option.getD_none]

/-- The bytes up to the end of the longest run of whole characters are those of the characters that
stepping finds. -/
theorem extract_validUpTo (hle : pos ≤ b.size) :
    pos ≤ Utf8.validUpTo b pos ∧ Utf8.validUpTo b pos ≤ b.size ∧
      b.extract pos (Utf8.validUpTo b pos) = (leadingChars b pos).1.utf8Encode := by
  fun_induction Utf8.validUpTo b pos with
  | case1 pos c hc ih =>
    obtain ⟨hfrom, hto, hbytes⟩ := ih (ByteArray.le_size_of_utf8DecodeChar?_eq_some hc)
    refine ⟨by omega, hto, ?_⟩
    rw [leadingChars_of_decode hc, List.utf8Encode_cons, ← hbytes, ← Utf8.extract_of_decode hc]
    exact ByteArray.extract_eq_extract_append_extract _ (by omega) hfrom
  | case2 pos hnone =>
    refine ⟨Nat.le_refl pos, hle, ?_⟩
    have hnil : (leadingChars b pos).1 = [] := by
      rcases Nat.lt_or_eq_of_le hle with hlt | rfl
      · rw [leadingChars_of_damage hlt hnone]
      · rw [leadingChars_of_size_le (Nat.le_refl _)]
    rw [hnil, List.utf8Encode_nil, ByteArray.extract_eq_empty_iff]
    omega

/-- Bytes in which stepping reaches the end are the text that it finds. -/
theorem eq_utf8Encode_of_leadingChars {cs : List Char} (h : leadingChars b 0 = (cs, none)) :
    b = cs.utf8Encode := by
  obtain ⟨-, -, hbytes⟩ := extract_validUpTo (b := b) (Nat.zero_le _)
  rw [validUpTo_eq (Nat.zero_le _), h, Option.getD_none, ByteArray.extract_zero_size] at hbytes
  exact hbytes

/-- Bytes are refused as a text where stepping does not reach the end, at the place that it
reaches. -/
theorem toText_of_leadingChars {cs : List Char} {stop : Nat} (base : Nat)
    (h : leadingChars b 0 = (cs, some stop)) :
    toText b base = .error (.badUnit ((base + stop) % positions)) := by
  -- A text would be stepped through to its end.
  have hnone : String.fromUTF8? b = none := by
    unfold String.fromUTF8?
    rw [dif_neg]
    rintro ⟨ds, rfl⟩
    rw [leadingChars_utf8Encode] at h
    simp at h
  unfold toText
  rw [hnone, validUpTo_eq (Nat.zero_le _), h]
  rfl

end TextUnit

namespace Stream

open TextUnit

variable {files : Files} {s : Stream}

/-! ## Byte by byte -/

/-- A stream over `b` that nothing has been read from or pushed back to. -/
structure Fresh (files : Files) (b : ByteArray) (s : Stream) : Prop where
  bytes : s.bytes files = .ok b
  pushback : s.pushback = []
  offset : s.offset = 0

/-- A stream that was just made reads memory from its beginning. -/
theorem fresh_reader (files : Files) (name : String) (b : ByteArray) :
    (reader name b).Fresh files b :=
  ⟨rfl, rfl, rfl⟩

/-- What reading with `read` again and again gives: characters, and then an error or the end. -/
inductive Delivers (read : Reader (Option Char)) : Stream → List Char → Option Error → Prop
  | done {s t : Stream} (h : read s = .ok none t) : Delivers read s [] none
  | failed {s t : Stream} {e : Error} (h : read s = .error e t) : Delivers read s [] (some e)
  | next {s t : Stream} {c : Char} {cs : List Char} {last : Option Error}
      (h : read s = .ok (some c) t) (rest : Delivers read t cs last) :
      Delivers read s (c :: cs) last

/-- A byte inside the source is read. -/
theorem nextByte_of_lt (hb : s.bytes files = .ok b) (h : s.offset < b.size) :
    nextByte files s = .ok (some b[s.offset]) { s with offset := s.offset + 1 } := by
  unfold nextByte
  rw [hb]
  dsimp only
  rw [getElem?_pos b s.offset h]

/-- At the end there is no byte. -/
theorem nextByte_of_le (hb : s.bytes files = .ok b) (h : b.size ≤ s.offset) :
    nextByte files s = .ok none s := by
  unfold nextByte
  rw [hb]
  dsimp only
  rw [getElem?_neg b s.offset (Nat.not_lt.mpr h)]

/-- Further bytes that are there are read. -/
theorem moreBytes_of_le (bad : Error) (count : Nat) (seq : ByteArray)
    (hb : s.bytes files = .ok b) (h : s.offset + count ≤ b.size) :
    moreBytes files bad count seq s
      = .ok (seq ++ b.extract s.offset (s.offset + count))
          { s with offset := s.offset + count } := by
  induction count generalizing seq s with
  | zero =>
    have hnone : b.extract s.offset (s.offset + 0) = ByteArray.empty := by
      rw [ByteArray.extract_eq_empty_iff]
      omega
    rw [hnone, ByteArray.append_empty]
    rfl
  | succ count ih =>
    have hlt : s.offset < b.size := by omega
    have hfirst : b.extract s.offset (s.offset + 1) = [b[s.offset]].toByteArray :=
      ByteArray.extract_add_one hlt
    have hend : s.offset + (count + 1) = s.offset + 1 + count := by omega
    have hpush : seq ++ [b[s.offset]].toByteArray = seq.push b[s.offset] := by simp
    have hsplit : seq ++ b.extract s.offset (s.offset + 1 + count)
        = seq.push b[s.offset] ++ b.extract (s.offset + 1) (s.offset + 1 + count) := by
      rw [ByteArray.extract_eq_extract_append_extract (s.offset + 1) (by omega) (by omega), hfirst,
        ← ByteArray.append_assoc, hpush]
    unfold moreBytes
    rw [nextByte_of_lt hb hlt, hend, hsplit]
    exact ih (seq.push b[s.offset]) hb (by rwa [hend] at h)

/-- Further bytes that are not there are missed. -/
theorem moreBytes_of_lt (bad : Error) (count : Nat) (seq : ByteArray)
    (hb : s.bytes files = .ok b) (hle : s.offset ≤ b.size) (h : b.size < s.offset + count) :
    ∃ t, moreBytes files bad count seq s = .error bad t := by
  induction count generalizing seq s with
  | zero => omega
  | succ count ih =>
    unfold moreBytes
    rcases Nat.lt_or_eq_of_le hle with hlt | heq
    · rw [nextByte_of_lt hb hlt]
      exact ih (seq.push b[s.offset]) hb hlt (show b.size < s.offset + 1 + count by omega)
    · rw [nextByte_of_le hb (Nat.le_of_eq heq.symm)]
      exact ⟨s, rfl⟩

/-- Behind the first byte of several a stream reads those that it announces, and only then decides
whether they are a character. -/
theorem readRaw_of_width {width : Nat} (hb : s.bytes files = .ok b) (hlt : s.offset < b.size)
    (hlead : ¬ b[s.offset] < 0x80) (hwidth : Utf8.leadWidth? b[s.offset] = some width) :
    readRaw files s = match moreBytes files (.badUnit s.offset) (width - 1)
        [b[s.offset]].toByteArray { s with offset := s.offset + 1 } with
      | .error e t => .error e t
      | .ok seq t => (Utf8.firstChar? seq).elim (.error (.badUnit s.offset) t)
          fun c => .ok (some c) t := by
  unfold readRaw
  rw [nextByte_of_lt hb hlt]
  dsimp only
  rw [if_neg hlead, hwidth]
  dsimp only
  rw [Nat.add_sub_cancel]
  cases moreBytes files (.badUnit s.offset) (width - 1) [b[s.offset]].toByteArray
      { s with offset := s.offset + 1 } with
  | error e t => rfl
  | ok seq t =>
    dsimp only
    cases Utf8.firstChar? seq with
    | none => rfl
    | some c => rfl

/-- Where the bytes that are announced are there, a stream decides on them as a whole. -/
theorem readRaw_of_le {width : Nat} (hb : s.bytes files = .ok b) (hlt : s.offset < b.size)
    (hlead : ¬ b[s.offset] < 0x80) (hwidth : Utf8.leadWidth? b[s.offset] = some width)
    (hle : s.offset + width ≤ b.size) :
    readRaw files s = (Utf8.firstChar? (b.extract s.offset (s.offset + width))).elim
      (.error (.badUnit s.offset) { s with offset := s.offset + width })
      fun c => .ok (some c) { s with offset := s.offset + width } := by
  have hpos := Utf8.leadWidth?_pos hwidth
  have hend : s.offset + 1 + (width - 1) = s.offset + width := by omega
  have hfirst : b.extract s.offset (s.offset + 1) = [b[s.offset]].toByteArray :=
    ByteArray.extract_add_one hlt
  have hseq : [b[s.offset]].toByteArray ++ b.extract (s.offset + 1) (s.offset + width)
      = b.extract s.offset (s.offset + width) := by
    rw [← hfirst]
    exact (ByteArray.extract_eq_extract_append_extract _ (by omega) (by omega)).symm
  have hmore := moreBytes_of_le (s := { s with offset := s.offset + 1 })
    (.badUnit s.offset) (width - 1) [b[s.offset]].toByteArray hb
    (show s.offset + 1 + (width - 1) ≤ b.size by omega)
  dsimp only at hmore
  rw [hend, hseq] at hmore
  simp only [readRaw_of_width hb hlt hlead hwidth, hmore]

/-- A stream reads the character that its source goes on with. -/
theorem readRaw_of_decode (hb : s.bytes files = .ok b) (h : b.utf8DecodeChar? s.offset = some c) :
    readRaw files s = .ok (some c) { s with offset := s.offset + c.utf8Size } := by
  have hlt := Utf8.lt_size_of_decode h
  have hwidth := Utf8.leadWidth?_of_decode h hlt
  by_cases hlead : b[s.offset] < 0x80
  · have hfound := Utf8.charAt?_of_decode h
    rw [Utf8.charAt?_of_lt hlt, if_pos hlead] at hfound
    rw [Utf8.leadWidth?_of_lt hlead] at hwidth
    unfold readRaw
    rw [nextByte_of_lt hb hlt]
    dsimp only
    rw [if_pos hlead, hfound, Option.some.inj hwidth]
  · rw [readRaw_of_le hb hlt hlead hwidth (ByteArray.le_size_of_utf8DecodeChar?_eq_some h),
      Utf8.extract_of_decode h, Utf8.firstChar?_eq_some_iff.mpr ⟨[], rfl⟩, Option.elim_some]

/-- A stream reads nothing at the end of its source. -/
theorem readRaw_of_size_le (hb : s.bytes files = .ok b) (h : b.size ≤ s.offset) :
    readRaw files s = .ok none s := by
  unfold readRaw
  rw [nextByte_of_le hb h]

/-- A stream fails where its source goes on with no character. -/
theorem readRaw_of_damage (hb : s.bytes files = .ok b) (hlt : s.offset < b.size)
    (h : b.utf8DecodeChar? s.offset = none) :
    ∃ t, readRaw files s = .error (.badUnit s.offset) t := by
  rw [← Utf8.charAt?_eq, Utf8.charAt?_of_lt hlt] at h
  split at h
  · simp at h
  · rename_i hlead
    cases hwidth : Utf8.leadWidth? b[s.offset] with
    | none =>
      -- The first byte begins no character.
      unfold readRaw
      rw [nextByte_of_lt hb hlt]
      dsimp only
      rw [if_neg hlead, hwidth]
      exact ⟨_, rfl⟩
    | some width =>
      rw [hwidth, Option.bind_some] at h
      split at h
      · -- There are as many bytes as announced, but they are no character.
        rename_i hle
        rw [readRaw_of_le hb hlt hlead hwidth hle, h]
        exact ⟨_, rfl⟩
      · -- There are fewer.
        rename_i hgt
        have hpos := Utf8.leadWidth?_pos hwidth
        obtain ⟨t, ht⟩ := moreBytes_of_lt (s := { s with offset := s.offset + 1 })
          (.badUnit s.offset) (width - 1) [b[s.offset]].toByteArray hb hlt
          (show b.size < s.offset + 1 + (width - 1) by omega)
        rw [readRaw_of_width hb hlt hlead hwidth, ht]
        exact ⟨t, rfl⟩

/-- A stream delivers the characters that stepping finds, and fails where stepping stops. -/
theorem delivers_readRaw {cs : List Char} {stop : Option Nat} (hb : s.bytes files = .ok b)
    (h : leadingChars b s.offset = (cs, stop)) :
    Delivers (readRaw files) s cs (stop.map .badUnit) := by
  induction cs generalizing s with
  | nil =>
    rcases leadingChars_nil h with ⟨rfl, hge⟩ | ⟨rfl, hlt, hdamage⟩
    · exact .done (readRaw_of_size_le hb hge)
    · obtain ⟨t, ht⟩ := readRaw_of_damage hb hlt hdamage
      exact .failed ht
  | cons c cs ih =>
    obtain ⟨hchar, hrest⟩ := leadingChars_eq_cons_iff.mp h
    exact .next (readRaw_of_decode hb hchar)
      (ih (s := { s with offset := s.offset + c.utf8Size }) hb hrest)

/-! ## Agreement -/

/-- Let stepping from the beginning of some bytes find the characters `cs`. If it reaches the end,
the bytes are the text `cs`, and any fresh stream over them delivers `cs` and then its end. If it
stops short, the bytes are refused at that place, counted from `base` in words of 64 bits, so at
`base + stop` where this fits into one; and a fresh stream delivers `cs` and then the error that has
that place. -/
theorem decoders_agree (hs : s.Fresh files b) (base : Nat) :
    match leadingChars b 0 with
    | (cs, none) =>
      toText b base = .ok (String.ofList cs) ∧ Delivers (readRaw files) s cs none
    | (cs, some stop) =>
      toText b base = .error (.badUnit ((base + stop) % positions)) ∧
      (base + stop < positions → toText b base = .error (.badUnit (base + stop))) ∧
      Delivers (readRaw files) s cs (some (.badUnit stop)) := by
  -- The bytes before the offset are none, so the stream begins where stepping does.
  have hsteps : leadingChars b s.offset = ((leadingChars b 0).1, (leadingChars b 0).2) := by
    rw [hs.offset]
  have hread := delivers_readRaw hs.bytes hsteps
  split
  · rename_i cs h
    rw [h] at hread
    obtain rfl := eq_utf8Encode_of_leadingChars h
    exact ⟨toText_utf8Encode cs base, hread⟩
  · rename_i cs stop h
    rw [h] at hread
    have htext := toText_of_leadingChars base h
    refine ⟨htext, fun hfits => ?_, hread⟩
    rwa [Nat.mod_eq_of_lt hfits] at htext

/-- Half of a pair stands behind two characters, the second of two bytes. -/
theorem decoders_agree_half_pair :
    ∃ b : ByteArray, b = [0x61, 0xC3, 0xA9, 0xED, 0xA0, 0x80].toByteArray ∧
      (reader "half" b).Fresh .empty b ∧ leadingChars b 0 = (['a', 'é'], some 3) ∧
      toText b 7 = .error (.badUnit 10) ∧
      Delivers (readRaw .empty) (reader "half" b) ['a', 'é'] (some (.badUnit 3)) := by
  refine ⟨_, rfl, fresh_reader .empty "half" _, ?_⟩
  have hsteps : leadingChars [0x61, 0xC3, 0xA9, 0xED, 0xA0, 0x80].toByteArray 0
      = (['a', 'é'], some 3) := by
    refine leadingChars_eq_cons_iff.mpr ⟨by decide, ?_⟩
    refine leadingChars_eq_cons_iff.mpr ⟨by decide, ?_⟩
    exact leadingChars_of_damage (by decide) (by decide)
  have h := decoders_agree (fresh_reader .empty "half"
    [0x61, 0xC3, 0xA9, 0xED, 0xA0, 0x80].toByteArray) 7
  rw [hsteps] at h
  obtain ⟨-, htext, hread⟩ := h
  exact ⟨hsteps, htext (by decide), hread⟩

end Stream

end TextMacro
