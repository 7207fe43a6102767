import TextMacro.Proofs.Characters
import TextMacro.Text.Unit

/-!
# Encoded units and their boundaries

A sequence of units is decoded in any surroundings to the units it was encoded from
(`decodeAt_encode`), and what is decoded is what stands there (`extract_eq_encode_of_decodeAt`). The
boundaries of a byte string are the positions that stepping from unit to unit reaches. A byte that
can begin a character never stands inside a unit, so that a text can only be found between two
boundaries (`Splits.find`).
-/

namespace TextMacro.TextUnit

/-! ## Encoding -/

/-- The bytes in the middle. -/
theorem extract_append_middle (x y w : ByteArray) :
    (x ++ (y ++ w)).extract x.size (x.size + y.size) = y := by
  have h := ByteArray.extract_append_size_add (a := x) (b := y ++ w) (i := 0) (j := y.size)
  rw [Nat.add_zero] at h
  rw [h, ByteArray.extract_append_eq_left rfl]

/-- Encoding onto bytes puts the encoded units behind them. -/
theorem foldl_encode (units : List TextUnit) (out : ByteArray) :
    units.foldl (fun out unit => out ++ unit.encode) out = out ++ encodeAll units := by
  induction units generalizing out with
  | nil => simp [encodeAll]
  | cons u units ih =>
    unfold encodeAll
    rw [List.foldl_cons, List.foldl_cons, ih, ih (ByteArray.empty ++ u.encode),
      ByteArray.empty_append, ByteArray.append_assoc]

/-- No units are no bytes. -/
@[simp]
theorem encodeAll_nil : encodeAll [] = ByteArray.empty := rfl

/-- The bytes of the first unit come before those of the others. -/
@[simp]
theorem encodeAll_cons (u : TextUnit) (units : List TextUnit) :
    encodeAll (u :: units) = u.encode ++ encodeAll units := by
  have h := foldl_encode units u.encode
  unfold encodeAll
  rw [List.foldl_cons, ByteArray.empty_append, h]
  rfl

/-- The bytes of some units come before those of the units behind them. -/
@[simp]
theorem encodeAll_append (xs ys : List TextUnit) :
    encodeAll (xs ++ ys) = encodeAll xs ++ encodeAll ys := by
  induction xs with
  | nil => simp
  | cons u xs ih =>
    rw [List.cons_append, encodeAll_cons, ih, encodeAll_cons, ByteArray.append_assoc]

/-- A unit takes up its width. -/
@[simp]
theorem size_encode (u : TextUnit) : u.encode.size = u.width := by
  cases u with
  | char c => simp [encode, width]
  | segment slot => rfl
  | creation => rfl

/-- The bytes of characters begin with those of the first. -/
theorem utf8Encode_cons_eq (c : Char) (cs : List Char) :
    (c :: cs).utf8Encode = (String.utf8EncodeChar c).toByteArray ++ cs.utf8Encode := by
  rw [List.utf8Encode_cons, List.utf8Encode_singleton]

/-- A character takes up its width. -/
@[simp]
theorem size_utf8Encode_singleton (c : Char) : [c].utf8Encode.size = c.utf8Size := by
  simp [List.utf8Encode_singleton]

/-- The bytes of characters are as many as those of the text they make up. -/
theorem utf8ByteSize_ofList (cs : List Char) :
    (String.ofList cs).utf8ByteSize = cs.utf8Encode.size := by
  rw [← String.size_toByteArray, String.toByteArray_ofList]

/-- The bytes of characters are those of the units that stand for them. -/
theorem encodeAll_map_char (cs : List Char) : encodeAll (cs.map char) = cs.utf8Encode := by
  induction cs with
  | nil => simp
  | cons c cs ih =>
    rw [List.map_cons, encodeAll_cons, ih, utf8Encode_cons_eq]
    rfl

/-- The bytes of a text are those of its characters as units. -/
theorem toUTF8_eq_encodeAll (text : String) : text.toUTF8 = encodeAll (text.toList.map char) := by
  rw [encodeAll_map_char, String.utf8Encode_toList]
  rfl

/-- The tag of a mark reads back as the mark. -/
theorem ofTag?_segment (slot : Fin segmentLimit) :
    ofTag? (segmentTag + argument slot).toUInt8 = some (segment slot) := by
  revert slot
  decide

/-- A mark that a tag reads as is encoded with that tag. -/
theorem encode_of_ofTag? (tag : UInt8) (u : TextUnit) (h : ofTag? tag = some u) :
    u.encode = [markLead, tag].toByteArray := by
  unfold ofTag? at h
  split at h
  · rename_i htag
    obtain rfl := Option.some.inj h
    have : creationTag.toUInt8 = tag := by
      rw [← htag]
      simp
    rw [encode, this]
  · unfold segment? at h
    split at h
    · rename_i hne hrange
      obtain rfl := Option.some.inj h
      have hlt := tag.toNat_lt
      have : (segmentTag + argument ⟨tag.toNat - segmentTag - 1, by omega⟩).toUInt8 = tag := by
        have heq : segmentTag + argument ⟨tag.toNat - segmentTag - 1, by omega⟩ = tag.toNat := by
          unfold argument
          have := hrange.1
          dsimp only
          omega
        rw [heq]
        simp
      rw [encode, this]
    · simp at h

/-- A mark that a tag reads as is two bytes wide. -/
theorem width_of_ofTag? (tag : UInt8) (u : TextUnit) (h : ofTag? tag = some u) : u.width = 2 := by
  rw [← size_encode, encode_of_ofTag? tag u h]
  rfl

/-- The byte that marks begin with begins no character. -/
theorem not_isUTF8FirstByte_markLead : ¬ markLead.IsUTF8FirstByte := by
  decide

/-! ## Decoding in context -/

/-- At the end there is no unit. -/
theorem decodeAt_of_size_le {b : ByteArray} {pos : Nat} (h : b.size ≤ pos) :
    decodeAt b pos = .ok none := by
  unfold decodeAt
  rw [dif_neg (by omega)]

/-- There is no unit only at the end. -/
theorem size_le_of_decodeAt {b : ByteArray} {pos : Nat} (h : decodeAt b pos = .ok none) :
    b.size ≤ pos := by
  refine Nat.le_of_not_lt fun hlt => ?_
  unfold decodeAt at h
  rw [dif_pos hlt] at h
  split at h
  · split at h
    · simp at h
    · simp at h
  · split at h
    · simp at h
    · simp at h

/-- The first byte of what stands behind `before`. -/
theorem getElem_append_size {before b : ByteArray} (h : before.size < (before ++ b).size)
    (hb : 0 < b.size) : (before ++ b)[before.size] = b[0] := by
  rw [ByteArray.getElem_append_right (Nat.le_refl _)]
  simp only [Nat.sub_self]

/-- The bytes of a mark are decoded wherever they stand. -/
theorem decodeAt_mark (before after : ByteArray) {tag : UInt8} {u : TextUnit}
    (h : ofTag? tag = some u) :
    decodeAt (before ++ ([markLead, tag].toByteArray ++ after)) before.size = .ok (some u) := by
  have hsize : (before ++ ([markLead, tag].toByteArray ++ after)).size
      = before.size + 2 + after.size := by
    simp
    omega
  have hlt : before.size < (before ++ ([markLead, tag].toByteArray ++ after)).size := by omega
  have hlt1 : before.size + 1 < (before ++ ([markLead, tag].toByteArray ++ after)).size := by omega
  have hlead : (before ++ ([markLead, tag].toByteArray ++ after))[before.size] = markLead := by
    have hpos : 0 < ([markLead, tag].toByteArray ++ after).size := by
      rw [ByteArray.size_append, List.size_toByteArray]
      simp only [List.length_cons]
      omega
    rw [getElem_append_size hlt hpos, ByteArray.getElem_append_left (by simp)]
    rfl
  have htag : (before ++ ([markLead, tag].toByteArray ++ after))[before.size + 1] = tag := by
    rw [ByteArray.getElem_append_right (by omega), ByteArray.getElem_append_left (by simp)]
    simp
  have htag? : (before ++ ([markLead, tag].toByteArray ++ after))[before.size + 1]? = some tag :=
    getElem?_eq_some_iff.mpr ⟨hlt1, htag⟩
  unfold decodeAt
  rw [dif_pos hlt, if_pos hlead, htag?, Option.bind_some, h]

/-- A character is decoded wherever its bytes stand. -/
theorem utf8DecodeChar?_append (before after : ByteArray) (c : Char) :
    (before ++ ((String.utf8EncodeChar c).toByteArray ++ after)).utf8DecodeChar? before.size
      = some c := by
  rw [ByteArray.utf8DecodeChar?_eq_utf8DecodeChar?_extract, ByteArray.size_append,
    ByteArray.extract_append_eq_right rfl rfl, ByteArray.utf8DecodeChar?_utf8EncodeChar_append]

/-- The bytes of a character are decoded wherever they stand. -/
theorem decodeAt_char (before after : ByteArray) (c : Char) :
    decodeAt (before ++ ((String.utf8EncodeChar c).toByteArray ++ after)) before.size
      = .ok (some (char c)) := by
  have hpos := c.utf8Size_pos
  have hlen : 0 < (String.utf8EncodeChar c).length := by simpa using hpos
  have hlt : before.size < (before ++ ((String.utf8EncodeChar c).toByteArray ++ after)).size := by
    simp
    omega
  have hlead : (before ++ ((String.utf8EncodeChar c).toByteArray ++ after))[before.size]
      ≠ markLead := by
    rw [getElem_append_size hlt (by simp; omega),
      ByteArray.getElem_append_left (by simpa using hpos),
      List.getElem_toByteArray]
    intro heq
    apply not_isUTF8FirstByte_markLead
    rw [← heq]
    exact UInt8.isUTF8FirstByte_getElem_zero_utf8EncodeChar
  unfold decodeAt
  rw [dif_pos hlt, if_neg hlead, Utf8.charAt?_eq, utf8DecodeChar?_append]

/-- An encoded unit is decoded wherever it stands. -/
theorem decodeAt_encode (before after : ByteArray) (u : TextUnit) :
    decodeAt (before ++ (u.encode ++ after)) before.size = .ok (some u) := by
  cases u with
  | char c => exact decodeAt_char before after c
  | segment slot => exact decodeAt_mark before after (ofTag?_segment slot)
  | creation => exact decodeAt_mark before after (by decide)

/-- Characters at the end are decoded one by one. -/
theorem decodeAt_utf8Encode (before : ByteArray) (cs : List Char) :
    decodeAt (before ++ cs.utf8Encode) before.size = .ok (cs.head?.map char) := by
  cases cs with
  | nil => exact decodeAt_of_size_le (by simp)
  | cons c cs => rw [utf8Encode_cons_eq, decodeAt_char, List.head?_cons, Option.map_some]

/-- What is decoded is what stands there. -/
theorem extract_eq_encode_of_decodeAt {b : ByteArray} {pos : Nat} {u : TextUnit}
    (h : decodeAt b pos = .ok (some u)) :
    pos + u.width ≤ b.size ∧ b.extract pos (pos + u.width) = u.encode := by
  unfold decodeAt at h
  split at h
  · rename_i hlt
    split at h
    · rename_i hlead
      split at h
      · rename_i mark hmark
        obtain rfl : mark = u := by simpa using h
        obtain ⟨tag, htag, hof⟩ := Option.bind_eq_some_iff.mp hmark
        obtain ⟨hlt1, rfl⟩ := getElem?_eq_some_iff.mp htag
        rw [width_of_ofTag? _ _ hof, ByteArray.extract_add_two (by omega), hlead,
          encode_of_ofTag? _ _ hof]
        exact ⟨by omega, rfl⟩
      · simp at h
    · split at h
      · rename_i c hc
        obtain rfl : char c = u := by simpa using h
        have hdecode := Utf8.decode_of_charAt? hc
        have hbytes := Utf8.extract_of_decode hdecode
        rw [List.utf8Encode_singleton] at hbytes
        exact ⟨ByteArray.le_size_of_utf8DecodeChar?_eq_some hdecode, hbytes⟩
      · simp at h
  · simp at h

/-! ## Characters as text -/

/-- The bytes of characters are a text. -/
theorem toText_utf8Encode (cs : List Char) (base : Nat) :
    toText cs.utf8Encode base = .ok (String.ofList cs) := by
  have htext : String.fromUTF8? cs.utf8Encode = some (String.ofList cs) := by
    unfold String.fromUTF8?
    rw [dif_pos ByteArray.isValidUTF8_utf8Encode]
    rfl
  unfold toText
  rw [htext]

/-- Nothing of the bytes of characters is damaged. -/
theorem lossyFrom_utf8Encode (before : ByteArray) (cs : List Char) (out : String) :
    Utf8.lossyFrom (before ++ cs.utf8Encode) before.size out = out ++ String.ofList cs := by
  induction cs generalizing before out with
  | nil =>
    rw [Utf8.lossyFrom, dif_neg (by simp)]
    simp
  | cons c cs ih =>
    have hpos := c.utf8Size_pos
    have hnext := ih (before ++ (String.utf8EncodeChar c).toByteArray) (out.push c)
    rw [ByteArray.size_append, List.size_toByteArray, String.length_utf8EncodeChar,
      ByteArray.append_assoc] at hnext
    rw [utf8Encode_cons_eq, Utf8.lossyFrom, dif_pos (by simp; omega), utf8DecodeChar?_append]
    dsimp only
    rw [hnext, String.push_eq_append, String.append_assoc, String.singleton_eq_ofList,
      ← String.ofList_append, List.singleton_append]

/-- The text of the bytes of characters. -/
theorem lossy_utf8Encode (cs : List Char) : Utf8.lossy cs.utf8Encode = String.ofList cs := by
  have h := lossyFrom_utf8Encode ByteArray.empty cs ""
  rw [ByteArray.empty_append, ByteArray.size_empty] at h
  unfold Utf8.lossy
  rw [h]
  simp

/-! ## Rounds -/

/-- One round of decoding. -/
theorem decodeFrom_round (b : ByteArray) (pos : Nat) :
    decodeFrom b pos = match decodeAt b pos with
      | .error e => ([], some e)
      | .ok none => ([], none)
      | .ok (some u) =>
        (u :: (decodeFrom b (pos + u.width)).1, (decodeFrom b (pos + u.width)).2) := by
  conv => lhs; rw [decodeFrom]
  cases decodeAt b pos with
  | error e => rfl
  | ok next =>
    cases next with
    | none => rfl
    | some u => rfl

/-- One round of the check that bytes are units. -/
theorem validateFrom_round (b : ByteArray) (pos : Nat) :
    validateFrom b pos = match decodeAt b pos with
      | .error e => .error e
      | .ok none => .ok ()
      | .ok (some u) => validateFrom b (pos + u.width) := by
  conv => lhs; rw [validateFrom]
  cases decodeAt b pos with
  | error e => rfl
  | ok next =>
    cases next with
    | none => rfl
    | some u => rfl

/-! ## Boundaries -/

/-- The positions that stepping from unit to unit reaches. -/
inductive Boundary (b : ByteArray) : Nat → Prop
  | start : Boundary b 0
  | next {pos : Nat} {u : TextUnit} : Boundary b pos → decodeAt b pos = .ok (some u) →
    Boundary b (pos + u.width)

/-- The bytes are the units `before` and then the units `after`, and `pos` lies between them. -/
structure Splits (b : ByteArray) (pos : Nat) (before after : List TextUnit) : Prop where
  bytes : b = encodeAll before ++ encodeAll after
  pos_eq : pos = (encodeAll before).size

/-- Encoded units begin with no unit. -/
theorem splits_encodeAll (units : List TextUnit) : Splits (encodeAll units) 0 [] units :=
  ⟨by simp, by simp⟩

namespace Splits

variable {b : ByteArray} {pos : Nat} {before after : List TextUnit}

/-- The unit at a position between units is the first that follows. -/
theorem decodeAt_eq (h : Splits b pos before after) : decodeAt b pos = .ok after.head? := by
  obtain ⟨rfl, rfl⟩ := h
  cases after with
  | nil => exact decodeAt_of_size_le (by simp)
  | cons u after => rw [encodeAll_cons, decodeAt_encode, List.head?_cons]

/-- Decoding does not fail between units. -/
theorem decodeAt_ne_error {e : Error} (h : Splits b pos before after) :
    decodeAt b pos ≠ .error e := by
  simp [h.decodeAt_eq]

/-- Where there is no unit, none follows. -/
theorem eq_nil (h : Splits b pos before after) (hend : decodeAt b pos = .ok none) :
    after = [] := by
  simpa [h.decodeAt_eq] using hend

/-- The unit that is decoded is the first that follows. -/
theorem eq_cons {u : TextUnit} (h : Splits b pos before after)
    (hunit : decodeAt b pos = .ok (some u)) : ∃ rest, after = u :: rest := by
  simpa [h.decodeAt_eq, List.head?_eq_some_iff] using hunit

/-- The position behind the first unit that follows. -/
theorem next {u : TextUnit} (h : Splits b pos before (u :: after)) :
    Splits b (pos + u.width) (before ++ [u]) after := by
  obtain ⟨hb, hpos⟩ := h
  refine ⟨?_, ?_⟩
  · rw [hb, encodeAll_append, encodeAll_cons, encodeAll_cons, encodeAll_nil, ByteArray.append_empty,
      ByteArray.append_assoc]
  · rw [hpos, encodeAll_append, ByteArray.size_append, encodeAll_cons, encodeAll_nil,
      ByteArray.append_empty, size_encode]

/-- The position behind several units that follow. -/
theorem skip {mid : List TextUnit} (h : Splits b pos before (mid ++ after)) :
    Splits b (pos + (encodeAll mid).size) (before ++ mid) after := by
  obtain ⟨hb, hpos⟩ := h
  refine ⟨?_, ?_⟩
  · rw [hb, encodeAll_append, encodeAll_append, ByteArray.append_assoc]
  · rw [hpos, encodeAll_append, ByteArray.size_append]

/-- The bytes end behind the units that follow the position. -/
theorem size_eq (h : Splits b pos before after) : b.size = pos + (encodeAll after).size := by
  obtain ⟨rfl, rfl⟩ := h
  exact ByteArray.size_append

/-- The bytes before the position are those of the units before it. -/
theorem extract_before (h : Splits b pos before after) : b.extract 0 pos = encodeAll before := by
  obtain ⟨rfl, rfl⟩ := h
  exact ByteArray.extract_append_eq_left rfl

/-- The bytes behind the position are those of the units behind it. -/
theorem extract_after (h : Splits b pos before after) :
    b.extract pos b.size = encodeAll after := by
  obtain ⟨rfl, rfl⟩ := h
  exact ByteArray.extract_append_eq_right rfl ByteArray.size_append

/-- The bytes between two positions are those of the units between them. -/
theorem extract_mid {mid : List TextUnit} (h : Splits b pos before (mid ++ after)) :
    b.extract pos (pos + (encodeAll mid).size) = encodeAll mid := by
  obtain ⟨rfl, rfl⟩ := h
  rw [encodeAll_append]
  exact extract_append_middle _ _ _

/-- Decoding from a position between units gives the units that follow. -/
theorem decodeFrom_eq (h : Splits b pos before after) : decodeFrom b pos = (after, none) := by
  induction after generalizing pos before with
  | nil => rw [decodeFrom_round, h.decodeAt_eq, List.head?_nil]
  | cons u after ih =>
    rw [decodeFrom_round, h.decodeAt_eq, List.head?_cons]
    dsimp only
    rw [ih h.next]

/-- Units are well formed. -/
theorem validateFrom_eq (h : Splits b pos before after) : validateFrom b pos = .ok () := by
  induction after generalizing pos before with
  | nil => rw [validateFrom_round, h.decodeAt_eq, List.head?_nil]
  | cons u after ih =>
    rw [validateFrom_round, h.decodeAt_eq, List.head?_cons]
    exact ih h.next

/-- Stepping over units leads from boundary to boundary. -/
theorem boundary_skip {mid : List TextUnit} (h : Splits b pos before (mid ++ after))
    (hpos : Boundary b pos) : Boundary b (pos + (encodeAll mid).size) := by
  induction mid generalizing pos before with
  | nil => simpa using hpos
  | cons u mid ih =>
    have hstep : Boundary b (pos + u.width) := .next hpos h.decodeAt_eq
    have hrest := ih h.next hstep
    rw [encodeAll_cons, ByteArray.size_append, size_encode, ← Nat.add_assoc]
    exact hrest

/-- All units follow the start. -/
theorem start (h : Splits b pos before after) : Splits b 0 [] (before ++ after) :=
  ⟨by rw [h.bytes, encodeAll_nil, ByteArray.empty_append, encodeAll_append], by simp⟩

/-- A position between units is a boundary. -/
theorem boundary (h : Splits b pos before after) : Boundary b pos := by
  have hskip := boundary_skip h.start .start
  rw [Nat.zero_add, ← h.pos_eq] at hskip
  exact hskip

/-- A boundary of encoded units lies between two of them. -/
theorem of_boundary {units : List TextUnit} (h : Splits b 0 [] units) (hpos : Boundary b pos) :
    ∃ before after, units = before ++ after ∧ Splits b pos before after := by
  induction hpos with
  | start => exact ⟨[], units, rfl, h⟩
  | next _ hu ih =>
    obtain ⟨before, after, rfl, hsplit⟩ := ih
    rw [hsplit.decodeAt_eq] at hu
    cases after with
    | nil => simp at hu
    | cons v after =>
      obtain rfl : v = _ := by simpa using hu
      exact ⟨before ++ [v], after, by simp, hsplit.next⟩

end Splits

/-- Bytes that are well formed from a position on are units from there on. -/
theorem extract_eq_encodeAll_of_validateFrom {b : ByteArray} {pos : Nat}
    (h : validateFrom b pos = .ok ()) : ∃ units, b.extract pos b.size = encodeAll units := by
  fun_induction validateFrom b pos with
  | case1 pos e he => simp at h
  | case2 pos hn =>
    refine ⟨[], ?_⟩
    have hle := size_le_of_decodeAt hn
    rw [encodeAll_nil, ByteArray.extract_eq_empty_iff]
    omega
  | case3 pos u hu ih =>
    obtain ⟨units, hunits⟩ := ih h
    obtain ⟨hle, hex⟩ := extract_eq_encode_of_decodeAt hu
    refine ⟨u :: units, ?_⟩
    rw [encodeAll_cons, ← hex, ← hunits]
    exact ByteArray.extract_eq_extract_append_extract _ (by omega) hle

/-- Well-formed bytes are encoded units. -/
theorem splits_of_validate {b : ByteArray} (h : validate b = .ok ()) :
    ∃ units, Splits b 0 [] units := by
  obtain ⟨units, hunits⟩ := extract_eq_encodeAll_of_validateFrom h
  rw [ByteArray.extract_zero_size] at hunits
  exact ⟨units, hunits ▸ splits_encodeAll units⟩

/-- At a boundary of well-formed bytes there is a unit or the end. -/
theorem decodeAt_ne_error {b : ByteArray} {pos : Nat} {e : Error} (h : validate b = .ok ())
    (hpos : Boundary b pos) : decodeAt b pos ≠ .error e := by
  obtain ⟨units, hunits⟩ := splits_of_validate h
  obtain ⟨before, after, -, hsplit⟩ := hunits.of_boundary hpos
  rw [hsplit.decodeAt_eq]
  simp

/-- A boundary lies inside the bytes or at their end. -/
theorem Boundary.le_size {b : ByteArray} {pos : Nat} (h : Boundary b pos) : pos ≤ b.size := by
  cases h with
  | start => exact Nat.zero_le _
  | next _ hu => exact (extract_eq_encode_of_decodeAt hu).1

/-! ## Units in the middle of a text -/

/-- The byte that marks begin with is in no encoded character. -/
theorem ne_markLead_of_mem_utf8EncodeChar {c : Char} {b : UInt8}
    (h : b ∈ String.utf8EncodeChar c) : b ≠ markLead := by
  rintro rfl
  -- All bytes but the single one of a short character have room for six bits or fewer.
  have hofNat : ∀ n : Nat, markLead = UInt8.ofNat n → n % 256 = 255 := by
    intro n hn
    have hnat := congrArg UInt8.toNat hn
    simpa [markLead] using hnat.symm
  unfold String.utf8EncodeChar at h
  dsimp only at h
  split at h
  · obtain hb := hofNat _ (List.mem_singleton.mp h)
    omega
  · split at h
    · simp only [List.mem_cons, List.not_mem_nil, or_false] at h
      rcases h with h | h
      all_goals
        have hb := hofNat _ h
        omega
    · split at h
      all_goals
        simp only [List.mem_cons, List.not_mem_nil, or_false] at h
      · rcases h with h | h | h
        all_goals
          have hb := hofNat _ h
          omega
      · rcases h with h | h | h | h
        all_goals
          have hb := hofNat _ h
          omega

/-- Behind the first byte of a character no unit begins. -/
theorem decodeAt_inside_char (before after : ByteArray) (c : Char) {n : Nat} (hpos : 0 < n)
    (hlt : n < c.utf8Size) :
    ∃ e, decodeAt (before ++ ((String.utf8EncodeChar c).toByteArray ++ after)) (before.size + n)
      = .error e := by
  have hn : n < (String.utf8EncodeChar c).length := by rwa [String.length_utf8EncodeChar]
  have hin : before.size + n
      < (before ++ ((String.utf8EncodeChar c).toByteArray ++ after)).size := by
    simp only [ByteArray.size_append, List.size_toByteArray]
    omega
  have hbyte : (before ++ ((String.utf8EncodeChar c).toByteArray ++ after))[before.size + n]
      = (String.utf8EncodeChar c)[n] := by
    rw [ByteArray.getElem_append_right (by omega),
      ByteArray.getElem_append_left (by simpa using hn),
      List.getElem_toByteArray]
    simp
  have hlead := ne_markLead_of_mem_utf8EncodeChar (List.getElem_mem hn)
  -- Neither a mark nor a character begins with such a byte.
  have hnone : (before ++ ((String.utf8EncodeChar c).toByteArray ++ after)).utf8DecodeChar?
      (before.size + n) = none := by
    rw [← Option.not_isSome_iff_eq_none]
    intro hsome
    have hfirst := ByteArray.isUTF8FirstByte_of_isSome_utf8DecodeChar? hsome
    rw [hbyte, UInt8.isUTF8FirstByte_getElem_utf8EncodeChar] at hfirst
    omega
  unfold decodeAt
  rw [dif_pos hin, hbyte, if_neg hlead, Utf8.charAt?_eq, hnone]
  exact ⟨_, rfl⟩

/-- In a text a unit begins only where a character does. -/
theorem exists_append_of_decodeAt {before : ByteArray} {cs : List Char} {n : Nat}
    {next : Option TextUnit}
    (h : decodeAt (before ++ cs.utf8Encode) (before.size + n) = .ok next)
    (hlt : n < cs.utf8Encode.size) : ∃ mid rest, cs = mid ++ rest ∧ n = mid.utf8Encode.size := by
  induction cs generalizing before n with
  | nil => simp at hlt
  | cons c cs ih =>
    rw [utf8Encode_cons_eq] at h
    rw [utf8Encode_cons_eq, ByteArray.size_append, List.size_toByteArray,
      String.length_utf8EncodeChar] at hlt
    rcases Nat.eq_zero_or_pos n with rfl | hpos
    · exact ⟨[], c :: cs, rfl, by simp⟩
    · by_cases hinside : n < c.utf8Size
      · -- Inside the first character nothing is decoded.
        obtain ⟨e, he⟩ := decodeAt_inside_char before cs.utf8Encode c hpos hinside
        rw [he] at h
        simp at h
      · -- Behind it, the first character counts as one of the bytes before the text.
        have hsize : (before ++ (String.utf8EncodeChar c).toByteArray).size
            = before.size + c.utf8Size := by
          simp
        have hn : (before ++ (String.utf8EncodeChar c).toByteArray).size + (n - c.utf8Size)
            = before.size + n := by
          omega
        rw [← ByteArray.append_assoc, ← hn] at h
        obtain ⟨mid, rest, rfl, hmid⟩ := ih h (by omega)
        refine ⟨c :: mid, rest, rfl, ?_⟩
        rw [utf8Encode_cons_eq, ByteArray.size_append, List.size_toByteArray,
          String.length_utf8EncodeChar]
        omega

/-- Bytes that are no unit are the only reason why decoding fails, and the error has their
position. -/
theorem malformed_of_decodeAt {b : ByteArray} {pos : Nat} {e : Error}
    (h : decodeAt b pos = .error e) : e = .badUnit pos := by
  unfold decodeAt at h
  split at h
  · split at h
    · split at h
      · simp at h
      · simpa using h.symm
    · split at h
      · simp at h
      · simpa using h.symm
  · simp at h

/-! ## Searching -/

/-- A text occurs where its bytes stand. -/
theorem occursAt_iff {b needle : ByteArray} {pos : Nat} :
    occursAt b needle pos = true ↔ b.extract pos (pos + needle.size) = needle := by
  rw [ByteArray.ext_iff]
  show ((b.extract pos (pos + needle.size)).data == needle.data) = true ↔ _
  exact beq_iff_eq

/-- A needle that is not empty is looked for everywhere. -/
theorem find_eq_findFrom {needle : ByteArray} (hne : 0 < needle.size) (b : ByteArray) (pos : Nat) :
    find b needle pos = findFrom b needle pos := by
  unfold find
  rw [if_neg (by simpa [ByteArray.isEmpty] using Nat.ne_of_gt hne)]

/-- Where a search ends, the needle stands. -/
theorem occursAt_of_findFrom {b needle : ByteArray} {pos hit : Nat}
    (h : findFrom b needle pos = some hit) : b.extract hit (hit + needle.size) = needle := by
  fun_induction findFrom b needle pos with
  | case1 pos hle hocc =>
    obtain rfl : pos = hit := by simpa using h
    exact occursAt_iff.mp hocc
  | case2 pos hle hocc ih => exact ih h
  | case3 pos hgt => simp at h

/-- A tag byte begins no character. -/
theorem not_isUTF8FirstByte_tag (slot : Fin segmentLimit) :
    ¬ (segmentTag + argument slot).toUInt8.IsUTF8FirstByte := by
  revert slot
  decide

/-- The bytes of a mark begin no character. -/
theorem not_isUTF8FirstByte_mark {tag : UInt8} (htag : ¬ tag.IsUTF8FirstByte) {i : Nat}
    (h : i < [markLead, tag].toByteArray.size) :
    ¬ [markLead, tag].toByteArray[i].IsUTF8FirstByte := by
  rw [List.getElem_toByteArray]
  rw [List.size_toByteArray] at h
  match i, h with
  | 0, _ => exact not_isUTF8FirstByte_markLead
  | 1, _ => exact htag

/-- A byte of an encoded unit that can begin a character is its first. -/
theorem eq_zero_of_isUTF8FirstByte {u : TextUnit} {i : Nat} (h : i < u.encode.size)
    (hfirst : u.encode[i].IsUTF8FirstByte) : i = 0 := by
  cases u with
  | char c =>
    simp only [encode, List.getElem_toByteArray] at hfirst
    exact UInt8.isUTF8FirstByte_getElem_utf8EncodeChar.mp hfirst
  | segment slot => exact absurd hfirst (not_isUTF8FirstByte_mark (not_isUTF8FirstByte_tag slot) h)
  | creation => exact absurd hfirst (not_isUTF8FirstByte_mark (by decide) h)

namespace Splits

variable {b : ByteArray} {pos : Nat} {before after : List TextUnit}

/-- A byte behind a boundary that can begin a character stands behind a boundary itself. -/
theorem of_isUTF8FirstByte {i : Nat} (h : Splits b pos before after) (hi : pos + i < b.size)
    (hfirst : b[pos + i].IsUTF8FirstByte) :
    ∃ mid rest, after = mid ++ rest ∧ i = (encodeAll mid).size := by
  induction after generalizing pos before i with
  | nil =>
    have hsize := h.size_eq
    rw [encodeAll_nil, ByteArray.size_empty] at hsize
    omega
  | cons u after ih =>
    by_cases hlt : i < u.width
    · -- The byte belongs to the first unit, so it is its first.
      have hex := (extract_eq_encode_of_decodeAt h.decodeAt_eq).2
      have hsize : i < u.encode.size := by rwa [size_encode]
      have hget : b[pos + i] = u.encode[i] := by
        simp only [← hex, ByteArray.getElem_extract]
      rw [hget] at hfirst
      exact ⟨[], u :: after, rfl, by simpa using eq_zero_of_isUTF8FirstByte hsize hfirst⟩
    · -- The byte comes behind the first unit.
      have heq : pos + i = pos + u.width + (i - u.width) := by omega
      have hi' : pos + u.width + (i - u.width) < b.size := by omega
      simp only [heq] at hfirst
      obtain ⟨mid, rest, rfl, hmid⟩ := ih h.next hi' hfirst
      refine ⟨u :: mid, rest, rfl, ?_⟩
      rw [encodeAll_cons, ByteArray.size_append, size_encode]
      omega

/-- A text that stands at a boundary is the characters that follow it. -/
theorem of_extract {cs : List Char} (h : Splits b pos before after)
    (hocc : b.extract pos (pos + cs.utf8Encode.size) = cs.utf8Encode) :
    ∃ rest, after = cs.map char ++ rest := by
  induction cs generalizing pos before after with
  | nil => exact ⟨after, rfl⟩
  | cons c cs ih =>
    have hw := size_utf8Encode_singleton c
    rw [List.utf8Encode_cons, ByteArray.size_append, hw] at hocc
    have hpos := c.utf8Size_pos
    have hle : pos + (c.utf8Size + cs.utf8Encode.size) ≤ b.size := by
      have hsize := congrArg ByteArray.size hocc
      rw [ByteArray.size_extract, ByteArray.size_append, hw] at hsize
      omega
    -- The occurrence is that of its first character and, behind it, that of the others.
    have hc : b.extract pos (pos + c.utf8Size) = (char c).encode := by
      have hex := congrArg (fun x => x.extract 0 c.utf8Size) hocc
      rw [ByteArray.extract_extract, ByteArray.extract_append_eq_left hw.symm,
        List.utf8Encode_singleton] at hex
      rw [← Nat.add_zero pos, Nat.add_assoc, Nat.zero_add]
      rw [Nat.min_eq_left (by omega)] at hex
      exact hex
    have hcs : b.extract (pos + c.utf8Size) (pos + c.utf8Size + cs.utf8Encode.size)
        = cs.utf8Encode := by
      have hex := congrArg (fun x => x.extract c.utf8Size (c.utf8Size + cs.utf8Encode.size)) hocc
      rw [ByteArray.extract_extract, ByteArray.extract_append_eq_right hw.symm (by rw [hw]),
        Nat.min_self, ← Nat.add_assoc] at hex
      exact hex
    -- So this character is decoded at the boundary, and it is the first unit that follows.
    have hdecode : decodeAt b pos = .ok (some (char c)) := by
      have hb : b = b.extract 0 pos
          ++ ((char c).encode ++ b.extract (pos + c.utf8Size) b.size) := by
        rw [← hc, ← ByteArray.extract_eq_extract_append_extract _ (by omega) (by omega),
          ← ByteArray.extract_eq_extract_append_extract _ (by omega) (by omega),
          ByteArray.extract_zero_size]
      have hbefore : (b.extract 0 pos).size = pos := by
        rw [ByteArray.size_extract]
        omega
      have henc := decodeAt_encode (b.extract 0 pos) (b.extract (pos + c.utf8Size) b.size) (char c)
      rw [← hb, hbefore] at henc
      exact henc
    rw [h.decodeAt_eq] at hdecode
    cases after with
    | nil => simp at hdecode
    | cons u after =>
      obtain rfl : u = char c := by simpa using hdecode
      obtain ⟨rest, rfl⟩ := ih h.next hcs
      exact ⟨rest, rfl⟩

/-- A text that stands behind a boundary stands between two boundaries. -/
theorem of_occurrence {text : String} {i : Nat} (h : Splits b pos before after)
    (hne : 0 < text.toUTF8.size) (hle : pos ≤ i)
    (hocc : b.extract i (i + text.toUTF8.size) = text.toUTF8) :
    ∃ mid rest, after = mid ++ (text.toList.map char ++ rest) ∧
      i = pos + (encodeAll mid).size := by
  have hin := congrArg ByteArray.size hocc
  rw [ByteArray.size_extract] at hin
  have henc : text.toUTF8 = text.toList.utf8Encode := by
    rw [String.toUTF8_eq_toByteArray, String.utf8Encode_toList]
  rw [henc] at hne hin hocc
  -- The first byte of the text begins a character, so it stands behind a boundary.
  have hfirst : ∃ mid rest, after = mid ++ rest ∧ i - pos = (encodeAll mid).size := by
    cases hcs : text.toList with
    | nil =>
      rw [hcs, List.utf8Encode_nil, ByteArray.size_empty] at hne
      omega
    | cons c cs =>
      rw [hcs] at hne hin hocc
      have hlt : pos + (i - pos) < b.size := by omega
      refine h.of_isUTF8FirstByte hlt ?_
      have hget : b[pos + (i - pos)] = (c :: cs).utf8Encode[0] := by
        generalize (c :: cs).utf8Encode.size = n at hocc
        simp only [← hocc, ByteArray.getElem_extract]
        congr 1
        omega
      rw [hget]
      simp only [utf8Encode_cons_eq]
      exact ByteArray.isUTF8FirstByte_getElem_zero_utf8EncodeChar_append
  obtain ⟨mid, rest, rfl, hmid⟩ := hfirst
  have hsplit := h.skip
  rw [← hmid, show pos + (i - pos) = i by omega] at hsplit
  obtain ⟨rest, rfl⟩ := hsplit.of_extract hocc
  exact ⟨mid, rest, rfl, by omega⟩

/-- A text found from a boundary on stands between two boundaries. -/
theorem of_find {text : String} {hit : Nat} (h : Splits b pos before after)
    (hfind : find b text.toUTF8 pos = some hit) :
    ∃ mid rest, after = mid ++ (text.toList.map char ++ rest) ∧
      hit = pos + (encodeAll mid).size := by
  obtain ⟨hne, hle, -⟩ := find_bounds hfind
  rw [find_eq_findFrom hne] at hfind
  exact h.of_occurrence hne hle (occursAt_of_findFrom hfind)

end Splits

end TextMacro.TextUnit
