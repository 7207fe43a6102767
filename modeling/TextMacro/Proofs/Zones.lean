import TextMacro.Proofs.Units
import TextMacro.Scanner.Zones

/-!
# The two zones of a program

A buffer whose zones do not overlap is what is done with, then free space, then what is still to be
scanned (`Zones.Shows`). Each movement of the scanner is described by what it does to the two zones
alone: the size and the content of the free space between them never show. In particular a result is
placed whole whether or not the free space is large enough for it.
-/

namespace TextMacro

/-! ## Writing into bytes -/

namespace Buffer

/-- Writing over as many bytes replaces them. -/
theorem overwriteBytes_append (x y w bytes : ByteArray) (h : y.size = bytes.size) :
    overwriteBytes (x ++ (y ++ w)) x.size bytes = x ++ (bytes ++ w) := by
  unfold overwriteBytes
  rw [ByteArray.copySlice_eq_append, ByteArray.size_data, ByteArray.size_data, Nat.sub_zero,
    Nat.min_self, Nat.zero_add, ByteArray.extract_zero_size, ByteArray.extract_append_eq_left rfl,
    ← ByteArray.append_assoc, ← ByteArray.append_assoc]
  congr 1
  exact ByteArray.extract_append_eq_right (by rw [ByteArray.size_append, h])
    ByteArray.size_append

/-- Writing at the end adds the bytes there. -/
theorem overwriteBytes_size (x bytes : ByteArray) :
    overwriteBytes x x.size bytes = x ++ bytes := by
  unfold overwriteBytes
  rw [ByteArray.copySlice_eq_append, ByteArray.size_data, ByteArray.size_data, Nat.sub_zero,
    Nat.min_self, Nat.zero_add, ByteArray.extract_zero_size, ByteArray.extract_zero_size,
    ByteArray.extract_eq_empty_iff.mpr (by omega), ByteArray.append_empty]

/-- Bytes written so that they reach past the end replace what stood behind their position. -/
theorem overwriteBytes_of_size_le (x y bytes : ByteArray) (h : y.size ≤ bytes.size) :
    overwriteBytes (x ++ y) x.size bytes = x ++ bytes := by
  unfold overwriteBytes
  rw [ByteArray.copySlice_eq_append, ByteArray.size_data, ByteArray.size_data, Nat.sub_zero,
    Nat.min_self, Nat.zero_add, ByteArray.extract_zero_size, ByteArray.extract_append_eq_left rfl,
    ByteArray.extract_eq_empty_iff.mpr (by rw [ByteArray.size_append]; omega),
    ByteArray.append_empty]

/-- Any bytes are some that have a size within theirs and then others. -/
theorem exists_eq_append {b : ByteArray} {n : Nat} (h : n ≤ b.size) :
    ∃ x y, b = x ++ y ∧ x.size = n := by
  refine ⟨b.extract 0 n, b.extract n b.size, ?_, ?_⟩
  · rw [← ByteArray.extract_eq_extract_append_extract _ (by omega) (by omega),
      ByteArray.extract_zero_size]
  · rw [ByteArray.size_extract]
    omega

/-- Inserting puts the bytes between those before and those behind their position. -/
theorem insertBytes_append (x y bytes : ByteArray) :
    insertBytes (x ++ y) x.size bytes = x ++ (bytes ++ y) := by
  have htail : (x ++ y).extract x.size (x ++ y).size = y :=
    ByteArray.extract_append_eq_right rfl ByteArray.size_append
  unfold insertBytes
  dsimp only
  rw [htail]
  by_cases hle : y.size ≤ bytes.size
  · -- Nothing of what stood behind the position is left after the first write.
    rw [overwriteBytes_of_size_le x y bytes hle, ← ByteArray.size_append, overwriteBytes_size,
      ByteArray.append_assoc]
  · -- The second write covers the bytes that the first has left.
    obtain ⟨y₁, y₂, rfl, hy₁⟩ := exists_eq_append (b := y) (n := bytes.size) (by omega)
    rw [overwriteBytes_append x y₁ y₂ bytes hy₁, ← ByteArray.append_assoc, ← ByteArray.size_append,
      overwriteBytes_of_size_le _ _ _ (by rw [ByteArray.size_append]; omega),
      ByteArray.append_assoc]

/-- A run of zero bytes has the size asked for. -/
@[simp]
theorem size_zeros (n : Nat) : (zeros n).size = n := by
  simp [zeros, ByteArray.size]

end Buffer

namespace Zones

/-- The bytes of the buffer are those done with, free space, and those to be scanned. -/
structure Shows (z : Zones) (done active : ByteArray) : Prop where
  layout : ∃ gap, z.buffer.content = done ++ (gap ++ active) ∧
    z.buffer.index = done.size + gap.size
  passive_eq : z.passive = done.size

namespace Shows

variable {z : Zones} {done active : ByteArray}

/-- The zones do not overlap, and they lie inside the buffer. -/
theorem bounds (h : z.Shows done active) :
    z.passive ≤ z.buffer.index ∧ z.buffer.index ≤ z.buffer.content.size := by
  obtain ⟨⟨gap, hcontent, hindex⟩, hpassive⟩ := h
  rw [hcontent, ByteArray.size_append, ByteArray.size_append]
  omega

/-- What zones show as done is what they have done. -/
theorem done_eq (h : z.Shows done active) : z.done = done := by
  obtain ⟨⟨gap, hcontent, -⟩, hpassive⟩ := h
  unfold Zones.done
  rw [hcontent, hpassive]
  exact ByteArray.extract_append_eq_left rfl

/-- What zones show as still to be scanned is what they have left. -/
theorem active_eq (h : z.Shows done active) : z.active = active := by
  obtain ⟨⟨gap, hcontent, hindex⟩, -⟩ := h
  unfold Zones.active Buffer.remaining
  rw [hcontent, hindex, ← ByteArray.append_assoc]
  exact ByteArray.extract_append_eq_right ByteArray.size_append.symm ByteArray.size_append

/-- What is to be scanned ends where the buffer ends. -/
theorem size_eq (h : z.Shows done active) :
    z.buffer.content.size = z.buffer.index + active.size := by
  obtain ⟨⟨gap, hcontent, hindex⟩, -⟩ := h
  rw [hcontent, hindex, ByteArray.size_append, ByteArray.size_append]
  omega

end Shows

/-- Zones that do not overlap and lie inside the buffer show what is in them. -/
theorem shows_of_bounds {z : Zones} (hpassive : z.passive ≤ z.buffer.index)
    (hindex : z.buffer.index ≤ z.buffer.content.size) : z.Shows z.done z.active := by
  have hsize : z.done.size = z.passive := by
    unfold Zones.done
    rw [ByteArray.size_extract]
    omega
  refine ⟨⟨z.buffer.content.extract z.passive z.buffer.index, ?_, ?_⟩, hsize.symm⟩
  · unfold Zones.done Zones.active Buffer.remaining
    rw [← ByteArray.extract_eq_extract_append_extract _ (by omega) (by omega),
      ← ByteArray.extract_eq_extract_append_extract _ (by omega) (by omega),
      ByteArray.extract_zero_size]
  · rw [hsize, ByteArray.size_extract]
    omega

/-- A program of which nothing is scanned yet. -/
theorem shows_ofString (text : String) :
    (ofString text).Shows ByteArray.empty text.toUTF8 :=
  ⟨⟨ByteArray.empty, by simp [ofString, Buffer.ofString, Buffer.ofBytes],
    by simp [ofString, Buffer.ofString, Buffer.ofBytes]⟩, rfl⟩

namespace Shows

variable {z : Zones} {done active : ByteArray}

/-- Skipping takes bytes off the front of what is to be scanned. -/
theorem skip {bytes : ByteArray} {n : Nat} (h : z.Shows done (bytes ++ active))
    (hn : n = bytes.size) : (z.skip n).Shows done active := by
  obtain ⟨⟨content, index⟩, passive⟩ := z
  obtain ⟨⟨gap, hcontent, hindex⟩, hpassive⟩ := h
  dsimp only at hcontent hindex hpassive
  subst hcontent hindex hpassive hn
  refine ⟨⟨gap ++ bytes, ?_, ?_⟩, rfl⟩
  · simp only [Zones.skip, Buffer.advance, ByteArray.append_assoc]
  · simp only [Zones.skip, Buffer.advance, ByteArray.size_append]
    omega

/-- Skipping more than there is leaves nothing to be scanned. -/
theorem skip_all {n : Nat} (h : z.Shows done active) (hn : active.size ≤ n) :
    (z.skip n).Shows done ByteArray.empty := by
  obtain ⟨⟨content, index⟩, passive⟩ := z
  obtain ⟨⟨gap, hcontent, hindex⟩, hpassive⟩ := h
  dsimp only at hcontent hindex hpassive
  subst hcontent hindex hpassive
  refine ⟨⟨gap ++ active, ?_, ?_⟩, rfl⟩
  · simp only [Zones.skip, Buffer.advance, ByteArray.append_empty]
  · simp only [Zones.skip, Buffer.advance, ByteArray.size_append]
    omega

/-- Transferring moves bytes from the front of what is to be scanned to the end of what is done
with. -/
theorem transfer {bytes : ByteArray} {n : Nat} (h : z.Shows done (bytes ++ active))
    (hn : n = bytes.size) : ∃ z', z.transfer? n = some z' ∧ z'.Shows (done ++ bytes) active := by
  obtain ⟨⟨content, index⟩, passive⟩ := z
  obtain ⟨⟨gap, hcontent, hindex⟩, hpassive⟩ := h
  dsimp only at hcontent hindex hpassive
  subst hcontent hindex hpassive hn
  unfold Zones.transfer?
  dsimp only
  split
  · -- There is no free space, so that nothing has to be copied.
    rename_i heq
    have hgap : gap = ByteArray.empty := ByteArray.size_eq_zero_iff.mp (by omega)
    subst hgap
    refine ⟨_, rfl, ⟨ByteArray.empty, ?_, ?_⟩, ?_⟩
    · simp only [Buffer.advance, ByteArray.empty_append, ByteArray.append_assoc]
    · simp only [Buffer.advance, ByteArray.size_append, ByteArray.size_empty]
      omega
    · simp only [ByteArray.size_append]
  · -- The bytes are written over the start of the free space and perhaps of themselves.
    obtain ⟨covered, gap', hcovered, hsize⟩ := Buffer.exists_eq_append (b := gap ++ bytes)
      (n := bytes.size) (by rw [ByteArray.size_append]; omega)
    have hgap' : gap'.size = gap.size := by
      have := congrArg ByteArray.size hcovered
      rw [ByteArray.size_append, ByteArray.size_append] at this
      omega
    have hcopied : (done ++ (gap ++ (bytes ++ active))).extract (done.size + gap.size)
        (done.size + gap.size + bytes.size) = bytes := by
      rw [← ByteArray.append_assoc, ← ByteArray.size_append]
      exact TextUnit.extract_append_middle _ _ _
    have hlayout : done ++ (gap ++ (bytes ++ active)) = done ++ (covered ++ (gap' ++ active)) := by
      rw [← ByteArray.append_assoc (a := gap), hcovered, ByteArray.append_assoc]
    have hfits : done.size + bytes.size ≤ (done ++ (gap ++ (bytes ++ active))).size := by
      rw [ByteArray.size_append, ByteArray.size_append, ByteArray.size_append]
      omega
    simp only [Buffer.copyWithin?, Buffer.overwrite?]
    rw [if_pos (by simp only [ByteArray.size_append]; omega), hcopied, if_pos hfits, hlayout,
      Buffer.overwriteBytes_append _ _ _ _ hsize]
    refine ⟨_, rfl, ⟨gap', ?_, ?_⟩, ?_⟩
    · simp only [Buffer.advance, ByteArray.append_assoc]
    · simp only [Buffer.advance, ByteArray.size_append]
      omega
    · simp only [ByteArray.size_append]

/-- Making room leaves both zones as they are. -/
theorem reserve {n : Nat} (h : z.Shows done active) :
    ∃ z', z.reserve? n = some z' ∧ z'.Shows done active ∧ z'.passive + n ≤ z'.buffer.index := by
  obtain ⟨⟨content, index⟩, passive⟩ := z
  obtain ⟨⟨gap, hcontent, hindex⟩, hpassive⟩ := h
  dsimp only at hcontent hindex hpassive
  subst hcontent hindex hpassive
  unfold Zones.reserve?
  dsimp only
  rw [if_neg (by omega)]
  split
  · -- What is missing is inserted in front of the free space.
    refine ⟨_, rfl, ⟨⟨Buffer.zeros (n - gap.size) ++ gap, ?_, ?_⟩, rfl⟩, ?_⟩
    · simp only [Buffer.insertAt, ByteArray.size_append]
      rw [Nat.min_eq_left (by omega), Buffer.insertBytes_append, Nat.add_sub_cancel_left,
        ByteArray.append_assoc]
    · simp only [Buffer.insertAt, ByteArray.size_append, Buffer.size_zeros]
      rw [Nat.min_eq_left (by omega), if_pos (by omega)]
      omega
    · simp only [Buffer.insertAt, ByteArray.size_append, Buffer.size_zeros]
      rw [Nat.min_eq_left (by omega), if_pos (by omega)]
      omega
  · exact ⟨_, rfl, ⟨⟨gap, rfl, rfl⟩, rfl⟩, by dsimp only; omega⟩

/-- An active result is put in front of what is to be scanned. -/
theorem splice_active {bytes : ByteArray} (h : z.Shows done active) :
    ∃ z', z.splice? bytes true = some z' ∧ z'.Shows done (bytes ++ active) := by
  obtain ⟨z, hreserve, hshows, hroom⟩ := h.reserve (n := bytes.size)
  unfold Zones.splice?
  rw [hreserve]
  obtain ⟨⟨content, index⟩, passive⟩ := z
  obtain ⟨⟨gap, hcontent, hindex⟩, hpassive⟩ := hshows
  dsimp only at hcontent hindex hpassive hroom
  subst hcontent hindex hpassive
  -- The end of the free space is what the result is written over.
  obtain ⟨gap', covered, rfl, hgap'⟩ := Buffer.exists_eq_append (b := gap)
    (n := gap.size - bytes.size) (by omega)
  have hcovered : covered.size = bytes.size := by
    rw [ByteArray.size_append] at hroom hgap'
    omega
  have hstart : done.size + (gap' ++ covered).size - bytes.size = (done ++ gap').size := by
    rw [ByteArray.size_append, ByteArray.size_append]
    omega
  have hlayout : done ++ (gap' ++ covered ++ active) = (done ++ gap') ++ (covered ++ active) := by
    rw [ByteArray.append_assoc, ByteArray.append_assoc]
  simp only [if_true, Buffer.overwrite?]
  rw [hstart, hlayout, if_pos (by simp only [ByteArray.size_append]; omega),
    Buffer.overwriteBytes_append _ _ _ _ hcovered]
  refine ⟨_, rfl, ⟨gap', ?_, ?_⟩, rfl⟩
  · simp only [Buffer.setIndex, ByteArray.append_assoc]
  · simp only [Buffer.setIndex, ByteArray.size_append]
    omega

/-- A passive result is put at the end of what is done with. -/
theorem splice_passive {bytes : ByteArray} (h : z.Shows done active) :
    ∃ z', z.splice? bytes false = some z' ∧ z'.Shows (done ++ bytes) active := by
  obtain ⟨z, hreserve, hshows, hroom⟩ := h.reserve (n := bytes.size)
  unfold Zones.splice?
  rw [hreserve]
  obtain ⟨⟨content, index⟩, passive⟩ := z
  obtain ⟨⟨gap, hcontent, hindex⟩, hpassive⟩ := hshows
  dsimp only at hcontent hindex hpassive hroom
  subst hcontent hindex hpassive
  -- The start of the free space is what the result is written over.
  obtain ⟨covered, gap', rfl, hcovered⟩ := Buffer.exists_eq_append (b := gap)
    (n := bytes.size) (by omega)
  simp only [Buffer.overwrite?]
  rw [ByteArray.append_assoc, if_neg (by decide),
    if_pos (by simp only [ByteArray.size_append]; omega),
    Buffer.overwriteBytes_append _ _ _ _ hcovered]
  refine ⟨_, rfl, ⟨gap', ?_, ?_⟩, ?_⟩
  · simp only [ByteArray.append_assoc]
  · simp only [ByteArray.size_append]
    omega
  · simp only [ByteArray.size_append]

/-- The bytes done with from a position on. -/
theorem doneFrom {pending : ByteArray} (h : z.Shows (done ++ pending) active) :
    z.doneFrom? done.size = some pending := by
  obtain ⟨hpassive, hindex⟩ := h.bounds
  obtain ⟨⟨gap, hcontent, -⟩, heq⟩ := h
  have hstart : done.size ≤ z.passive := by
    rw [heq, ByteArray.size_append]
    omega
  have hend : z.passive ≤ z.buffer.content.size := by omega
  unfold Zones.doneFrom?
  rw [if_pos (by simp [hstart, hend]), hcontent, heq, ByteArray.size_append, ByteArray.append_assoc]
  exact congrArg some (TextUnit.extract_append_middle _ _ _)

/-- Giving up the end of what is done with. -/
theorem drop {pending : ByteArray} (h : z.Shows (done ++ pending) active) :
    Shows { z with passive := done.size } done active := by
  obtain ⟨⟨gap, hcontent, hindex⟩, -⟩ := h
  refine ⟨⟨pending ++ gap, ?_, ?_⟩, rfl⟩
  · rw [hcontent, ByteArray.append_assoc, ByteArray.append_assoc]
  · rw [hindex, ByteArray.size_append, ByteArray.size_append, Nat.add_assoc]

end Shows

/-! ## Whole characters -/

namespace Shows

variable {z : Zones} {done : ByteArray} {active cs : List Char}

/-- The unit behind some of the characters to be scanned is the next character. -/
theorem unitAt {n : Nat} (h : z.Shows done (cs ++ active).utf8Encode)
    (hn : n = cs.utf8Encode.size) :
    z.buffer.unitAt (z.buffer.index + n) = .ok (active.head?.map .char) := by
  obtain ⟨⟨gap, hcontent, hindex⟩, -⟩ := h
  rw [List.utf8Encode_append] at hcontent
  have hdecode := TextUnit.decodeAt_utf8Encode (done ++ (gap ++ cs.utf8Encode)) active
  unfold Buffer.unitAt
  rw [hcontent, hindex, hn]
  simp only [ByteArray.size_append, ByteArray.append_assoc, Nat.add_assoc] at hdecode ⊢
  exact hdecode

/-- The unit under the cursor is the first character to be scanned. -/
theorem peek (h : z.Shows done active.utf8Encode) :
    z.buffer.peek = .ok (active.head?.map .char) := by
  have hnone : z.Shows done ([] ++ active).utf8Encode := h
  have hunit := hnone.unitAt (n := 0) (by simp)
  rwa [Nat.add_zero] at hunit

end Shows

/-- What is done with and what is to be scanned are whole characters. -/
def Holds (z : Zones) (done active : List Char) : Prop :=
  z.Shows done.utf8Encode active.utf8Encode

/-- A program of which nothing is scanned yet. -/
theorem holds_ofString (text : String) : (ofString text).Holds [] text.toList := by
  have h := shows_ofString text
  unfold Holds
  rw [String.toUTF8_eq_toByteArray] at h
  rwa [List.utf8Encode_nil, String.utf8Encode_toList]

namespace Holds

variable {z : Zones} {done active cs : List Char}

/-- Behind some characters stands the next one. -/
theorem unitAt {n : Nat} (h : z.Holds done (cs ++ active)) (hn : n = cs.utf8Encode.size) :
    z.buffer.unitAt (z.buffer.index + n) = .ok (active.head?.map .char) :=
  Shows.unitAt h hn

/-- The next unit is the next character. -/
theorem peek (h : z.Holds done active) : z.buffer.peek = .ok (active.head?.map .char) :=
  Shows.peek h

/-- Behind the end there is no unit. -/
theorem unitAt_of_size_le {n : Nat} (h : z.Holds done active)
    (hn : active.utf8Encode.size ≤ n) : z.buffer.unitAt (z.buffer.index + n) = .ok none := by
  have hsize := Shows.size_eq h
  exact TextUnit.decodeAt_of_size_le (by omega)

/-- Where a unit is found among the characters to be scanned, or their end, one of them begins. -/
theorem of_unitAt {n : Nat} {next : Option TextUnit} (h : z.Holds done active)
    (hunit : z.buffer.unitAt (z.buffer.index + n) = .ok next) :
    active.utf8Encode.size ≤ n ∨ ∃ cs rest, active = cs ++ rest ∧ n = cs.utf8Encode.size := by
  obtain ⟨⟨gap, hcontent, hindex⟩, -⟩ := h
  rcases Nat.lt_or_ge n active.utf8Encode.size with hlt | hge
  · have hsize : (done.utf8Encode ++ gap).size = z.buffer.index := by
      rw [ByteArray.size_append, hindex]
    unfold Buffer.unitAt at hunit
    rw [hcontent, ← ByteArray.append_assoc, ← hsize] at hunit
    exact .inr (TextUnit.exists_append_of_decodeAt hunit hlt)
  · exact .inl hge

/-- Characters that are skipped are gone. -/
theorem skip {n : Nat} (h : z.Holds done (cs ++ active)) (hn : n = cs.utf8Encode.size) :
    (z.skip n).Holds done active := by
  unfold Holds at h
  rw [List.utf8Encode_append] at h
  exact Shows.skip h hn

/-- Characters that are passed on are done with. -/
theorem transfer {n : Nat} (h : z.Holds done (cs ++ active)) (hn : n = cs.utf8Encode.size) :
    ∃ z', z.transfer? n = some z' ∧ z'.Holds (done ++ cs) active := by
  unfold Holds at h ⊢
  rw [List.utf8Encode_append] at h
  rw [List.utf8Encode_append]
  exact Shows.transfer h hn

/-- A text that is put in front is scanned next. -/
theorem splice_active (text : String) (h : z.Holds done active) :
    ∃ z', z.splice? text.toUTF8 true = some z' ∧ z'.Holds done (text.toList ++ active) := by
  unfold Holds
  rw [List.utf8Encode_append, String.utf8Encode_toList, String.toUTF8_eq_toByteArray]
  exact Shows.splice_active h

/-- A text that is put behind what is done is done with. -/
theorem splice_passive (text : String) (h : z.Holds done active) :
    ∃ z', z.splice? text.toUTF8 false = some z' ∧ z'.Holds (done ++ text.toList) active := by
  unfold Holds
  rw [List.utf8Encode_append, String.utf8Encode_toList, String.toUTF8_eq_toByteArray]
  exact Shows.splice_passive h

/-- What is done from a place on can be taken as bytes. -/
theorem doneFrom {n : Nat} (h : z.Holds (done ++ cs) active) (hn : n = done.utf8Encode.size) :
    z.doneFrom? n = some cs.utf8Encode := by
  unfold Holds at h
  rw [List.utf8Encode_append] at h
  rw [hn]
  exact Shows.doneFrom h

/-- What is done from a place on can be dropped. -/
theorem drop {n : Nat} (h : z.Holds (done ++ cs) active) (hn : n = done.utf8Encode.size) :
    Holds { z with passive := n } done active := by
  unfold Holds at h
  rw [List.utf8Encode_append] at h
  rw [hn]
  exact Shows.drop h

end Holds

end Zones

end TextMacro
