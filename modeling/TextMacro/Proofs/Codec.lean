import Mathlib.Logic.ExistsUnique
import Mathlib.Order.Bounds.Defs
import TextMacro.Proofs.Units

/-!
# Units and byte strings

Sequences of units and the byte strings that pass `validate` are two forms of the same thing: every
sequence is decoded from its bytes, and every byte string that passes consists of the bytes of one
sequence, and of one only. What fails does so where its longest part that is a sequence of units
ends (`units_codec`).

The check and the decoder step from unit to unit alike. The check passes over the units that bytes
begin with, whatever follows them (`validateFrom_behind`), and everything before the place where it
fails is units (`validateFrom_error`): so no sequence of units goes further than that place.
-/

namespace TextMacro.TextUnit

variable {b : ByteArray} {pos : Nat}

/-- How far bytes can be read as units: the lengths of the parts at their start that are sequences
of units. -/
def readable (b : ByteArray) : Set Nat :=
  {n | n ≤ b.size ∧ ∃ units, encodeAll units = b.extract 0 n}

/-! ## Sequences of units -/

/-- The bytes of a sequence are decoded to the sequence. -/
theorem decodeFrom_encodeAll (units : List TextUnit) :
    decodeFrom (encodeAll units) 0 = (units, none) :=
  (splits_encodeAll units).decodeFrom_eq

/-- Two sequences do not have the same bytes. -/
theorem encodeAll_injective {xs ys : List TextUnit} (h : encodeAll xs = encodeAll ys) :
    xs = ys := by
  have hxs := decodeFrom_encodeAll xs
  rw [h, decodeFrom_encodeAll ys] at hxs
  exact (Prod.mk.inj hxs).1.symm

/-- The bytes that pass the check are those of the sequences. -/
theorem validate_eq_ok_iff : validate b = .ok () ↔ ∃ units, encodeAll units = b := by
  constructor
  · intro h
    obtain ⟨units, hunits⟩ := splits_of_validate h
    exact ⟨units, by simpa using hunits.bytes.symm⟩
  · rintro ⟨units, rfl⟩
    exact (splits_encodeAll units).validateFrom_eq

/-! ## Where the check fails -/

/-- The check passes over units, whatever stands behind them. -/
theorem validateFrom_behind (before rest : ByteArray) (units : List TextUnit) :
    validateFrom (before ++ (encodeAll units ++ rest)) before.size
      = validateFrom (before ++ (encodeAll units ++ rest))
          (before.size + (encodeAll units).size) := by
  induction units generalizing before with
  | nil => simp
  | cons u units ih =>
    have hbytes : before ++ (encodeAll (u :: units) ++ rest)
        = (before ++ u.encode) ++ (encodeAll units ++ rest) := by
      simp only [encodeAll_cons, ByteArray.append_assoc]
    have hunit : decodeAt (before ++ (encodeAll (u :: units) ++ rest)) before.size
        = .ok (some u) := by
      rw [encodeAll_cons, ByteArray.append_assoc]
      exact decodeAt_encode before _ u
    have hwidth : before.size + u.width = (before ++ u.encode).size := by
      rw [ByteArray.size_append, size_encode]
    have hsize : before.size + (encodeAll (u :: units)).size
        = (before ++ u.encode).size + (encodeAll units).size := by
      rw [encodeAll_cons, ByteArray.size_append, ByteArray.size_append, Nat.add_assoc]
    conv => lhs; rw [validateFrom_round, hunit]
    dsimp only
    rw [hwidth, hsize, hbytes]
    exact ih (before ++ u.encode)

/-- Everything before the place where the check fails is units. -/
theorem validateFrom_error {e : Error} (h : validateFrom b pos = .error e) :
    ∃ stop, e = .badUnit stop ∧ pos ≤ stop ∧ stop ≤ b.size ∧
      ∃ units, encodeAll units = b.extract pos stop := by
  fun_induction validateFrom b pos with
  | case1 pos e' hunit =>
    obtain rfl : e' = e := by simpa using h
    have hle : pos ≤ b.size := by
      refine Nat.le_of_not_lt fun hgt => ?_
      rw [decodeAt_of_size_le (Nat.le_of_lt hgt)] at hunit
      simp at hunit
    refine ⟨pos, malformed_of_decodeAt hunit, Nat.le_refl pos, hle, [], ?_⟩
    rw [encodeAll_nil, eq_comm, ByteArray.extract_eq_empty_iff]
    omega
  | case2 pos hend => simp at h
  | case3 pos u hunit ih =>
    obtain ⟨stop, rfl, hfrom, hle, units, hunits⟩ := ih h
    obtain ⟨-, hextract⟩ := extract_eq_encode_of_decodeAt hunit
    refine ⟨stop, rfl, by omega, hle, u :: units, ?_⟩
    rw [encodeAll_cons, ← hextract, hunits]
    exact (ByteArray.extract_eq_extract_append_extract _ (by omega) hfrom).symm

/-- A part at the start that is a sequence of units ends before the check fails. -/
theorem le_of_validate_error {n stop : Nat} (h : validate b = .error (.badUnit stop))
    (hn : n ∈ readable b) : n ≤ stop := by
  obtain ⟨hle, units, hunits⟩ := hn
  have hsize : (encodeAll units).size = n := by
    rw [hunits, ByteArray.size_extract]
    omega
  have hbytes : b = ByteArray.empty ++ (encodeAll units ++ b.extract n b.size) := by
    rw [hunits, ByteArray.empty_append,
      ← ByteArray.extract_eq_extract_append_extract _ (Nat.zero_le n) hle,
      ByteArray.extract_zero_size]
  have hpassed : validateFrom b n = .error (.badUnit stop) := by
    have hbehind := validateFrom_behind ByteArray.empty (b.extract n b.size) units
    rw [← hbytes, hsize, ByteArray.size_empty, Nat.zero_add] at hbehind
    exact hbehind.symm.trans h
  obtain ⟨stop', hstop, hfrom, -⟩ := validateFrom_error hpassed
  obtain rfl : stop = stop' := by simpa using hstop
  exact hfrom

/-- What does not pass the check fails where its longest part that is a sequence of units ends. -/
theorem isGreatest_of_validate_ne_ok (h : validate b ≠ .ok ()) :
    ∃ stop, validate b = .error (.badUnit stop) ∧ IsGreatest (readable b) stop := by
  cases hcheck : validate b with
  | ok u => exact absurd hcheck h
  | error e =>
    obtain ⟨stop, rfl, -, hle, hunits⟩ := validateFrom_error hcheck
    exact ⟨stop, rfl, ⟨hle, hunits⟩, fun _ hn => le_of_validate_error hcheck hn⟩

/-! ## Marks -/

/-- The tags read as marks only. -/
theorem isMark_of_ofTag? {tag : UInt8} {u : TextUnit} (h : ofTag? tag = some u) :
    u.isMark = true := by
  unfold ofTag? segment? at h
  split at h
  · obtain rfl := Option.some.inj h
    rfl
  · split at h
    · obtain rfl := Option.some.inj h
      rfl
    · simp at h

/-- A mark is decoded exactly where the byte that marks begin with stands. -/
theorem isMark_iff_of_decodeAt {u : TextUnit} (h : decodeAt b pos = .ok (some u)) :
    u.isMark = true ↔ b[pos]? = some 0xFF := by
  have hlt := lt_size_of_decodeAt h
  have hbyte : b[pos]? = some b[pos] := getElem?_eq_some_iff.mpr ⟨hlt, rfl⟩
  rw [hbyte, Option.some.injEq]
  unfold decodeAt at h
  rw [dif_pos hlt] at h
  split at h
  · rename_i hlead
    split at h
    · rename_i mark hmark
      obtain rfl : mark = u := by simpa using h
      obtain ⟨tag, -, htag⟩ := Option.bind_eq_some_iff.mp hmark
      exact iff_of_true (isMark_of_ofTag? htag) hlead
    · simp at h
  · rename_i hlead
    split at h
    · rename_i c hc
      obtain rfl : char c = u := by simpa using h
      exact iff_of_false Bool.false_ne_true hlead
    · simp at h

/-! ## The codec -/

/-- Every sequence of units is decoded from its bytes, and then there is nothing more. The bytes
that pass the check are those of the sequences; each is the bytes of one sequence only, and decoding
it and encoding the units again gives it back. What does not pass fails where its longest part that
is a sequence of units ends. And a mark is decoded exactly where the byte `0xFF` stands. -/
theorem units_codec :
    (∀ units, decodeFrom (encodeAll units) 0 = (units, none)) ∧
    ∀ b, (validate b = .ok () ↔ ∃ units, encodeAll units = b) ∧
      (validate b = .ok () →
        (∃! units, encodeAll units = b) ∧ encodeAll (decodeFrom b 0).1 = b) ∧
      (validate b ≠ .ok () →
        ∃ stop, validate b = .error (.badUnit stop) ∧ IsGreatest (readable b) stop) ∧
      ∀ pos u, decodeAt b pos = .ok (some u) → (u.isMark = true ↔ b[pos]? = some 0xFF) := by
  refine ⟨decodeFrom_encodeAll, fun b => ⟨validate_eq_ok_iff, fun h => ?_,
    isGreatest_of_validate_ne_ok, fun pos u => isMark_iff_of_decodeAt⟩⟩
  obtain ⟨units, rfl⟩ := validate_eq_ok_iff.mp h
  refine ⟨⟨units, rfl, fun others hothers => encodeAll_injective hothers⟩, ?_⟩
  rw [decodeFrom_encodeAll]

end TextMacro.TextUnit
