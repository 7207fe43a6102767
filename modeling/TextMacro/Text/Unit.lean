import TextMacro.Error
import TextMacro.Text.Utf8

/-!
# Text units

The body of a defined string is a sequence of units: characters, segment marks that stand for the
arguments of a call, and creation marks that stand for a generated token. Characters are stored as
UTF-8. A mark is the byte `0xFF`, which UTF-8 never uses, followed by a tag byte.
-/

namespace TextMacro

/-- The number of different segment marks. -/
abbrev segmentLimit : Nat := 62

/-- One unit of text. -/
inductive TextUnit where
  /-- A character that stands for itself. -/
  | char (c : Char)
  /-- The place of an argument of the call that expands the body; `slot` counts from zero. -/
  | segment (slot : Fin segmentLimit)
  /-- The place of the token generated for an expansion. -/
  | creation
  deriving DecidableEq, Repr

namespace TextUnit

/-- The byte that every mark begins with. -/
def markLead : UInt8 := 0xFF

/-- The tag byte of the segment mark for argument zero of a call, which no mark has: the marks for
the arguments that follow the name count up from it. -/
def segmentTag : Nat := 0x80

/-- The tag byte of the creation mark. -/
def creationTag : Nat := 0xBF

/-- The number of bytes a unit is stored in. -/
def width : TextUnit → Nat
  | char c => c.utf8Size
  | segment _ | creation => 2

/-- Whether a unit is a mark. -/
def isMark : TextUnit → Bool
  | char _ => false
  | segment _ | creation => true

/-- The argument that a segment mark stands for, counted with the name of the call as zero. -/
def argument (slot : Fin segmentLimit) : Nat := slot.val + 1

/-- The segment mark for argument `index` of a call. -/
def segment? (index : Nat) : Option TextUnit :=
  if h : 1 ≤ index ∧ index ≤ segmentLimit then
    some (segment ⟨index - 1, by omega⟩)
  else none

/-- The bytes of a unit. -/
def encode : TextUnit → ByteArray
  | char c => (String.utf8EncodeChar c).toByteArray
  | segment slot => [markLead, (segmentTag + argument slot).toUInt8].toByteArray
  | creation => [markLead, creationTag.toUInt8].toByteArray

/-- The bytes of a sequence of units. -/
def encodeAll (units : List TextUnit) : ByteArray :=
  units.foldl (fun out unit => out ++ unit.encode) ByteArray.empty

/-- The mark with a given tag byte. -/
def ofTag? (tag : UInt8) : Option TextUnit :=
  if tag.toNat = creationTag then some creation
  else segment? (tag.toNat - segmentTag)

/-- The unit at `pos`, or nothing at the end. Bytes that are no unit are an error that carries their
position. -/
def decodeAt (b : ByteArray) (pos : Nat) : Except Error (Option TextUnit) :=
  if h : pos < b.size then
    if b[pos] = markLead then
      match b[pos + 1]?.bind ofTag? with
      | some mark => .ok (some mark)
      | none => .error (.badUnit pos)
    else
      match Utf8.charAt? b pos with
      | some c => .ok (some (char c))
      | none => .error (.badUnit pos)
  else .ok none

/-- A unit takes at least one byte. -/
theorem width_pos (u : TextUnit) : 0 < u.width := by
  cases u with
  | char c => exact c.utf8Size_pos
  | segment _ => exact Nat.two_pos
  | creation => exact Nat.two_pos

/-- A unit is decoded only inside the bytes. -/
theorem lt_size_of_decodeAt {b : ByteArray} {pos : Nat} {u : TextUnit}
    (h : decodeAt b pos = .ok (some u)) : pos < b.size := by
  unfold decodeAt at h
  split at h
  · assumption
  · simp at h

/-- Decoding steps closer to the end. -/
theorem size_sub_lt_of_decodeAt {b : ByteArray} {pos : Nat} {u : TextUnit}
    (h : decodeAt b pos = .ok (some u)) : b.size - (pos + u.width) < b.size - pos := by
  have := lt_size_of_decodeAt h
  have := u.width_pos
  omega

/-- The units from `pos` on, and the error at the bytes that are none, if there are such. -/
def decodeFrom (b : ByteArray) (pos : Nat) : List TextUnit × Option Error :=
  match _h : decodeAt b pos with
  | .error e => ([], some e)
  | .ok none => ([], none)
  | .ok (some u) =>
    let (rest, stopped) := decodeFrom b (pos + u.width)
    (u :: rest, stopped)
termination_by b.size - pos
decreasing_by exact size_sub_lt_of_decodeAt _h

/-- Refuses bytes from `pos` on that are not a sequence of units. -/
def validateFrom (b : ByteArray) (pos : Nat) : Except Error PUnit :=
  match _h : decodeAt b pos with
  | .error e => .error e
  | .ok none => .ok ()
  | .ok (some u) => validateFrom b (pos + u.width)
termination_by b.size - pos
decreasing_by exact size_sub_lt_of_decodeAt _h

/-- Refuses bytes that are not a sequence of units. -/
def validate (b : ByteArray) : Except Error PUnit :=
  validateFrom b 0

/-- Whether the bytes begin with a mark. -/
def startsWithMark (b : ByteArray) : Bool :=
  match decodeAt b 0 with
  | .ok (some u) => u.isMark
  | _ => false

/-- Whether two byte strings begin with the same unit. -/
def sameFirst (a b : ByteArray) : Bool :=
  match decodeAt a 0, decodeAt b 0 with
  | .ok (some x), .ok (some y) => x = y
  | _, _ => false

/-- The characters from `pos` on, without the marks, onto `out`. -/
def stripFrom (b : ByteArray) (pos : Nat) (out : String) : Except Error String :=
  match _h : decodeAt b pos with
  | .error e => .error e
  | .ok none => .ok out
  | .ok (some (.char c)) => stripFrom b (pos + c.utf8Size) (out.push c)
  | .ok (some u) => stripFrom b (pos + u.width) out
termination_by b.size - pos
decreasing_by
  · exact size_sub_lt_of_decodeAt (u := char c) _h
  · exact size_sub_lt_of_decodeAt _h

/-- The characters of a sequence of units, without the marks. -/
def strip (b : ByteArray) : Except Error String :=
  stripFrom b 0 ""

/-- The number of positions that a word of 64 bits can tell apart. -/
def positions : Nat := 18446744073709551616

/-- The text that the bytes spell; marks are refused. Errors count positions from `base`, in words of
64 bits. -/
def toText (b : ByteArray) (base : Nat) : Except Error String :=
  match String.fromUTF8? b with
  | some text => .ok text
  | none => .error (.badUnit ((base + Utf8.validUpTo b 0) % positions))

/-- Whether `needle` stands at `pos`. -/
def occursAt (b needle : ByteArray) (pos : Nat) : Bool :=
  b.extract pos (pos + needle.size) == needle

/-- The first place at or after `pos` where `needle` stands, an empty one included. -/
def findFrom (b needle : ByteArray) (pos : Nat) : Option Nat :=
  if pos + needle.size ≤ b.size then
    if occursAt b needle pos then some pos else findFrom b needle (pos + 1)
  else none
termination_by b.size + 1 - pos

/-- The first place at or after `pos` where `needle` stands. An empty needle is nowhere. -/
def find (b needle : ByteArray) (pos : Nat) : Option Nat :=
  if needle.isEmpty then none else findFrom b needle pos

/-- A place found is not before the start of the search, and the needle lies inside the bytes. -/
theorem findFrom_bounds {b needle : ByteArray} {pos hit : Nat}
    (h : findFrom b needle pos = some hit) : pos ≤ hit ∧ hit + needle.size ≤ b.size := by
  fun_induction findFrom b needle pos with
  | case1 pos hle hocc =>
    obtain rfl : pos = hit := by simpa using h
    exact ⟨Nat.le_refl _, hle⟩
  | case2 pos hle hocc ih =>
    have := ih h
    omega
  | case3 pos hgt => simp at h

/-- A needle found is not empty, stands at or after the start of the search and lies inside the
bytes. -/
theorem find_bounds {b needle : ByteArray} {pos hit : Nat} (h : find b needle pos = some hit) :
    0 < needle.size ∧ pos ≤ hit ∧ hit + needle.size ≤ b.size := by
  unfold find at h
  split at h
  · simp at h
  · rename_i hne
    have hpos : needle.size ≠ 0 := by simpa [ByteArray.isEmpty] using hne
    exact ⟨Nat.pos_of_ne_zero hpos, findFrom_bounds h⟩

end TextUnit

end TextMacro
