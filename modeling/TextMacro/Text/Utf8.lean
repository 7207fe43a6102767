/-!
# Bytes as text

How far a byte string is well-formed UTF-8, and how damaged bytes are shown: each longest piece that
could have begun a character becomes one replacement character.
-/

namespace TextMacro.Utf8

/-- A decoded character lies inside the bytes it was decoded from. -/
theorem lt_size_of_decode {b : ByteArray} {pos : Nat} {c : Char}
    (h : b.utf8DecodeChar? pos = some c) : pos < b.size := by
  apply ByteArray.lt_size_of_isSome_utf8DecodeChar?
  simp [h]

/-- The end of the longest run of whole characters that starts at `pos`. -/
def validUpTo (b : ByteArray) (pos : Nat) : Nat :=
  match _h : b.utf8DecodeChar? pos with
  | some c => validUpTo b (pos + c.utf8Size)
  | none => pos
termination_by b.size - pos
decreasing_by
  have := lt_size_of_decode _h
  have := c.utf8Size_pos
  omega

/-- Whether a byte can only continue a character. -/
def isContinuation (x : UInt8) : Bool :=
  0x80 ≤ x && x ≤ 0xBF

/-- The number of bytes a character that begins with `lead` has, when some character does. -/
def leadWidth? (lead : UInt8) : Option Nat :=
  if lead ≤ 0x7F then some 1
  else if 0xC2 ≤ lead && lead ≤ 0xDF then some 2
  else if 0xE0 ≤ lead && lead ≤ 0xEF then some 3
  else if 0xF0 ≤ lead && lead ≤ 0xF4 then some 4
  else none

/-- The first character of bytes that are a text. -/
def firstChar? (b : ByteArray) : Option Char :=
  (String.fromUTF8? b).bind fun text => text.toList.head?

/-- The character whose bytes begin at `pos`. The first of them announces how many there are. -/
def charAt? (b : ByteArray) (pos : Nat) : Option Char :=
  b[pos]?.bind fun lead =>
    if lead < 0x80 then some (Char.ofUInt8 lead)
    else (leadWidth? lead).bind fun width =>
      if pos + width ≤ b.size then firstChar? (b.extract pos (pos + width)) else none

/-- Whether `second` can follow `lead` in some character. -/
def secondFits (lead second : UInt8) : Bool :=
  if lead = 0xE0 then 0xA0 ≤ second && second ≤ 0xBF
  else if lead = 0xED then 0x80 ≤ second && second ≤ 0x9F
  else if lead = 0xF0 then 0x90 ≤ second && second ≤ 0xBF
  else if lead = 0xF4 then 0x80 ≤ second && second ≤ 0x8F
  else isContinuation second

/-- The length of the damaged piece at `pos`: the bytes that could have begun a character, and at
least one. -/
def damagedLength (b : ByteArray) (pos : Nat) : Nat :=
  let width := (b[pos]?.bind leadWidth?).getD 1
  let lead := b[pos]?.getD 0
  if width < 2 || !(b[pos + 1]?.any (secondFits lead)) then 1
  else if width < 3 || !(b[pos + 2]?.any isContinuation) then 2
  else if width < 4 || !(b[pos + 3]?.any isContinuation) then 3
  else width

/-- A damaged piece is not empty. -/
theorem damagedLength_pos (b : ByteArray) (pos : Nat) : 0 < damagedLength b pos := by
  simp only [damagedLength]
  split
  · omega
  · split
    · omega
    · split
      · omega
      · rename_i h _ _
        simp only [Bool.or_eq_true, decide_eq_true_eq, not_or] at h
        omega

/-- Decodes from `pos` on, with a replacement character for each damaged piece, onto `out`. -/
def lossyFrom (b : ByteArray) (pos : Nat) (out : String) : String :=
  if _h : pos < b.size then
    match b.utf8DecodeChar? pos with
    | some c => lossyFrom b (pos + c.utf8Size) (out.push c)
    | none => lossyFrom b (pos + damagedLength b pos) (out.push '\uFFFD')
  else out
termination_by b.size - pos
decreasing_by
  · have := c.utf8Size_pos
    omega
  · have := damagedLength_pos b pos
    omega

/-- The text that bytes stand for, damage included. -/
def lossy (b : ByteArray) : String :=
  lossyFrom b 0 ""

end TextMacro.Utf8
