import TextMacro.Buffer.Basic
import TextMacro.MetaChars

/-!
# Zones

A program is expanded in place. The bytes before `passive` are done with: they are output, and
behind it the parts of arguments collected so far. The bytes from the cursor of the buffer on are
still to be scanned. What lies between is free, and results are written there when they fit.
-/

namespace TextMacro

/-- A program that is being expanded. -/
structure Zones where
  buffer : Buffer
  /-- The end of the bytes that are done with. -/
  passive : Nat
  deriving DecidableEq

/-- The outcome of a movement between the zones. -/
inductive Progress where
  | moved (zones : Zones)
  /-- The text does not allow the movement; the zones are as far as it went. -/
  | failed (e : Error) (zones : Zones)
  /-- The movement would reach outside the buffer. -/
  | fault

namespace Zones

/-- The zones of an empty program. -/
def empty : Zones := ⟨.empty, 0⟩

/-- A buffer of which nothing is said has nothing in its zones. -/
instance : Inhabited Zones := ⟨empty⟩

/-- A program of which nothing is scanned yet. -/
def ofString (text : String) : Zones := ⟨.ofString text, 0⟩

/-- The bytes that are done with. -/
def done (z : Zones) : ByteArray := z.buffer.content.extract 0 z.passive

/-- The bytes still to be scanned. -/
def active (z : Zones) : ByteArray := z.buffer.remaining

/-- Moves the cursor forward over bytes that are dropped. -/
def skip (z : Zones) (n : Nat) : Zones :=
  match z with
  | ⟨buffer, passive⟩ => ⟨buffer.advance n, passive⟩

/-- Moves `n` bytes from the cursor to the end of what is done with; nothing if there are not as
many and they would have to be copied. -/
def transfer? (z : Zones) (n : Nat) : Option Zones :=
  match z with
  | ⟨buffer, passive⟩ =>
    if passive = buffer.index then some ⟨buffer.advance n, passive + n⟩
    else
      let src := buffer.index
      match buffer.copyWithin? src passive n with
      | none => none
      | some buffer => some ⟨buffer.advance n, passive + n⟩

/-- Moves `n` bytes from the cursor to the end of what is done with. -/
def transfer (z : Zones) (n : Nat) : Progress :=
  match z.transfer? n with
  | none => .fault
  | some z => .moved z

/-- The bytes that are done with from `start` on; nothing if they do not lie inside the buffer. -/
def doneFrom? (z : Zones) (start : Nat) : Option ByteArray :=
  if start ≤ z.passive && z.passive ≤ z.buffer.content.size then
    some (z.buffer.content.extract start z.passive)
  else none

/-- Makes room for at least `n` bytes between the zones; nothing if they overlap. -/
def reserve? (z : Zones) (n : Nat) : Option Zones :=
  match z with
  | ⟨buffer, passive⟩ =>
    if buffer.index < passive then none
    else
      let gap := buffer.index - passive
      if gap < n then some ⟨buffer.insertAt passive (Buffer.zeros (n - gap)), passive⟩
      else some ⟨buffer, passive⟩

/-- Places the result of a call: an active one in front of the text to be scanned, a passive one at
the end of what is done with. -/
def splice? (z : Zones) (bytes : ByteArray) (active : Bool) : Option Zones :=
  match z.reserve? bytes.size with
  | none => none
  | some ⟨buffer, passive⟩ =>
    if active then
      let start := buffer.index - bytes.size
      match buffer.overwrite? start bytes with
      | none => none
      | some buffer => some ⟨buffer.setIndex start, passive⟩
    else
      match buffer.overwrite? passive bytes with
      | none => none
      | some buffer => some ⟨buffer, passive + bytes.size⟩

/-! ## Movements by syntax -/

/-- Whether a call starts at the cursor, and if so whether it is active. -/
def callStart (z : Zones) (m : MetaChars) : Except Error (Option Bool) := do
  let pos := z.buffer.index + m.sharp.utf8Size
  match ← z.buffer.unitAt pos with
  | some (.char c) =>
    if c = m.opening then return some true
    else if c = m.sharp then
      let next ← z.buffer.unitAt (pos + c.utf8Size)
      return if next = some (.char m.opening) then some false else none
    else return none
  | _ => return none

/-- The width of the characters that a call starts with. -/
def callStartWidth (m : MetaChars) (active : Bool) : Nat :=
  m.sharp.utf8Size + m.opening.utf8Size + (if active then 0 else m.sharp.utf8Size)

/-- Drops the escape at the cursor and moves the unit behind it. An escape at the end of the text is
moved itself. -/
def copyEscaped (z : Zones) (m : MetaChars) : Progress :=
  let width := m.escape.utf8Size
  match z.buffer.unitAt (z.buffer.index + width) with
  | .error e => .failed e z
  | .ok none => z.transfer width
  | .ok (some next) => (z.skip width).transfer next.width

/-- Overwriting keeps the size. -/
theorem size_overwriteBytes {content bytes : ByteArray} {pos : Nat}
    (h : pos + bytes.size ≤ content.size) :
    (Buffer.overwriteBytes content pos bytes).size = content.size := by
  simp only [Buffer.overwriteBytes, ByteArray.copySlice_eq_append, ByteArray.size_append,
    ByteArray.size_extract, ByteArray.size_data]
  omega

/-- Moving bytes keeps the size of the buffer and moves the cursor. -/
theorem transfer?_bounds {z z' : Zones} {n : Nat} (h : z.transfer? n = some z') :
    z'.buffer.content.size = z.buffer.content.size ∧
      z'.buffer.index = min (z.buffer.index + n) z.buffer.content.size := by
  obtain ⟨⟨content, index⟩, passive⟩ := z
  simp only [transfer?] at h
  split at h
  · obtain rfl := Option.some.inj h
    simp [Buffer.advance]
  · simp only [Buffer.copyWithin?, Buffer.overwrite?] at h
    split at h
    · simp at h
    · rename_i b hb
      obtain rfl := Option.some.inj h
      split at hb
      · split at hb
        · rename_i hle
          obtain rfl := Option.some.inj hb
          simp [Buffer.advance, size_overwriteBytes hle]
        · simp at hb
      · simp at hb

/-- Moving one or more bytes from a cursor inside the buffer leaves fewer to scan. -/
theorem size_sub_lt_of_transfer? {z z' : Zones} {n : Nat} (h : z.transfer? n = some z')
    (hn : 0 < n) (hlt : z.buffer.index < z.buffer.content.size) :
    z'.buffer.content.size - z'.buffer.index < z.buffer.content.size - z.buffer.index := by
  obtain ⟨hsize, hindex⟩ := transfer?_bounds h
  omega

/-- The number of open brackets after a unit. -/
def depthAfter (m : MetaChars) (depth : Nat) (u : TextUnit) : Nat :=
  if u = .char m.escape then depth
  else if u = .char m.opening then depth + 1
  else if u = .char m.closing then depth - 1
  else depth

/-- The width of what a unit at the cursor takes along: an escape takes the unit behind it. -/
def takenAlong (z : Zones) (m : MetaChars) (u : TextUnit) : Except Error Nat :=
  if u = .char m.escape then
    match z.buffer.unitAt (z.buffer.index + u.width) with
    | .error e => .error e
    | .ok none => .ok 0
    | .ok (some next) => .ok next.width
  else .ok 0

/-- Moves what is inside brackets of which `depth` are open, up to the one that closes the outermost,
which is dropped. -/
def copyBracketedFrom (m : MetaChars) (z : Zones) (depth : Nat) : Progress :=
  match _hp : z.buffer.peek with
  | .error e => .failed e z
  | .ok none => .failed .unbalancedBracket z
  | .ok (some u) =>
    let after := depthAfter m depth u
    if after = 0 then .moved (z.skip u.width)
    else
      match z.takenAlong m u with
      | .error e => .failed e z
      | .ok along =>
        match _ht : z.transfer? (u.width + along) with
        | none => .fault
        | some z => copyBracketedFrom m z after
termination_by z.buffer.content.size - z.buffer.index
decreasing_by
  have hpos := u.width_pos
  exact size_sub_lt_of_transfer? _ht (by omega) (TextUnit.lt_size_of_decodeAt _hp)

/-- Moves the bracketed text at the cursor without its outer brackets. Brackets and escapes inside
are moved as they are. -/
def copyBracketed (z : Zones) (m : MetaChars) : Progress :=
  copyBracketedFrom m (z.skip m.opening.utf8Size) 1

end Zones

end TextMacro
