import TextMacro.Text.Unit

/-!
# Buffers

A buffer is a byte string with a cursor. It holds a program that is being expanded, where the cursor
is the start of the text still to be scanned, or the body of a defined string, where the cursor is
how far the string has been read. Editing keeps the cursor on the unit it was on.
-/

namespace TextMacro

/-- A byte string with a cursor. -/
structure Buffer where
  content : ByteArray
  /-- The position of the cursor; the operations keep it inside the content or at its end. -/
  index : Nat

namespace Buffer

/-- Buffers are equal when they hold the same bytes and their cursors are at the same position. -/
instance : DecidableEq Buffer := fun a b =>
  decidable_of_decidable_of_iff (p := a.content.data = b.content.data ∧ a.index = b.index) <| by
    cases a
    cases b
    simp [ByteArray.ext_iff]

/-- The empty buffer. -/
def empty : Buffer := ⟨ByteArray.empty, 0⟩

/-- A buffer of which nothing is said is empty. -/
instance : Inhabited Buffer := ⟨empty⟩

/-- A buffer with the cursor at the start. -/
def ofBytes (content : ByteArray) : Buffer := ⟨content, 0⟩

/-- A buffer that holds a text, with the cursor at the start. -/
def ofString (text : String) : Buffer := ofBytes text.toUTF8

/-- The number of bytes held. -/
def size (b : Buffer) : Nat := b.content.size

/-- Whether nothing is held. -/
def isEmpty (b : Buffer) : Bool := b.content.isEmpty

/-- Whether the cursor is at the end. -/
def atEnd (b : Buffer) : Bool := b.content.size ≤ b.index

/-- The bytes from the cursor on. -/
def remaining (b : Buffer) : ByteArray := b.content.extract b.index b.content.size

/-! ## Bytes -/

/-- A run of zero bytes. -/
def zeros (n : Nat) : ByteArray := ⟨Array.replicate n 0⟩

/-- Writes `bytes` over those of `content` from `pos` on, past its end if need be. -/
def overwriteBytes (content : ByteArray) (pos : Nat) (bytes : ByteArray) : ByteArray :=
  bytes.copySlice 0 content pos bytes.size false

/-- Puts `bytes` before position `pos` of `content`. Only what follows `pos` is moved. -/
def insertBytes (content : ByteArray) (pos : Nat) (bytes : ByteArray) : ByteArray :=
  let tail := content.extract pos content.size
  overwriteBytes (overwriteBytes content pos bytes) (pos + bytes.size) tail

/-! ## Editing -/

/-- Cuts the content off at `len`, or extends it to `len` with zeros. -/
def setLength (b : Buffer) (len : Nat) : Buffer :=
  ⟨b.content.extract 0 len ++ zeros (len - b.content.size), min b.index len⟩

/-- Adds bytes at the end. -/
def append (b : Buffer) (bytes : ByteArray) : Buffer :=
  match b with
  | ⟨content, index⟩ => ⟨content ++ bytes, index⟩

/-- Adds a unit at the end. -/
def pushUnit (b : Buffer) (u : TextUnit) : Buffer :=
  b.append u.encode

/-- Puts bytes before position `pos`, or at the end if that is before `pos`. The cursor stays on its
unit, so that it moves when the bytes come at or before it. -/
def insertAt (b : Buffer) (pos : Nat) (bytes : ByteArray) : Buffer :=
  match b with
  | ⟨content, index⟩ =>
    let pos := min pos content.size
    ⟨insertBytes content pos bytes, if pos ≤ index then index + bytes.size else index⟩

/-- Removes `count` bytes from position `pos` on, or as many as there are. -/
def removeAt (b : Buffer) (pos count : Nat) : Buffer :=
  let start := min pos b.content.size
  let stop := min (pos + count) b.content.size
  ⟨b.content.extract 0 start ++ b.content.extract stop b.content.size,
    if start < b.index then b.index - min (stop - start) (b.index - start) else b.index⟩

/-- Writes bytes over those at `pos`; nothing if they do not all lie inside the content. -/
def overwrite? (b : Buffer) (pos : Nat) (bytes : ByteArray) : Option Buffer :=
  match b with
  | ⟨content, index⟩ =>
    if pos + bytes.size ≤ content.size then some ⟨overwriteBytes content pos bytes, index⟩
    else none

/-- Copies `len` bytes from `src` to `dest`, also where the two overlap; nothing if they do not all
lie inside the content. -/
def copyWithin? (b : Buffer) (src dest len : Nat) : Option Buffer :=
  if src + len ≤ b.content.size then
    let bytes := b.content.extract src (src + len)
    b.overwrite? dest bytes
  else none

/-- Drops the content. -/
def clear (_b : Buffer) : Buffer := empty

/-- Gives the content away, which leaves an empty buffer. -/
def take (b : Buffer) : ByteArray × Buffer := (b.content, b.clear)

/-! ## The cursor -/

/-- Moves the cursor to a position, or to the end if that comes first. -/
def setIndex (b : Buffer) (index : Nat) : Buffer :=
  match b with
  | ⟨content, _⟩ =>
    let index := min index content.size
    ⟨content, index⟩

/-- Moves the cursor forward. -/
def advance (b : Buffer) (n : Nat) : Buffer :=
  match b with
  | ⟨content, index⟩ =>
    let index := min (index + n) content.size
    ⟨content, index⟩

/-- Moves the cursor to the start. -/
def resetIndex (b : Buffer) : Buffer := ⟨b.content, 0⟩

/-- The unit at a position. -/
def unitAt (b : Buffer) (pos : Nat) : Except Error (Option TextUnit) :=
  TextUnit.decodeAt b.content pos

/-- The unit under the cursor. -/
def peek (b : Buffer) : Except Error (Option TextUnit) :=
  b.unitAt b.index

end Buffer

end TextMacro
