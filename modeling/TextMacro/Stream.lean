import TextMacro.Files
import TextMacro.Text.Quoted
import TextMacro.Text.Utf8

/-!
# Streams

Streams read and write characters. A carriage return before a line feed is dropped on reading, which
needs one character of lookahead; characters that were looked at can be pushed back, up to four of
them.
-/

namespace TextMacro

/-- Where a stream reads from. -/
inductive Source where
  | memory (bytes : ByteArray)
  /-- The file at a place, as it is when it is read. -/
  | file (place : Place)

/-- What a stream is open for. -/
inductive Handle where
  | reader (source : Source)
  /-- Writes into memory. -/
  | memoryWriter
  /-- Writes to the file at a place; `pending` has not reached it yet. -/
  | fileWriter (place : Place) (pending : ByteArray)
  | closed

/-- The direction a stream is open for. -/
inductive Mode where
  | read
  | write
  deriving DecidableEq, Repr

/-- The texts written into memory. -/
structure Transcript where
  /-- The texts, the latest first. -/
  texts : List String
  /-- The number of texts. -/
  count : Nat
  count_eq : count = texts.length

namespace Transcript

/-- Nothing written. -/
def empty : Transcript := ⟨[], 0, rfl⟩

/-- Adds a text. -/
def push (t : Transcript) (text : String) : Transcript :=
  ⟨text :: t.texts, t.count + 1, congrArg (· + 1) t.count_eq⟩

/-- All that was written. -/
def joined (t : Transcript) : String := String.join t.texts.reverse

end Transcript

/-- A stream of characters. -/
structure Stream where
  name : String
  handle : Handle
  /-- The characters pushed back, the next to be read first. -/
  pushback : List Char
  /-- The number of bytes read from the source. -/
  offset : Nat
  /-- What was written into memory. -/
  written : Transcript

namespace Stream

/-- The number of characters that can be pushed back. -/
abbrev pushbackDepth : Nat := 4

/-- The number of bytes that wait in front of a file before they are written to it. -/
def pendingLimit : Nat := 8192

/-- A stream that nothing has been done with. -/
def ofHandle (name : String) (handle : Handle) : Stream := ⟨name, handle, [], 0, .empty⟩

/-- A stream that reads from memory. -/
def reader (name : String) (bytes : ByteArray) : Stream := ofHandle name (.reader (.memory bytes))

/-- A stream that writes into memory. -/
def writer (name : String) : Stream := ofHandle name .memoryWriter

/-- The direction a stream is open for. -/
def mode? (s : Stream) : Option Mode :=
  match s.handle with
  | .reader _ => some .read
  | .memoryWriter | .fileWriter _ _ => some .write
  | .closed => none

/-- Whether a stream is open. -/
def isOpen (s : Stream) : Bool := s.mode?.isSome

/-- The text written into memory. -/
def captured (s : Stream) : String := s.written.joined

/-- The description of a stream in diagnostics. -/
def describe (s : Stream) : String :=
  let mode := match s.mode? with
    | some .read => "Some(Read)"
    | some .write => "Some(Write)"
    | none => "None"
  "Stream \x7b name: " ++ Quoted.quote s.name ++ ", mode: " ++ mode ++ " \x7d"

/-! ## Opening -/

/-- Opens the file a path leads to for reading. -/
def openRead (files : Files) (path : String) : Except Error Stream :=
  match files.locate path with
  | .ok place => .ok (ofHandle path (.reader (.file place)))
  | .error problem => .error (.io path problem)

/-- Opens an empty file at a path for writing. -/
def openWrite (files : Files) (path : String) : Except Error (Stream × Files) :=
  match files.create path with
  | .ok (place, files) => .ok (ofHandle path (.fileWriter place ByteArray.empty), files)
  | .error problem => .error (.io path problem)

/-! ## Reading -/

/-- The bytes that a stream reads. -/
def bytes (files : Files) (s : Stream) : Except Error ByteArray :=
  match s.handle with
  | .reader (.memory bytes) => .ok bytes
  | .reader (.file place) =>
    match files.contentAt place with
    | .ok bytes => .ok bytes
    | .error problem => .error (.io s.name problem)
  | _ => .error (.io s.name .notReadable)

/-- An operation on a stream; an error keeps the stream it arose at. -/
abbrev Reader := EStateM Error Stream

/-- The next byte of the source, or nothing at its end. -/
def nextByte (files : Files) : Reader (Option UInt8) := fun s =>
  match s.bytes files with
  | .error e => .error e s
  | .ok bytes =>
    match bytes[s.offset]? with
    | some byte => .ok (some byte) { s with offset := s.offset + 1 }
    | none => .ok none s

/-- Adds `count` more bytes of the source to `seq`; it is an error if there are not as many. -/
def moreBytes (files : Files) (bad : Error) : Nat → ByteArray → Reader ByteArray
  | 0, seq => fun s => .ok seq s
  | count + 1, seq => fun s =>
    match nextByte files s with
    | .ok (some byte) s => moreBytes files bad count (seq.push byte) s
    | .ok none s => .error bad s
    | .error e s => .error e s

/-- The next character as it is in the source. Its first byte announces how many it has; where they
spell no character, the error has the position of the first. -/
def readRaw (files : Files) : Reader (Option Char) := fun s =>
  match nextByte files s with
  | .error e s => .error e s
  | .ok none s => .ok none s
  | .ok (some lead) s =>
    let bad := Error.badUnit (s.offset - 1)
    if lead < 0x80 then .ok (some (Char.ofUInt8 lead)) s
    else
      match Utf8.leadWidth? lead with
      | none => .error bad s
      | some width =>
        match moreBytes files bad (width - 1) [lead].toByteArray s with
        | .error e s => .error e s
        | .ok seq s =>
          match Utf8.firstChar? seq with
          | some c => .ok (some c) s
          | none => .error bad s

/-- The next character, from those pushed back or from the source. -/
def next (files : Files) : Reader (Option Char) := fun s =>
  match s.pushback with
  | c :: pushback => .ok (some c) { s with pushback }
  | [] => readRaw files s

/-- Pushes a character back, to be read next. -/
def unread (c : Char) : Reader PUnit := fun s =>
  if pushbackDepth ≤ s.pushback.length then .error (.pushbackFull s.name) s
  else .ok () { s with pushback := c :: s.pushback }

/-- The next character, where a carriage return and a line feed count as a line feed. -/
def readChar (files : Files) : Reader (Option Char) := fun s =>
  match next files s with
  | .ok (some '\r') s =>
    match next files s with
    | .ok (some '\n') s => .ok (some '\n') s
    | .ok (some other) s =>
      match unread other s with
      | .ok _ s => .ok (some '\r') s
      | .error e s => .error e s
    | .ok none s => .ok (some '\r') s
    | .error e s => .error e s
  | result => result

/-- A bound on the number of characters left to read. -/
def pending (files : Files) (s : Stream) : Nat :=
  s.pushback.length +
    match s.bytes files with
    | .ok bytes => bytes.size - s.offset
    | .error _ => 0

/-- A byte is read inside the bytes, and reading goes on behind it. -/
theorem eq_of_nextByte {files : Files} {s t : Stream} {byte : UInt8}
    (h : nextByte files s = .ok (some byte) t) :
    ∃ bytes, s.bytes files = .ok bytes ∧ s.offset < bytes.size ∧
      t = { s with offset := s.offset + 1 } := by
  unfold nextByte at h
  split at h
  · simp at h
  · rename_i bytes hbytes
    split at h
    · rename_i byte' hbyte
      obtain ⟨hlt, -⟩ := getElem?_eq_some_iff.mp hbyte
      obtain ⟨-, rfl⟩ : byte' = byte ∧ { s with offset := s.offset + 1 } = t := by simpa using h
      exact ⟨bytes, hbytes, hlt, rfl⟩
    · simp at h

/-- Further bytes are read behind those before. -/
theorem eq_of_moreBytes {files : Files} {bad : Error} {count : Nat} {seq seq' : ByteArray}
    {s t : Stream} (h : moreBytes files bad count seq s = .ok seq' t) :
    ∃ offset, s.offset ≤ offset ∧ t = { s with offset } := by
  induction count generalizing seq s with
  | zero =>
    obtain ⟨-, rfl⟩ : seq = seq' ∧ s = t := by simpa [moreBytes] using h
    exact ⟨s.offset, Nat.le_refl _, rfl⟩
  | succ count ih =>
    unfold moreBytes at h
    split at h
    · rename_i byte s₁ hbyte
      obtain ⟨bytes, -, -, rfl⟩ := eq_of_nextByte hbyte
      obtain ⟨offset, hle, rfl⟩ := ih h
      exact ⟨offset, Nat.le_of_succ_le hle, rfl⟩
    · simp at h
    · simp at h

/-- A character is read inside the bytes, and reading goes on behind it. -/
theorem eq_of_readRaw {files : Files} {s t : Stream} {c : Char}
    (h : readRaw files s = .ok (some c) t) :
    ∃ bytes offset, s.bytes files = .ok bytes ∧ s.offset < bytes.size ∧ s.offset < offset ∧
      t = { s with offset } := by
  unfold readRaw at h
  split at h
  · simp at h
  · simp at h
  · rename_i lead s₁ hlead
    obtain ⟨bytes, hbytes, hlt, rfl⟩ := eq_of_nextByte hlead
    dsimp only at h
    split at h
    · obtain ⟨-, rfl⟩ : _ ∧ { s with offset := s.offset + 1 } = t := by simpa using h
      exact ⟨bytes, s.offset + 1, hbytes, hlt, Nat.lt_succ_self _, rfl⟩
    · split at h
      · simp at h
      · split at h
        · simp at h
        · rename_i seq s₂ hseq
          obtain ⟨offset, hle, rfl⟩ := eq_of_moreBytes hseq
          split at h
          · obtain ⟨-, rfl⟩ : _ ∧ { s with offset } = t := by simpa using h
            exact ⟨bytes, offset, hbytes, hlt, hle, rfl⟩
          · simp at h

/-- The end of the source is not passed. -/
theorem eq_of_readRaw_none {files : Files} {s t : Stream} (h : readRaw files s = .ok none t) :
    t = s := by
  unfold readRaw at h
  split at h
  · simp at h
  · rename_i s₁ hend
    obtain rfl : s₁ = t := by simpa using h
    unfold nextByte at hend
    split at hend
    · simp at hend
    · split at hend
      · simp at hend
      · simpa using hend.symm
  · dsimp only at h
    split at h
    · simp at h
    · split at h
      · simp at h
      · split at h
        · simp at h
        · split at h
          · simp at h
          · simp at h

/-- Reading a character from the source leaves fewer. -/
theorem pending_lt_of_readRaw {files : Files} {s t : Stream} {c : Char}
    (h : readRaw files s = .ok (some c) t) : pending files t < pending files s := by
  obtain ⟨b, offset, hb, hlt, hnext, rfl⟩ := eq_of_readRaw h
  have hb' : bytes files { s with offset } = .ok b := hb
  unfold pending
  rw [hb, hb']
  show s.pushback.length + (b.size - offset) < s.pushback.length + (b.size - s.offset)
  omega

/-- Reading a character leaves fewer. -/
theorem pending_lt_of_next {files : Files} {s t : Stream} {c : Char}
    (h : next files s = .ok (some c) t) : pending files t < pending files s := by
  unfold next at h
  split at h
  · rename_i d rest hp
    obtain ⟨rfl, rfl⟩ : d = c ∧ { s with pushback := rest } = t := by simpa using h
    simp [pending, bytes, hp]
  · exact pending_lt_of_readRaw h

/-- The end is not passed. -/
theorem eq_of_next_none {files : Files} {s t : Stream} (h : next files s = .ok none t) :
    t = s := by
  unfold next at h
  split at h
  · simp at h
  · exact eq_of_readRaw_none h

/-- What is pushed back is left to read. -/
theorem pending_of_unread {files : Files} {s t : Stream} {c : Char} {u : PUnit}
    (h : unread c s = .ok u t) : pending files t = pending files s + 1 := by
  unfold unread at h
  split at h
  · simp at h
  · obtain rfl : { s with pushback := c :: s.pushback } = t := by simpa using h
    simp only [pending, bytes, List.length_cons]
    omega

/-- Reading a character leaves fewer, also when the lookahead is pushed back. -/
theorem pending_lt_of_readChar {files : Files} {s t : Stream} {c : Char}
    (h : readChar files s = .ok (some c) t) : pending files t < pending files s := by
  unfold readChar at h
  split at h
  · rename_i s₁ h₁
    have lt₁ := pending_lt_of_next h₁
    split at h
    · rename_i s₂ h₂
      obtain ⟨-, rfl⟩ : '\n' = c ∧ s₂ = t := by simpa using h
      exact Nat.lt_trans (pending_lt_of_next h₂) lt₁
    · rename_i other s₂ _ h₂
      have lt₂ := pending_lt_of_next h₂
      split at h
      · rename_i u s₃ h₃
        obtain ⟨-, rfl⟩ : '\r' = c ∧ s₃ = t := by simpa using h
        have : pending files s₃ = pending files s₂ + 1 := pending_of_unread h₃
        omega
      · simp at h
    · rename_i s₂ h₂
      obtain ⟨-, rfl⟩ : '\r' = c ∧ s₂ = t := by simpa using h
      rwa [eq_of_next_none h₂]
    · simp at h
  · exact pending_lt_of_next h

/-- The characters up to `stop`, which is skipped, or up to the end, onto `out`; nothing if `none` is
read and nothing was read before. -/
def readUntilFrom (files : Files) (stop : Char) (out : Option String) :
    Reader (Option String) := fun s =>
  match _h : readChar files s with
  | .error e s => .error e s
  | .ok none s => .ok out s
  | .ok (some c) s =>
    if c = stop then .ok (some (out.getD "")) s
    else readUntilFrom files stop (some ((out.getD "").push c)) s
termination_by s => pending files s
decreasing_by exact pending_lt_of_readChar _h

/-- The characters up to `stop`, which is skipped, or up to the end; nothing if there are none. -/
def readUntil (files : Files) (stop : Char) : Reader (Option String) :=
  readUntilFrom files stop none

/-- The characters up to the end, onto `out`. -/
def readToEndFrom (files : Files) (out : String) : Reader String := fun s =>
  match _h : readChar files s with
  | .error e s => .error e s
  | .ok none s => .ok out s
  | .ok (some c) s => readToEndFrom files (out.push c) s
termination_by s => pending files s
decreasing_by exact pending_lt_of_readChar _h

/-- The characters up to the end. -/
def readToEnd (files : Files) : Reader String :=
  readToEndFrom files ""

/-! ## Writing -/

/-- Refuses a stream that cannot be written to. -/
def writable (s : Stream) : Except Error PUnit :=
  match s.handle with
  | .memoryWriter | .fileWriter _ _ => .ok ()
  | _ => .error (.io s.name .notWritable)

/-- Writes a text to a stream that can be written to. What goes to a file waits until enough has
gathered. -/
def put (files : Files) (s : Stream) (text : String) : Stream × Files :=
  match s.handle with
  | .memoryWriter => ({ s with written := s.written.push text }, files)
  | .fileWriter place pending =>
    let bytes := text.toUTF8
    let (pending, files) :=
      if pendingLimit < pending.size + bytes.size then
        (ByteArray.empty, files.append place pending)
      else (pending, files)
    if pendingLimit ≤ bytes.size then
      ({ s with handle := .fileWriter place pending }, files.append place bytes)
    else ({ s with handle := .fileWriter place (pending ++ bytes) }, files)
  | _ => (s, files)

/-- Writes a text. -/
def write (files : Files) (s : Stream) (text : String) : Except Error (Stream × Files) := do
  s.writable
  return s.put files text

/-- Writes what waits. -/
def flush (files : Files) (s : Stream) : Stream × Files :=
  match s.handle with
  | .fileWriter place pending =>
    ({ s with handle := .fileWriter place ByteArray.empty }, files.append place pending)
  | _ => (s, files)

/-- Writes what waits and closes the stream. -/
def close (files : Files) (s : Stream) : Stream × Files :=
  let (s, files) := s.flush files
  ({ s with handle := .closed, pushback := [] }, files)

end Stream

end TextMacro
