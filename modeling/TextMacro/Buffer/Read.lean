import TextMacro.Buffer.Basic

/-!
# Reading a buffer

The operations by which a defined string is read piece by piece. They see the characters of the
buffer: marks are stepped over and never returned. Each moves the cursor past what it has read, also
when it then meets bytes that are no unit.
-/

namespace TextMacro.Buffer

/-- The next character at or after `pos`, with the position behind it. -/
def charFrom (b : ByteArray) (pos : Nat) : Nat × Except Error (Option Char) :=
  match _h : TextUnit.decodeAt b pos with
  | .error e => (pos, .error e)
  | .ok none => (pos, .ok none)
  | .ok (some (.char c)) => (pos + c.utf8Size, .ok (some c))
  | .ok (some u) => charFrom b (pos + u.width)
termination_by b.size - pos
decreasing_by exact TextUnit.size_sub_lt_of_decodeAt _h

/-- Reading a character moves towards the end. -/
theorem size_sub_lt_of_charFrom {b : ByteArray} {pos next : Nat} {c : Char}
    (h : charFrom b pos = (next, .ok (some c))) : b.size - next < b.size - pos := by
  fun_induction charFrom b pos with
  | case1 pos e hd => simp at h
  | case2 pos hd => simp at h
  | case3 pos d hd =>
    obtain ⟨rfl, -⟩ := Prod.mk.inj h
    exact TextUnit.size_sub_lt_of_decodeAt (u := .char d) hd
  | case4 pos u hu hd ih =>
    have := ih h
    have := TextUnit.size_sub_lt_of_decodeAt hd
    omega

/-- Up to `n` characters from `pos` on, onto `out`. -/
def charsFrom (b : ByteArray) : Nat → Nat → String → Nat × Except Error String
  | 0, pos, out => (pos, .ok out)
  | n + 1, pos, out =>
    match charFrom b pos with
    | (next, .ok (some c)) => charsFrom b n next (out.push c)
    | (next, .ok none) => (next, .ok out)
    | (next, .error e) => (next, .error e)

/-- The characters from `pos` on for as long as `keep` holds of them, onto `out`. The position is
that of the first character refused. -/
def charsWhileFrom (b : ByteArray) (keep : Char → Bool) (pos : Nat) (out : String) :
    Nat × Except Error String :=
  match _h : TextUnit.decodeAt b pos with
  | .error e => (pos, .error e)
  | .ok none => (pos, .ok out)
  | .ok (some (.char c)) =>
    if keep c then charsWhileFrom b keep (pos + c.utf8Size) (out.push c) else (pos, .ok out)
  | .ok (some u) => charsWhileFrom b keep (pos + u.width) out
termination_by b.size - pos
decreasing_by
  · exact TextUnit.size_sub_lt_of_decodeAt (u := .char c) _h
  · exact TextUnit.size_sub_lt_of_decodeAt _h

/-- The characters from `pos` up to the next mark, onto `out`. The position is behind the mark. -/
def segmentFrom (b : ByteArray) (pos : Nat) (out : String) : Nat × Except Error String :=
  match _h : TextUnit.decodeAt b pos with
  | .error e => (pos, .error e)
  | .ok none => (pos, .ok out)
  | .ok (some (.char c)) => segmentFrom b (pos + c.utf8Size) (out.push c)
  | .ok (some u) => (pos + u.width, .ok out)
termination_by b.size - pos
decreasing_by exact TextUnit.size_sub_lt_of_decodeAt (u := .char c) _h

/-- The characters from `pos` up to the next `stop` that is outside brackets, onto `out`, where
`depth` brackets are open. The position is behind `stop`. A closing bracket too many is ignored. -/
def itemFrom (b : ByteArray) (opening stop closing : Char) (pos depth : Nat) (out : String) :
    Nat × Except Error String :=
  match _h : charFrom b pos with
  | (next, .error e) => (next, .error e)
  | (next, .ok none) => (next, .ok out)
  | (next, .ok (some c)) =>
    if c = stop && depth = 0 then (next, .ok out)
    else
      let depth := if c = opening then depth + 1 else if c = closing then depth - 1 else depth
      itemFrom b opening stop closing next depth (out.push c)
termination_by b.size - pos
decreasing_by exact size_sub_lt_of_charFrom _h

/-- An operation that reads a buffer and moves its cursor; an error keeps the cursor it arose at. -/
abbrev Reader := EStateM Error Buffer

/-- Runs a scan of the content from the cursor, and leaves the cursor where the scan stopped. -/
def scanning {α : Type} (scan : ByteArray → Nat → Nat × Except Error α) : Reader α := fun b =>
  match scan b.content b.index with
  | (index, .ok a) => .ok a { b with index }
  | (index, .error e) => .error e { b with index }

/-- The unit under the cursor, which moves past it. -/
def readUnit : Reader (Option TextUnit) :=
  scanning fun content pos =>
    match TextUnit.decodeAt content pos with
    | .error e => (pos, .error e)
    | .ok none => (pos, .ok none)
    | .ok (some u) => (pos + u.width, .ok (some u))

/-- The next character. -/
def readChar : Reader (Option Char) :=
  scanning charFrom

/-- Up to `n` characters. -/
def takeChars (n : Nat) : Reader String :=
  scanning fun content pos => charsFrom content n pos ""

/-- Skips up to `n` characters and tells how many. -/
def skipChars (n : Nat) : Reader Nat :=
  String.length <$> takeChars n

/-- The characters for as long as `keep` holds of them. -/
def takeWhile (keep : Char → Bool) : Reader String :=
  scanning fun content pos => charsWhileFrom content keep pos ""

/-- Skips the characters for as long as `keep` holds of them. -/
def skipWhile (keep : Char → Bool) : Reader PUnit :=
  (fun _ => ()) <$> takeWhile keep

/-- The characters up to the next mark, which is skipped. -/
def readSegment : Reader String :=
  scanning fun content pos => segmentFrom content pos ""

/-- The characters up to the next `stop` outside brackets, which is skipped. -/
def readItem (opening stop closing : Char) : Reader String :=
  scanning fun content pos => itemFrom content opening stop closing pos 0 ""

/-- The next character; the cursor stays. -/
def peekChar (b : Buffer) : Except Error (Option Char) :=
  (charFrom b.content b.index).2

end TextMacro.Buffer
