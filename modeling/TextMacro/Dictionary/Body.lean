import TextMacro.Buffer.Read

/-!
# Bodies of defined strings

A defined string is a text with embedded marks and a cursor up to which it has been read. Segmenting
replaces patterns by segment marks, each pattern by the next mark in turn; what stands before the
cursor is left alone.
-/

namespace TextMacro

/-- The body of a defined string. -/
structure Body where
  /-- The text with its marks; the cursor is where the next read starts. -/
  text : Buffer
  /-- The number of segment marks given out so far. -/
  segments : Nat
  deriving DecidableEq

namespace Body

/-- A body without marks. -/
def ofString (text : String) : Body := ⟨Buffer.ofString text, 0⟩

/-- Copies `content` from `pos` on to `out`, with `mark` in place of each occurrence of `pattern`,
and counts the replacements. An occurrence that overlaps one before it is not replaced. -/
def replaceFrom (content pattern mark : ByteArray) (pos : Nat) (out : ByteArray) (count : Nat) :
    ByteArray × Nat :=
  match _h : TextUnit.find content pattern pos with
  | none => (out ++ content.extract pos content.size, count)
  | some hit =>
    replaceFrom content pattern mark (hit + pattern.size)
      (out ++ content.extract pos hit ++ mark) (count + 1)
termination_by content.size - pos
decreasing_by
  have := TextUnit.find_bounds _h
  omega

/-- Puts a mark in place of each occurrence of a pattern from the cursor on, and counts the
replacements. An empty pattern does not occur. -/
def replace (body : Body) (pattern : String) (mark : TextUnit) : Nat × Body :=
  let ⟨content, index⟩ := body.text
  let (replaced, count) := replaceFrom content pattern.toUTF8 mark.encode index
    (content.extract 0 index) 0
  if count = 0 then (0, body)
  else (count, { body with text := ⟨replaced, min index replaced.size⟩ })

/-- Puts the creation mark in place of each occurrence of a pattern from the cursor on, and counts
the replacements. -/
def markCreation (body : Body) (pattern : String) : Nat × Body :=
  body.replace pattern .creation

/-- Puts the next segment marks in place of the patterns, one mark for each pattern whether it occurs
or not, and counts the replacements, `count` to begin with. The patterns before one that finds no
mark left stay replaced. -/
def segmentFrom (body : Body) (name : String) (count : Nat) :
    List String → Except Error Nat × Body
  | [] => (.ok count, body)
  | pattern :: rest =>
    match TextUnit.segment? (body.segments + 1) with
    | none => (.error (.tooManySegments name), body)
    | some mark =>
      let (replaced, body) := { body with segments := body.segments + 1 }.replace pattern mark
      body.segmentFrom name (count + replaced) rest

/-- Puts the next segment marks in place of the patterns and counts the replacements. -/
def segment (body : Body) (name : String) (patterns : List String) : Except Error Nat × Body :=
  body.segmentFrom name 0 patterns

/-- Adds text at the end and moves the cursor there. -/
def append (body : Body) (text : String) : Body :=
  let ⟨content, segments⟩ := body
  let longer := content.append text.toUTF8
  let stop := longer.size
  ⟨longer.setIndex stop, segments⟩

/-- Runs a read on the text. -/
def read {α : Type} (body : Body) (reader : Buffer.Reader α) : Except Error α × Body :=
  match reader body.text with
  | .ok a text => (.ok a, { body with text })
  | .error e text => (.error e, { body with text })

end Body

end TextMacro
