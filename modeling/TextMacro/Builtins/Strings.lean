import TextMacro.Session.Basic
import TextMacro.Text.Split

/-!
# Builtins for strings

Reading a defined string piece by piece, by its own text or by a character class, and working on
texts given as arguments.
-/

namespace TextMacro.Builtins

open TextMacro.Action

/-! ## Reading a defined string -/

/-- Yields the next character of the string that the first argument names. -/
def readChar (f : Frame) : Action String := do
  match ← readBody (f.arg 1) Buffer.readChar with
  | some c => return String.singleton c
  | none => return ""

/-- Yields the next characters of a string, as many as the second argument says. -/
def readChars (f : Frame) : Action String := do
  let n ← lift (Decimal.readCount (f.arg 2))
  readBody (f.arg 1) (Buffer.takeChars n)

/-- Skips characters of a string, as many as the second argument says. -/
def skipChars (f : Frame) : Action String := do
  let n ← lift (Decimal.readCount (f.arg 2))
  let _ ← readBody (f.arg 1) (Buffer.skipChars n)
  return ""

/-- Yields what a string has up to the next semicolon outside brackets. -/
def readItem (f : Frame) : Action String := do
  let m := (← get).chars
  readBody (f.arg 1) (Buffer.readItem m.opening m.semi m.closing)

/-- Yields what a string has up to the next mark. -/
def readSegment (f : Frame) : Action String :=
  readBody (f.arg 1) Buffer.readSegment

/-- Whether a body goes on with a text, which is then skipped. -/
def skipMatch (text : String) (body : Body) : Except Error Bool × Body :=
  match Buffer.takeChars text.length body.text with
  | .error e _ => (.error e, body)
  | .ok taken probe =>
    if taken == text then (.ok true, { body with text := body.text.setIndex probe.index })
    else (.ok false, body)

/-- Yields the third argument if the string that the second names goes on with the first, which is
then skipped, and the fourth if not. -/
def matchStart (f : Frame) : Action String := do
  let matched ← onBody (f.arg 2) (skipMatch (f.arg 1))
  return if matched then f.arg 3 else f.arg 4

/-- What a body has before the next occurrence of a text, which is then skipped; nothing if it does
not occur. -/
def skipPast (text : String) (body : Body) : Except Error (Option String) × Body :=
  let index := body.text.index
  match TextUnit.find body.text.content text.toUTF8 index with
  | none => (.ok none, body)
  | some hit =>
    match TextUnit.strip (body.text.content.extract index hit) with
    | .error e => (.error e, body)
    | .ok before =>
      (.ok (some before), { body with text := body.text.setIndex (hit + text.utf8ByteSize) })

/-- Yields what the string that the second argument names has before the first argument, which is
then skipped, and the third argument if it does not occur. -/
def scanFor (f : Frame) : Action String := do
  let before ← onBody (f.arg 2) (skipPast (f.arg 1))
  return before.getD (f.arg 3)

/-- Makes a string unread. -/
def rewind (f : Frame) : Action String := do
  let _ ← onBody (f.arg 1) fun body => (.ok (), { body with text := body.text.resetIndex })
  return ""

/-- The next character of the string of a name, which stays unread. -/
def peekChar (name : String) : Action (Option Char) := do
  let body ← lift ((← get).dict.body name)
  lift body.text.peekChar

/-- Yields the second argument if the string that the first names is read, and the third if not. -/
def ifExhausted (f : Frame) : Action String := do
  return if (← peekChar (f.arg 1)).isNone then f.arg 2 else f.arg 3

/-! ## Character classes -/

/-- Binds the first argument to the class of the characters of the second, or of all others. -/
def defineClass (negative : Bool) (f : Frame) : Action String := do
  report (.classDefined (f.arg 1) negative)
  changeDict (·.defineClass (f.arg 1) (f.arg 2) negative)
  return ""

/-- Removes classes; a name without a class is passed over. -/
def eraseClasses (f : Frame) : Action String := do
  f.rest.forM fun name => changeDict (·.eraseClass name)
  return ""

/-- Yields the next characters of the string that the second argument names, as long as they are in
the class that the first names. -/
def readClass (f : Frame) : Action String := do
  let k ← lift ((← get).dict.charClass (f.arg 1))
  readBody (f.arg 2) (Buffer.takeWhile k.contains)

/-- Skips characters of a string as long as they are in a class. -/
def skipClass (f : Frame) : Action String := do
  let k ← lift ((← get).dict.charClass (f.arg 1))
  readBody (f.arg 2) (Buffer.skipWhile k.contains)
  return ""

/-- Yields the third argument if the next character of the string that the second names is in the
class that the first names, and the fourth if not. -/
def testClass (f : Frame) : Action String := do
  let k ← lift ((← get).dict.charClass (f.arg 1))
  let next ← peekChar (f.arg 2)
  return if next.any k.contains then f.arg 3 else f.arg 4

/-- Yields the names of the classes. -/
def listClasses : Action String := do
  return ",".intercalate (← get).dict.classNames

/-! ## Texts -/

/-- Yields the first `n` characters of the second argument, or for a negative `n` all but the first
`-n`. -/
def takeText (f : Frame) : Action String := do
  let n ← lift (Decimal.read (f.arg 1))
  let cs := (f.arg 2).toList
  return String.ofList (if 0 ≤ n then cs.take n.natAbs else cs.drop n.natAbs)

/-- Yields the argument with semicolons for the commas outside parentheses. -/
def splitCommas (f : Frame) : Action String := do
  return Split.commasOf (← get).chars.escape (f.arg 1)

/-- Yields the argument with semicolons for commas and without its outer parentheses. -/
def splitGroups (f : Frame) : Action String := do
  return Split.groupsOf (← get).chars.escape (f.arg 1)

/-- Yields the argument backwards. -/
def reverseText (f : Frame) : Action String :=
  return String.ofList (f.arg 1).toList.reverse

/-- Yields the number of characters of the argument. -/
def textLength (f : Frame) : Action String :=
  return (f.arg 1).length.repr

end TextMacro.Builtins
