import TextMacro.MetaChars

/-!
# Frames

A frame is a call in progress: its name and the arguments collected so far. Frames are kept on a
stack of bounded depth.
-/

namespace TextMacro

/-- The number of entries a call may have, its name included. -/
abbrev maxEntries : Nat := 63

/-- A call in progress. -/
structure Frame where
  /-- The name of the function and then its arguments. -/
  args : List String
  /-- Whether the result of the call is scanned again. -/
  active : Bool
  deriving DecidableEq, Repr

namespace Frame

/-- A call of which nothing is collected yet. -/
def start (active : Bool) : Frame := ⟨[], active⟩

/-- The entry with a number, the name having zero; a missing one is empty. -/
def arg (f : Frame) (i : Nat) : String := f.args.getD i ""

/-- The name of the function. -/
def name (f : Frame) : String := f.arg 0

/-- The arguments after the name. -/
def rest (f : Frame) : List String := f.args.tail

/-- The number of arguments, without the name. -/
def argc (f : Frame) : Nat := f.rest.length

/-- Adds an entry. -/
def push (f : Frame) (text : String) : Frame := { f with args := f.args ++ [text] }

/-- The call as it would be written. -/
def render (f : Frame) (m : MetaChars) : String :=
  let start := if f.active then [m.sharp, m.opening] else [m.sharp, m.sharp, m.opening]
  String.ofList start ++ m.semi.toString.intercalate f.args ++ m.closing.toString

end Frame

/-- A stack of bounded depth. -/
structure Stack (α : Type) where
  /-- What is on the stack, the innermost first. -/
  items : List α

namespace Stack

variable {α : Type}

/-- The stack with nothing on it. -/
def empty : Stack α := ⟨[]⟩

/-- A stack of which nothing is said is empty. -/
instance : Inhabited (Stack α) := ⟨empty⟩

/-- The number of items. -/
def depth (s : Stack α) : Nat := s.items.length

/-- Puts an item on a stack that holds fewer than `limit`. -/
def push (s : Stack α) (item : α) (limit : Nat) : Except Error (Stack α) :=
  if limit ≤ s.depth then .error (.stackOverflow limit) else .ok ⟨item :: s.items⟩

/-- Takes the innermost item off. -/
def pop (s : Stack α) : Except Error (α × Stack α) :=
  match s.items with
  | [] => .error .stackUnderflow
  | item :: rest => .ok (item, ⟨rest⟩)

/-- The innermost item. -/
def top (s : Stack α) : Except Error α :=
  match s.items with
  | [] => .error .stackUnderflow
  | item :: _ => .ok item

/-- Changes the innermost item. -/
def modifyTop (s : Stack α) (f : α → α) : Except Error (Stack α) :=
  match s.items with
  | [] => .error .stackUnderflow
  | item :: rest => .ok ⟨f item :: rest⟩

/-- Adds an entry to the innermost call, which may have so many only. -/
def addEntry (s : Stack Frame) (text : String) : Except Error (Stack Frame) := do
  let frame ← s.top
  if maxEntries ≤ frame.args.length then
    throw (.tooManyArgs maxEntries)
  s.modifyTop (·.push text)

/-- Takes items off until at most `depth` are left. -/
def unwind (s : Stack α) (depth : Nat) : Stack α :=
  ⟨s.items.drop (s.depth - depth)⟩

/-- The calls as they would be written, the outermost first. -/
def describe (s : Stack Frame) (m : MetaChars) : List String :=
  s.items.reverse.map (·.render m)

end Stack

end TextMacro
