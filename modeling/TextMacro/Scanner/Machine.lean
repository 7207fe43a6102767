import TextMacro.Scanner.Expansion
import TextMacro.Scanner.Zones

/-!
# The scanner

The scanner expands a program one step at a time. Outside calls it moves text to the output; inside
a call it collects arguments, each of them at the end of what is done with, from where it is taken
off when it is complete. When a call closes, it is carried out and its text placed.

The calls in progress have their frames on a stack. What the scanner itself remembers of a call while
it collects the arguments is kept apart from the frame: where the argument starts, and the meta
characters that were in force when the call began. A call's own separators, brackets and calls are
recognised by these. How far the scanner moves over an escape, a bracket or the start of a call is
decided by the meta characters in force at that moment.
-/

namespace TextMacro

/-- The arguments of a call that are being collected. -/
structure ArgumentList where
  /-- Where the argument that is being collected starts. -/
  start : Nat
  /-- The meta characters that were in force when the call began. -/
  chars : MetaChars
  /-- Whether the text of the call is scanned again. -/
  active : Bool
  deriving DecidableEq

/-- The interpreter: a session, the program it works on, and the calls in progress. -/
structure Interpreter where
  session : Session
  zones : Zones
  /-- The frames of the calls in progress. -/
  calls : Stack Frame
  /-- The argument lists that the scanner is in, the innermost first. -/
  lists : List ArgumentList

/-- The outcome of one step of the scanner. -/
inductive Step where
  /-- There is more to do. -/
  | next (t : Interpreter)
  /-- The program is scanned, or has asked to stop. -/
  | finished (t : Interpreter)
  /-- The program fails. -/
  | raised (e : Error) (t : Interpreter)
  /-- The scanner would reach outside its buffer. -/
  | fault

namespace Interpreter

/-- An interpreter without a program. -/
def ofSession (session : Session) : Interpreter := ⟨session, .empty, .empty, []⟩

/-- Moves text between the zones. -/
def move (t : Interpreter) (movement : Zones → Progress) : Step :=
  match t with
  | ⟨session, zones, calls, lists⟩ =>
    match movement zones with
    | .moved zones => .next ⟨session, zones, calls, lists⟩
    | .failed e zones => .raised e ⟨session, zones, calls, lists⟩
    | .fault => .fault

/-- Begins a call, which has to be within the budget and the depth allowed. The characters that it
starts with have the widths of those of `current`. -/
def beginCall (t : Interpreter) (current : MetaChars) (active : Bool) : Step :=
  let ⟨session, zones, calls, lists⟩ := t
  let limit := session.props.execCount
  if limit ≤ session.execs then .raised (.execsExhausted limit) ⟨session, zones, calls, lists⟩
  else
    let session := { session with execs := session.execs + 1 }
    let zones := zones.skip (Zones.callStartWidth current active)
    match calls.push (.start active) session.props.stackSize with
    | .error e => .raised e ⟨session, zones, calls, lists⟩
    | .ok calls =>
      .next ⟨session.report (.callStarted calls.depth active), zones, calls,
        ⟨zones.passive, session.chars, active⟩ :: lists⟩

/-- Carries out the innermost call. While its function is at work, an empty frame stands in its
place on the stack; the frame is put back whether or not the function fails. -/
def invoke (session : Session) (calls : Stack Frame) :
    EStateM.Result Error (Session × Stack Frame) (Disposition × String) :=
  match calls.top with
  | .error e => .error e (session, calls)
  | .ok frame =>
    match calls.modifyTop fun _ => .start false with
    | .error e => .error e (session, calls)
    | .ok taken =>
      match Action.invoke calls.depth frame session with
      | .ok result session =>
        match taken.modifyTop fun _ => frame with
        | .error e => .error e (session, taken)
        | .ok calls => .ok result (session, calls)
      | .error e session =>
        match taken.modifyTop fun _ => frame with
        | .error e => .error e (session, taken)
        | .ok calls => .error e (session, calls)

/-- Carries out the innermost call, takes its frame off, and places its text, which is scanned again
if the call is active. Behind it the scanner is in the lists of `outer`. -/
def finishCall (t : Interpreter) (active : Bool) (outer : List ArgumentList) : Step :=
  let ⟨session, zones, calls, lists⟩ := t
  match invoke session calls with
  | .error e (session, calls) => .raised e ⟨session, zones, calls, lists⟩
  | .ok (disposition, text) (session, calls) =>
    match calls.pop with
    | .error e => .raised e ⟨session, zones, calls, lists⟩
    | .ok (_, calls) =>
      if disposition = .sideEffect || text.isEmpty then .next ⟨session, zones, calls, outer⟩
      else
        match zones.splice? text.toUTF8 active with
        | none => .fault
        | some zones => .next ⟨session, zones, calls, outer⟩

/-- Completes the argument that is collected for `list`, the innermost, at a separator of some
width, and carries the call out if the separator closes it. -/
def finishArgument (t : Interpreter) (list : ArgumentList) (outer : List ArgumentList)
    (width : Nat) (closes : Bool) : Step :=
  let ⟨session, zones, calls, lists⟩ := t
  match zones.doneFrom? list.start with
  | none => .fault
  | some bytes =>
    match TextUnit.toText bytes list.start with
    | .error e => .raised e ⟨session, zones, calls, lists⟩
    | .ok text =>
      match calls.addEntry text with
      | .error e => .raised e ⟨session, zones, calls, lists⟩
      | .ok calls =>
        let t := ⟨session, { zones with passive := list.start }.skip width, calls, lists⟩
        if closes then finishCall t list.active outer else .next t

/-- Gives up the innermost call, whose arguments were collected for `list`, and takes its frame off.
-/
def giveUp (t : Interpreter) (list : ArgumentList) (outer : List ArgumentList) : Step :=
  let ⟨session, zones, calls, lists⟩ := t
  let zones := { zones with passive := list.start }
  match calls.pop with
  | .error e => .raised e ⟨session, zones, calls, lists⟩
  | .ok (_, calls) => .next ⟨session, zones, calls, outer⟩

/-- Handles the unit under the cursor, which has been recognised by the meta characters `m`. What
follows it is read by the meta characters `current`. -/
def scanUnit (t : Interpreter) (m current : MetaChars) (u : TextUnit) : Step :=
  match u with
  | .char c =>
    match m.role c, t.lists with
    | .escape, _ => t.move (·.copyEscaped current)
    | .opening, _ => t.move (·.copyBracketed current)
    | .semi, list :: outer => t.finishArgument list outer u.width false
    | .closing, list :: outer => t.finishArgument list outer u.width true
    | .sharp, _ =>
      match t.zones.callStart current with
      | .error e => .raised e t
      | .ok (some active) => t.beginCall current active
      | .ok none => t.move (·.transfer u.width)
    | _, _ => t.move (·.transfer u.width)
  | _ => t.move (·.transfer u.width)

/-- One step of the scanner. -/
def step (t : Interpreter) : Step :=
  match t.lists with
  | [] =>
    if t.session.halt.isSome then .finished t
    else
      match t.zones.buffer.peek with
      | .error e => .raised e t
      | .ok none => .finished t
      | .ok (some u) => t.scanUnit t.session.chars t.session.chars u
  | list :: outer =>
    if t.session.halt.isSome then t.giveUp list outer
    else
      match t.zones.buffer.peek with
      | .error e => .raised e t
      | .ok none => .raised .unterminatedCall t
      | .ok (some u) => t.scanUnit list.chars t.session.chars u

/-- The end of a number of steps. -/
inductive Rest where
  | finished (t : Interpreter)
  | raised (e : Error) (t : Interpreter)
  | fault
  /-- The steps were not enough. -/
  | unfinished (t : Interpreter)

/-- Steps until the program is scanned or fails, at most `fuel` times. -/
def run : (fuel : Nat) → Interpreter → Rest
  | 0, t => .unfinished t
  | fuel + 1, t =>
    match t.step with
    | .next t => run fuel t
    | .finished t => .finished t
    | .raised e t => .raised e t
    | .fault => .fault

end Interpreter

end TextMacro
