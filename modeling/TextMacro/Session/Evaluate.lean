import TextMacro.Scanner.Machine

/-!
# Evaluating programs

A program is evaluated to the text it leaves. When it fails, the failure tells which calls were in
progress and what stood around the cursor, and the session can go on with the next program.
-/

namespace TextMacro

/-- An error that ended a program, with the state it arose in. -/
structure Failure where
  error : Error
  /-- The calls in progress, the outermost first. -/
  frames : List String
  /-- The end of the text that was done with. -/
  passive : String
  /-- The start of the text that was still to be scanned. -/
  active : String
  deriving DecidableEq, Repr

namespace Failure

/-- The number of characters that are shown on each side of the cursor. -/
def contextLength : Nat := 40

/-- The report of a failure, the innermost call first. -/
def report (f : Failure) : String :=
  let calls := f.frames.zipIdx.reverse.map fun (frame, depth) =>
    "\n  [" ++ Decimal.renderPadded 2 depth ++ "] " ++ frame
  f.error.kind.word ++ " error: " ++ f.error.message ++ String.join calls ++ "\n  near: ..."
    ++ f.passive ++ "^" ++ f.active ++ "..."

end Failure

/-- What a program comes to. -/
structure Outcome where
  /-- The text it leaves. -/
  output : String
  /-- The status with which it asked to stop, if it did. -/
  exit : Option Int
  deriving DecidableEq, Repr

/-- How something that runs programs ends. -/
inductive Ending (ε α : Type) where
  | ok (value : α)
  | error (e : ε)
  /-- The scanner reached outside its buffer. -/
  | fault
  /-- The steps allowed were not enough. -/
  | unfinished

/-- Changes the value or the error of an ending. -/
def Ending.map {ε δ α β : Type} (f : α → β) (g : ε → δ) : Ending ε α → Ending δ β
  | ok a => .ok (f a)
  | error e => .error (g e)
  | fault => .fault
  | unfinished => .unfinished

namespace Interpreter

/-- The text that is done with; nothing if it is said to reach outside the buffer. -/
def doneText? (t : Interpreter) : Option String :=
  Utf8.lossy <$> t.zones.doneFrom? 0

/-- An error with the state of the interpreter. -/
def failure? (t : Interpreter) (error : Error) : Option Failure := do
  let done := (← t.doneText?).toList
  let active := (Utf8.lossy t.zones.active).toList
  return {
    error
    frames := t.calls.describe t.session.chars
    passive := String.ofList (done.drop (done.length - Failure.contextLength))
    active := String.ofList (active.take Failure.contextLength) }

/-- The interpreter with a program of which nothing is scanned yet. -/
def load (t : Interpreter) (text : String) : Interpreter :=
  ⟨{ t.session with halt := none }, .ofString text, t.calls, []⟩

/-- The interpreter without its program. -/
def clear (t : Interpreter) : Interpreter :=
  ⟨{ t.session with halt := none }, .empty, t.calls, []⟩

/-- The interpreter with no more than `depth` calls left on the stack. -/
def unwind (t : Interpreter) (depth : Nat) : Interpreter :=
  { t with calls := t.calls.unwind depth }

/-- Evaluates a program in at most `fuel` steps. If it fails, the calls that it leaves on the stack
are taken off. -/
def evaluate (fuel : Nat) (t : Interpreter) (text : String) :
    Ending Failure Outcome × Interpreter :=
  let depth := t.calls.depth
  match run fuel (t.load text) with
  | .finished t =>
    match t.doneText? with
    | some output => (.ok ⟨output, t.session.halt⟩, t.clear)
    | none => (.fault, t.clear)
  | .raised e t =>
    match t.failure? e with
    | some failure => (.error failure, (t.unwind depth).clear)
    | none => (.fault, (t.unwind depth).clear)
  | .fault => (.fault, t.clear)
  | .unfinished t => (.unfinished, (t.unwind depth).clear)

/-- Evaluates a program to its text. -/
def eval (fuel : Nat) (t : Interpreter) (text : String) : Ending Error String × Interpreter :=
  let (ending, t) := t.evaluate fuel text
  (ending.map (·.output) (·.error), t)

/-- Applies an action to the session. -/
def act {α : Type} (t : Interpreter) (action : Action α) : Except Error α × Interpreter :=
  match action t.session with
  | .ok a session => (.ok a, { t with session })
  | .error e session => (.error e, { t with session })

/-- Evaluates a program and prints the text it leaves if that is asked for. -/
def runProgram (fuel : Nat) (t : Interpreter) (text : String) :
    Ending Failure (Option Int) × Interpreter :=
  match t.evaluate fuel text with
  | (.ok outcome, t) =>
    if t.session.props.showFinal && !outcome.output.isEmpty then
      match t.act (Action.print .stdout outcome.output) with
      | (.ok _, t) => (.ok outcome.exit, t)
      | (.error e, t) =>
        match t.failure? e with
        | some failure => (.error failure, t)
        | none => (.fault, t)
    else (.ok outcome.exit, t)
  | (.error failure, t) => (.error failure, t)
  | (.fault, t) => (.fault, t)
  | (.unfinished, t) => (.unfinished, t)

/-- Runs up to `programs` programs from the standard input, each up to the read terminator, until
one asks to stop or the input ends. A failure is reported on the error stream. -/
def interactFor (fuel : Nat) : (programs : Nat) → Interpreter → Ending Error Int × Interpreter
  | 0, t => (.unfinished, t)
  | programs + 1, t =>
    match t.act (Action.readStdin (Stream.readUntil · t.session.chars.readEnd)) with
    | (.error e, t) => (.error e, t)
    | (.ok none, t) => (.ok 0, t)
    | (.ok (some program), t) =>
      match t.runProgram fuel program with
      | (.ok (some status), t) => (.ok status, t)
      | (.ok none, t) => interactFor fuel programs t
      | (.error failure, t) =>
        match t.act (Action.print .stderr (failure.report ++ "\n")) with
        | (.ok _, t) => interactFor fuel programs t
        | (.error e, t) => (.error e, t)
      | (.fault, t) => (.fault, t)
      | (.unfinished, t) => (.unfinished, t)

/-- Runs programs from the standard input until one asks to stop or the input ends. Each uses up some
of the input, so that there cannot be more programs than characters left. -/
def interact (fuel : Nat) (t : Interpreter) : Ending Error Int × Interpreter :=
  t.interactFor fuel (t.session.streams.stdin.pending t.session.files + 1)

end Interpreter

end TextMacro
