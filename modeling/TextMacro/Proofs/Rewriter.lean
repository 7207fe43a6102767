import TextMacro.Session.Evaluate

/-!
# Rewriting plain texts

What a program means, said without the buffer in which it is expanded. The output, the text still to
be scanned and the argument that each open call is collecting are separate lists of characters. A
character is moved, an escape dropped in favour of the character behind it, a bracketed text copied
without its outer brackets; a call collects its arguments, is carried out, and its result is put in
front of the text (an active call) or behind what is collected (a passive one).

A call reads its argument list by the meta characters that were in force when the list began, and
steps over an escape, an opening bracket or a sharp by the width of the one in force now. The
rewriting stops with `widthsChanged` when a call inside an argument list leaves these widths other
than the list began with, since no text says what is stepped over then.
-/

namespace TextMacro

namespace MetaChars

/-- Whether the characters that are stepped over by their width have the same widths. -/
def sameWidths (m n : MetaChars) : Bool :=
  m.sharp.utf8Size = n.sharp.utf8Size && m.opening.utf8Size = n.opening.utf8Size &&
    m.escape.utf8Size = n.escape.utf8Size

/-- The text up to the bracket that closes the outermost of `depth` open ones, and the text behind
that bracket; nothing if it is missing. -/
def bracketed? (m : MetaChars) (depth : Nat) : List Char → Option (List Char × List Char)
  | [] => none
  | c :: rest =>
    if c = m.escape then
      match rest with
      | [] => none
      | d :: rest => (m.bracketed? depth rest).map fun (inside, rest) => (c :: d :: inside, rest)
    else if c = m.opening then
      (m.bracketed? (depth + 1) rest).map fun (inside, rest) => (c :: inside, rest)
    else if c = m.closing then
      if depth = 1 then some ([], rest)
      else (m.bracketed? (depth - 1) rest).map fun (inside, rest) => (c :: inside, rest)
    else (m.bracketed? depth rest).map fun (inside, rest) => (c :: inside, rest)

/-- Whether a call starts with the sharp in front of a text, and if so whether it is active and the
text behind its start. -/
def callStart? (m : MetaChars) : List Char → Option (Bool × List Char)
  | [] => none
  | c :: rest =>
    if c = m.opening then some (true, rest)
    else if c = m.sharp then
      match rest with
      | [] => none
      | d :: rest => if d = m.opening then some (false, rest) else none
    else none

end MetaChars

/-- A call whose arguments are being collected. -/
structure OpenCall where
  /-- The arguments collected so far. -/
  frame : Frame
  /-- The argument that is being collected, as far as it goes. -/
  pending : List Char
  /-- The meta characters that were in force when the call began. -/
  chars : MetaChars

/-- A program that is being rewritten. -/
structure Rewriter where
  session : Session
  output : List Char
  /-- The text still to be scanned. -/
  text : List Char
  /-- The calls whose arguments are being collected, the innermost first. -/
  calls : List OpenCall

namespace Rewriter

/-- The outcome of one step. -/
inductive Step where
  /-- There is more to do. -/
  | next (r : Rewriter)
  /-- The program is scanned, or has asked to stop. -/
  | finished (r : Rewriter)
  /-- The program fails. -/
  | raised (e : Error) (r : Rewriter)
  /-- A call inside an argument list has changed the widths by which the list is read. -/
  | widthsChanged

/-- Whether the widths are still those that the innermost argument list began with. -/
def keepsWidths (r : Rewriter) : Bool :=
  match r.calls with
  | [] => true
  | call :: _ => call.chars.sameWidths r.session.chars

/-- Adds characters to the argument that is being collected, or to the output outside calls. -/
def emit (r : Rewriter) (cs : List Char) : Rewriter :=
  match r.calls with
  | [] => { r with output := r.output ++ cs }
  | call :: outer => { r with calls := { call with pending := call.pending ++ cs } :: outer }

/-- Adds characters and goes on with another text. -/
def emitThen (r : Rewriter) (cs rest : List Char) : Rewriter :=
  { r.emit cs with text := rest }

/-- Begins a call, which has to be within the budget and the depth allowed. -/
def beginCall (r : Rewriter) (active : Bool) (rest : List Char) : Step :=
  let limit := r.session.props.execCount
  if limit ≤ r.session.execs then .raised (.execsExhausted limit) r
  else
    let session := { r.session with execs := r.session.execs + 1 }
    if session.props.stackSize ≤ r.calls.length then
      .raised (.stackOverflow session.props.stackSize) { r with session, text := rest }
    else
      .next ⟨session.report (.callStarted (r.calls.length + 1) active), r.output, rest,
        ⟨.start active, [], session.chars⟩ :: r.calls⟩

/-- Places the result of a call that has been carried out and taken off: nowhere, in front of the
text, or behind what is being collected. -/
def place (r : Rewriter) (active : Bool) (disposition : Disposition) (result : String) : Step :=
  if !r.keepsWidths then .widthsChanged
  else if disposition = .sideEffect || result.isEmpty then .next r
  else if active then .next { r with text := result.toList ++ r.text }
  else .next (r.emit result.toList)

/-- Carries out the innermost call, `call`, takes it off, and places its result. `r` is the program
without that call. -/
def finishCall (r : Rewriter) (call : OpenCall) : Step :=
  match Action.invoke (r.calls.length + 1) call.frame r.session with
  | .error e session => .raised e { r with session, calls := call :: r.calls }
  | .ok (disposition, result) session =>
    { r with session }.place call.frame.active disposition result

/-- Completes the argument of the innermost call, `call`, at a separator with `rest` behind it, and
carries the call out if the separator closes it. -/
def finishArgument (r : Rewriter) (call : OpenCall) (outer : List OpenCall) (rest : List Char)
    (closes : Bool) : Step :=
  if maxEntries ≤ call.frame.args.length then .raised (.tooManyArgs maxEntries) r
  else
    let call := { call with frame := call.frame.push (String.ofList call.pending), pending := [] }
    if closes then finishCall { r with text := rest, calls := outer } call
    else .next { r with text := rest, calls := call :: outer }

/-- Drops an escape in favour of the character behind it. An escape at the end of the text stands
for itself. -/
def copyEscaped (r : Rewriter) (c : Char) : List Char → Step
  | [] => .next (r.emitThen [c] [])
  | d :: rest => .next (r.emitThen [d] rest)

/-- Adds the text behind an opening bracket up to the one that closes it. -/
def copyBracketed (r : Rewriter) (rest : List Char) : Step :=
  match r.session.chars.bracketed? 1 rest with
  | some (inside, rest) => .next (r.emitThen inside rest)
  | none => .raised .unbalancedBracket (r.emitThen rest [])

/-- Begins a call at a sharp if `rest` is behind the sharp of a call, and otherwise adds the sharp.
-/
def sharp (r : Rewriter) (c : Char) (rest : List Char) : Step :=
  match r.session.chars.callStart? rest with
  | some (active, rest) => r.beginCall active rest
  | none => .next (r.emitThen [c] rest)

/-- Handles the first character of the text, which has been recognised by the meta characters `m`;
`rest` is behind it. -/
def scanChar (r : Rewriter) (m : MetaChars) (c : Char) (rest : List Char) : Step :=
  match m.role c, r.calls with
  | .escape, _ => r.copyEscaped c rest
  | .opening, _ => r.copyBracketed rest
  | .semi, call :: outer => r.finishArgument call outer rest false
  | .closing, call :: outer => r.finishArgument call outer rest true
  | .sharp, _ => r.sharp c rest
  | _, _ => .next (r.emitThen [c] rest)

/-- One step of the rewriting. -/
def step (r : Rewriter) : Step :=
  match r.calls with
  | [] =>
    if r.session.halt.isSome then .finished r
    else
      match r.text with
      | [] => .finished r
      | c :: rest => r.scanChar r.session.chars c rest
  | call :: outer =>
    if r.session.halt.isSome then .next { r with calls := outer }
    else
      match r.text with
      | [] => .raised .unterminatedCall r
      | c :: rest => r.scanChar call.chars c rest

/-- The end of a number of steps. -/
inductive Rest where
  | finished (r : Rewriter)
  | raised (e : Error) (r : Rewriter)
  | widthsChanged
  /-- The steps were not enough. -/
  | unfinished (r : Rewriter)

/-- Steps until the program is scanned or fails, at most `fuel` times. -/
def run : (fuel : Nat) → Rewriter → Rest
  | 0, r => .unfinished r
  | fuel + 1, r =>
    match r.step with
    | .next r => run fuel r
    | .finished r => .finished r
    | .raised e r => .raised e r
    | .widthsChanged => .widthsChanged

/-- A program of which nothing is scanned yet. -/
def start (session : Session) (text : String) : Rewriter :=
  ⟨{ session with halt := none }, [], text.toList, []⟩

/-- The output and behind it what open calls are collecting, the outermost first. -/
def collected (output : List Char) : List OpenCall → List Char
  | [] => output
  | call :: outer => collected output outer ++ call.pending

/-- The text that is done with. -/
def done (r : Rewriter) : List Char := collected r.output r.calls

/-- An error with the state of the program. -/
def failure (r : Rewriter) (error : Error) : Failure where
  error := error
  frames := r.calls.reverse.map (·.frame.render r.session.chars)
  passive := String.ofList (r.done.drop (r.done.length - Failure.contextLength))
  active := String.ofList (r.text.take Failure.contextLength)

/-- Evaluates a program in at most `fuel` steps, to its ending and the session it leaves; nothing if
the rewriting stops with `widthsChanged`. -/
def evaluate? (fuel : Nat) (session : Session) (text : String) :
    Option (Ending Failure Outcome × Session) :=
  match run fuel (start session text) with
  | .finished r =>
    some (.ok ⟨String.ofList r.output, r.session.halt⟩, { r.session with halt := none })
  | .raised e r => some (.error (r.failure e), { r.session with halt := none })
  | .unfinished r => some (.unfinished, { r.session with halt := none })
  | .widthsChanged => none

/-! ## Kinds of steps -/

/-- The meta characters by which the next character is recognised. -/
def recognising (r : Rewriter) : MetaChars :=
  match r.calls with
  | [] => r.session.chars
  | call :: _ => call.chars

variable {r : Rewriter}

/-- A program that has asked to stop gives up its calls one after another. -/
theorem step_halted (hhalt : r.session.halt.isSome) :
    r.step = match r.calls with
      | [] => .finished r
      | _ :: outer => .next { r with calls := outer } := by
  unfold step
  cases r.calls with
  | nil => simp [hhalt]
  | cons call outer => simp [hhalt]

/-- With a character to be scanned a step scans it. -/
theorem step_cons {c : Char} {rest : List Char} (hhalt : ¬ r.session.halt.isSome)
    (htext : r.text = c :: rest) : r.step = r.scanChar r.recognising c rest := by
  unfold step recognising
  cases r.calls with
  | nil => simp [hhalt, htext]
  | cons call outer => simp [hhalt, htext]

/-- With nothing to be scanned the program is done, unless a call is open. -/
theorem step_nil (hhalt : ¬ r.session.halt.isSome) (htext : r.text = []) :
    r.step = if r.calls = [] then .finished r else .raised .unterminatedCall r := by
  unfold step
  cases r.calls with
  | nil => simp [hhalt, htext]
  | cons call outer => simp [hhalt, htext]

end Rewriter

end TextMacro
