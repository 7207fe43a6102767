import TextMacro.Dictionary.Basic
import TextMacro.Frame
import TextMacro.Log.Filter
import TextMacro.Properties
import TextMacro.Stream

/-!
# Sessions

All that lasts from one program to the next: the dictionary, the properties, the meta characters, the
streams and files, the counters. A builtin is an action on it.
-/

namespace TextMacro

/-- The streams that can be written to. -/
inductive Output where
  | stdout
  | stderr
  deriving DecidableEq, Repr

/-- The streams of a session. -/
structure Streams where
  stdin : Stream
  stdout : Stream
  stderr : Stream
  /-- Where programs read from, when it is not the standard input. -/
  rsInput : Option Stream

namespace Streams

/-- Streams in memory, with a given input. -/
def ofInput (input : ByteArray) : Streams :=
  ⟨.reader "stdin" input, .writer "stdout", .writer "stderr", none⟩

/-- The stream that programs read from. -/
def rsSource (s : Streams) : Stream := s.rsInput.getD s.stdin

/-- The stream that is written to. -/
def get (s : Streams) (output : Output) : Stream :=
  match output with
  | .stdout => s.stdout
  | .stderr => s.stderr

/-- Writes a text to a stream at once. -/
def print (s : Streams) (files : Files) (output : Output) (text : String) : Streams × Files :=
  let ⟨stdin, stdout, stderr, rsInput⟩ := s
  match output with
  | .stdout =>
    let (stdout, files) := stdout.put files text
    let (stdout, files) := stdout.flush files
    (⟨stdin, stdout, stderr, rsInput⟩, files)
  | .stderr =>
    let (stderr, files) := stderr.put files text
    let (stderr, files) := stderr.flush files
    (⟨stdin, stdout, stderr, rsInput⟩, files)

/-- Puts the stream that programs read from back in its place. -/
def setRsSource (s : Streams) (source : Stream) : Streams :=
  match s.rsInput with
  | some _ => { s with rsInput := some source }
  | none => { s with stdin := source }

end Streams

/-- What the clocks show, in hundredths of a second. -/
structure Clock where
  /-- Since the start of 1970. -/
  sinceEpoch : Int
  /-- Since the session began. -/
  sinceStart : Nat
  deriving DecidableEq, Repr

/-- The state of a session between and during programs. -/
structure Session where
  dict : Dictionary
  props : Properties
  chars : MetaChars
  streams : Streams
  files : Files
  /-- The arguments of the program. -/
  args : List String
  /-- Whether all calls are traced. -/
  traceAll : Bool
  /-- The number of calls made on the current budget. -/
  execs : Nat
  /-- The number of tokens generated. -/
  creations : Nat
  /-- The status with which the program has asked to stop. -/
  halt : Option Int
  clock : Clock
  log : Log

/-- An action on a session; an error keeps the session it arose in. -/
abbrev Action := EStateM Error Session

namespace Session

/-- A session in which nothing has happened yet. -/
def start (streams : Streams) (files : Files) (clock : Clock) (log : Log) : Session where
  dict := .initial
  props := .initial
  chars := .initial
  streams := streams
  files := files
  args := []
  traceAll := false
  execs := 0
  creations := 0
  halt := none
  clock := clock
  log := log

/-- Reports an event. -/
def report (s : Session) (e : Event) : Session :=
  { s with log := s.log.record s.streams.stderr.written.count e }

/-- Changes the dictionary. -/
def onDict (s : Session) (change : Dictionary → Dictionary) : Session :=
  let ⟨dict, props, chars, streams, files, args, traceAll, execs, creations, halt, clock, log⟩ := s
  ⟨change dict, props, chars, streams, files, args, traceAll, execs, creations, halt, clock, log⟩

/-- Writes a text to a stream at once. -/
def print (s : Session) (output : Output) (text : String) : Session :=
  let ⟨dict, props, chars, streams, files, args, traceAll, execs, creations, halt, clock, log⟩ := s
  let (streams, files) := streams.print files output text
  ⟨dict, props, chars, streams, files, args, traceAll, execs, creations, halt, clock, log⟩

/-- Gives a property a value. A new budget of calls is a fresh one. -/
def setProp (s : Session) (name : String) (value : Int) : Except Error Session := do
  let props ← s.props.set name value
  return { s with props, execs := if name == Property.execCount.name then 0 else s.execs }

/-- Gives all properties their initial values, which makes the budget of calls a fresh one. -/
def resetProps (s : Session) : Session :=
  { s with props := .initial, execs := 0 }

end Session

namespace Action

/-- Fails or succeeds with a value that does not depend on the session. -/
def lift {α : Type} (result : Except Error α) : Action α := fun s =>
  match result with
  | .ok a => .ok a s
  | .error e => .error e s

/-- Changes the dictionary. -/
def changeDict (change : Dictionary → Dictionary) : Action PUnit :=
  modify (·.onDict change)

/-- Fails if the dictionary does not permit something. -/
def require (permit : Dictionary → Except Error PUnit) : Action PUnit := do
  lift (permit (← get).dict)

/-- Reports an event. -/
def report (e : Event) : Action PUnit :=
  modify (·.report e)

/-- Works on the body of a defined string. What has changed is kept also when the work fails. -/
def onBody {α : Type} (name : String) (work : Body → Except Error α × Body) : Action α := fun s =>
  match s.dict.body name with
  | .error e => .error e s
  | .ok body =>
    match work body with
    | (.ok a, body) => .ok a { s with dict := s.dict.setBody name body }
    | (.error e, body) => .error e { s with dict := s.dict.setBody name body }

/-- Reads from the body of a defined string. -/
def readBody {α : Type} (name : String) (reader : Buffer.Reader α) : Action α :=
  onBody name (·.read reader)

/-- Writes a text to a stream at once. -/
def print (output : Output) (text : String) : Action PUnit := fun s =>
  match (s.streams.get output).writable with
  | .error e => .error e s
  | .ok _ => .ok () (s.print output text)

/-- Runs a read on the standard input. -/
def readStdin {α : Type} (reader : Files → Stream.Reader α) : Action α := fun s =>
  match reader s.files s.streams.stdin with
  | .ok a stdin => .ok a { s with streams := { s.streams with stdin } }
  | .error e stdin => .error e { s with streams := { s.streams with stdin } }

/-- Runs a read on the stream that programs read from. -/
def readRs {α : Type} (reader : Files → Stream.Reader α) : Action α := fun s =>
  match reader s.files s.streams.rsSource with
  | .ok a source => .ok a { s with streams := s.streams.setRsSource source }
  | .error e source => .error e { s with streams := s.streams.setRsSource source }

end Action

end TextMacro
