import TextMacro.Command.Line
import TextMacro.Session.Evaluate

/-!
# The command

What the command does from its words, its environment, its input and the files there are: the status
it ends with, what it prints, and the files it leaves.
-/

namespace TextMacro

/-- All that a command can see. -/
structure Surroundings where
  words : List String
  environment : Environment
  stdin : ByteArray
  /-- Whether the standard input is a terminal. -/
  terminal : Bool
  files : Files
  clock : Clock

/-- What a command leaves. -/
structure Report where
  status : Nat
  stdout : String
  stderr : String
  files : Files

/-- How a command ends. -/
inductive CommandEnding where
  /-- The command line is not carried out. -/
  | refused (e : UsageError)
  | done (report : Report)
  /-- A program made the scanner reach outside its buffer. -/
  | fault
  /-- The steps allowed were not enough. -/
  | unfinished

namespace Command

/-- The events that are reported. -/
def filter (env : Environment) (verbose : Bool) : Filter :=
  match (env.log.orElse fun _ => env.fallbackLog).bind Filter.parse? with
  | some filter => filter
  | none => if verbose then .verbose else .standard

/-- A step of the preparations; what fails is told in words. -/
abbrev Setup := EStateM String Session

/-- Fails in words that begin with what was attempted. -/
def attempt {α : Type} (context : String) : Except Error α → Setup α
  | .ok a => pure a
  | .error e => throw (context ++ e.message)

/-- Opens the file that is to get the output. -/
def openOutput (path : String) : Setup PUnit := do
  let s ← get
  let (stdout, files) ←
    attempt ("cannot open output " ++ path ++ ": ") (Stream.openWrite s.files path)
  set { s with streams := { s.streams with stdout }, files }

/-- Opens the file that programs are to read from. -/
def openInput (path : String) : Setup PUnit := do
  let s ← get
  let stream ← attempt ("cannot open input " ++ path ++ ": ") (Stream.openRead s.files path)
  set { s with streams := { s.streams with rsInput := some stream } }

/-- Takes over the settings file, if there is one. -/
def loadSettings (env : Environment) : Setup PUnit := do
  match env.settingsPath? (← get).files with
  | none => return
  | some path =>
    modify (·.report (.settingsLoading path))
    let s ← get
    let (props, refused) ← attempt "" (Settings.load s.files path s.props)
    modify ({ · with props })
    refused.forM fun line => modify (·.report (.settingRefused path line.report))

/-- Gives a property the value it has on the command line. -/
def setProp (prop : String × Int) : Setup PUnit := do
  let (name, value) := prop
  let context := "--prop " ++ name ++ "=" ++ Decimal.render value ++ ": "
  set (← attempt context ((← get).setProp name value))

/-- All of the standard input, which has to be a text. -/
def readProgram : Setup String := do
  let s ← get
  let stdin := s.streams.stdin
  match stdin.handle with
  | .reader (.memory bytes) =>
    set { s with streams := { s.streams with stdin := { stdin with offset := bytes.size } } }
    match String.fromUTF8? bytes with
    | some text => return text
    | none => throw ("cannot read stdin: " ++ StreamProblem.notText.message)
  | _ => return ""

/-- Whether programs are read from the standard input one by one: if that is asked for, or if they are
to come from a terminal. -/
def isInteractive (o : Options) (terminal : Bool) : Bool :=
  o.interactive || (o.source == .stdin && terminal)

/-- The programs to run before an interactive session. -/
def programs (o : Options) (terminal : Bool) : Setup (List String) := do
  match o.source with
  | .exprs texts => return texts
  | .file path =>
    match (← get).files.readText path with
    | .ok text => return [text]
    | .error problem => throw ("cannot read " ++ path ++ ": " ++ problem.message)
  | .stdin => if isInteractive o terminal then return [] else return [← readProgram]

/-- The preparations, which yield the programs to run. -/
def setup (o : Options) (given : Surroundings) : Setup (List String) := do
  o.output.forM openOutput
  o.rsFile.forM openInput
  modify fun s => { s with args := o.args, traceAll := o.trace }
  unless o.noSettings do
    loadSettings given.environment
  o.props.forM setProp
  if o.quiet then
    set (← attempt "" ((← get).setProp Property.showFinal.name 0))
  programs o given.terminal

/-- What the command leaves when it ends with a status and last words on the error stream. -/
def report (s : Session) (status : Int) (lastWords : String) : CommandEnding :=
  .done {
    status := (status.emod 256).toNat
    stdout := s.streams.stdout.captured
    stderr := s.log.interleave s.streams.stderr.written.texts ++ lastWords
    files := (s.streams.stdout.close s.files).2 }

/-- The report of a command that could not go on. -/
def complain (s : Session) (words : String) : CommandEnding :=
  report s 1 ("ttm: " ++ words ++ "\n")

/-- Runs programs in order, and then those of the standard input if the session is interactive. -/
def runPrograms (fuel : Nat) (interactive : Bool) (t : Interpreter) :
    List String → CommandEnding
  | [] =>
    if interactive then
      match t.interact fuel with
      | (.ok status, t) => report t.session status ""
      | (.error e, t) => complain t.session e.message
      | (.fault, _) => .fault
      | (.unfinished, _) => .unfinished
    else report t.session 0 ""
  | program :: rest =>
    match t.runProgram fuel program with
    | (.ok (some status), t) => report t.session status ""
    | (.ok none, t) => runPrograms fuel interactive t rest
    | (.error failure, t) => complain t.session failure.report
    | (.fault, _) => .fault
    | (.unfinished, _) => .unfinished

/-- Carries out a command, each program in at most `fuel` steps. -/
def run (fuel : Nat) (given : Surroundings) : CommandEnding :=
  match CommandLine.parse given.words with
  | .error e => .refused e
  | .ok o =>
    let log := Log.start (filter given.environment o.verbose)
    let session := Session.start (.ofInput given.stdin) given.files given.clock log
    match setup o given session with
    | .error words session => complain session words
    | .ok programs session =>
      runPrograms fuel (isInteractive o given.terminal) (.ofSession session) programs

end Command

end TextMacro
