import TextMacro.Calendar
import TextMacro.Session.Basic

/-!
# Builtins for the surroundings

Printing and reading, files, clocks, the arguments of the program, and the control of the
interpreter itself.
-/

namespace TextMacro.Builtins

open TextMacro.Action

/-! ## Streams -/

/-- Prints the first argument on the stream that the second names, or on the standard output. -/
def printText (f : Frame) : Action String := do
  match f.arg 2 with
  | "" | "stdout" => print .stdout (f.arg 1)
  | "stderr" => print .stderr (f.arg 1)
  | other => throw (.io other .noSuchStream)
  return ""

/-- Reads up to the read terminator and yields what was read. It is printed too if that is asked
for. -/
def readString : Action String := do
  let stop := (← get).chars.readEnd
  match ← readRs (Stream.readUntil · stop) with
  | none => throw (.eof (← get).streams.rsSource.name)
  | some line =>
    if (← get).props.echo then
      print .stdout line
      print .stdout (String.singleton stop)
    return line

/-- Prints the argument and then reads. -/
def promptAndRead (f : Frame) : Action String := do
  print .stdout (f.arg 1)
  readString

/-- Chooses the read terminator. -/
def setReadEnd (f : Frame) : Action String := do
  let chars ← lift ((← get).chars.setReadEnd (f.arg 1))
  modify ({ · with chars })
  return ""

/-- Yields the content of a file. -/
def includeFile (f : Frame) : Action String := do
  modify fun s => { s with files := s.files.note (f.arg 1) }
  let files := (← get).files
  let stream ← lift (Stream.openRead files (f.arg 1))
  match Stream.readToEnd files stream with
  | .ok text _ => return text
  | .error e _ => throw e

/-! ## The program -/

/-- The least status a program can end with. -/
def minStatus : Int := -2147483648

/-- The greatest status a program can end with. -/
def maxStatus : Int := 2147483647

/-- The status that an argument stands for; an empty one is zero. -/
def readStatus (text : String) : Except Error Int := do
  if text.isEmpty then return 0
  let value ← Decimal.read text
  if minStatus ≤ value && value ≤ maxStatus then return value
  else .error (.outOfRange "exit" value)

/-- Asks the program to stop. -/
def requestHalt (f : Frame) : Action String := do
  let status ← lift (readStatus (f.arg 1))
  modify ({ · with halt := some status })
  return ""

/-- Yields the time since the start of 1970. -/
def clockTime : Action String := do
  return Decimal.render (← get).clock.sinceEpoch

/-- Yields the time since the session began. -/
def runTime : Action String := do
  return (← get).clock.sinceStart.repr

/-- Yields the date and time of an instant. -/
def renderTime (f : Frame) : Action String := do
  let value ← lift (Decimal.read (f.arg 1))
  match renderInstant? value with
  | some text => return text
  | none => throw (.outOfRange "ctime" value)

/-- Yields the number of arguments of the program. -/
def countArguments : Action String := do
  return (← get).args.length.repr

/-- Yields an argument of the program. -/
def getArgument (f : Frame) : Action String := do
  let index ← lift (Decimal.read (f.arg 1))
  let args := (← get).args
  match if 0 ≤ index then args[index.toNat]? else none with
  | some arg => return arg
  | none => throw (.badIndex index args.length)

/-! ## The interpreter -/

/-- The descriptions of names or classes. -/
def describe (d : Dictionary) (topic : String) (names : List String) :
    Except Error (List String) :=
  match topic with
  | "name" => names.mapM fun name => Function.info <$> d.function name
  | "class" => names.mapM fun name => CharClass.info <$> d.charClass name
  | other => .error (.undefinedName ("ttm;info;" ++ other))

/-- Lists the properties, yields the value of one, or gives it a value. -/
def controlProp (f : Frame) : Action String := do
  match f.rest.drop 1 with
  | [] =>
    let listing := (← get).props.list.map fun (name, value) => name ++ "=" ++ Decimal.render value
    return "\n".intercalate listing
  | [name] => return Decimal.render (← lift ((← get).props.get name))
  | name :: text :: _ =>
    let value ← lift (Decimal.read text)
    let s ← lift ((← get).setProp name value)
    set s
    return ""

/-- Chooses the meta characters, describes names, or works on the properties. -/
def control (f : Frame) : Action String := do
  match f.arg 1 with
  | "meta" =>
    let chars ← lift ((← get).chars.rebind (f.arg 2))
    modify ({ · with chars })
    return ""
  | "info" =>
    let lines ← lift (describe (← get).dict (f.arg 2) (f.rest.drop 2))
    return "\n".intercalate lines
  | "prop" => controlProp f
  | "reset" =>
    modify Session.resetProps
    return ""
  | other => throw (.undefinedName ("ttm;" ++ other))

end TextMacro.Builtins
