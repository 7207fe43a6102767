import Std.Time.DateTime.Timestamp
import TextMacro.Command.Run

/-!
# The command `ttm`

The outer layer: it collects what a run can see, and carries out what the run reports. A run is a
function of the files it is given, so a program that asks for others is run again from the start with
those added, until it asks for no more. Only the last run is reported.
-/

namespace TextMacro.Host

/-- The name and version of the command. -/
def version : String := "ttm 0.1.0\n"

/-- How the command is used. -/
def usage : String := "Usage: ttm [OPTIONS] [FILE] [-- ARGS...]

Arguments:
  [FILE]     Program to run; `-` or absent reads stdin
  [ARGS]...  Arguments exposed to programs through `argc` and `argv`

Options:
  -e, --expr <TEXT>        Evaluate TEXT instead of a file (repeatable, run in order)
  -i, --interactive        After the program, read further programs from stdin
  -o, --output <PATH>      Send printed and final output to PATH
  -r, --rsfile <PATH>      Take `rs` input from PATH
  -p, --prop <NAME=VALUE>  Set a property, after the rc file is applied
  -T, --trace              Trace every call
  -q, --quiet              Do not print the final text of each program
      --norc               Skip the rc file
  -v, --verbose            Debug logging on stderr
  -h, --help               Print help
  -V, --version            Print version
"

/-- The number of steps that a program may take. -/
def fuel : Nat := 1 <<< 62

/-- The number of runs in which files may be asked for. -/
def rounds : Nat := 1 <<< 16

/-- All bytes of a stream. -/
def readAll (stream : IO.FS.Stream) : IO ByteArray := do
  let mut bytes := ByteArray.empty
  repeat
    let chunk ← stream.read 65536
    if chunk.isEmpty then
      break
    bytes := bytes ++ chunk
  return bytes

/-- Adds what stands at a path. -/
def fetchOne (files : Files) (path : String) : IO Files := do
  match ← (IO.FS.readBinFile path).toBaseIO with
  | .ok content => return files.install path (.file content)
  | .error (.inappropriateType _ 21 _) => return files.install path .directory
  | .error _ => return files

/-- Adds what stands at a path and on the way to it. -/
def fetch (files : Files) (path : String) : IO Files := do
  let components := path.splitOn "/"
  (List.range components.length).foldlM
    (fun files n => fetchOne files ("/".intercalate (components.take (n + 1)))) files

/-- What the environment says. -/
def environment : IO Environment := do
  return {
    home := (← IO.getEnv "HOME").filter (!·.isEmpty)
    configHome := ← IO.getEnv "XDG_CONFIG_HOME"
    settingsFile := ← IO.getEnv "TTMRC"
    log := ← IO.getEnv "TTM_LOG"
    fallbackLog := ← IO.getEnv "RUST_LOG" }

/-- The time of day. -/
def clock : IO Clock := do
  let now ← Std.Time.Timestamp.now
  return ⟨now.toMillisecondsSinceUnixEpoch.toInt / 10, 0⟩

/-- The paths that a command names before a program runs. -/
def namedPaths (words : List String) (env : Environment) : List String :=
  match CommandLine.parse words with
  | .error _ => []
  | .ok o =>
    let program := match o.source with
      | .file path => [path]
      | _ => []
    env.settingsPaths ++ o.output.toList ++ o.rsFile.toList ++ program

/-- Runs a command until it asks for no paths but the `known` ones, in at most the given number of
runs. -/
def runKnowing (given : Surroundings) (known : List String) :
    Nat → IO (Surroundings × CommandEnding)
  | 0 => return (given, .unfinished)
  | n + 1 => do
    let ending := Command.run fuel given
    let asked := match ending with
      | .done report => report.files.sought.eraseDups.filter fun path => !known.contains path
      | _ => []
    if asked.isEmpty then return (given, ending)
    let files ← asked.foldlM fetch given.files
    runKnowing { given with files } (asked ++ known) n

/-- Writes the files that a run has changed. -/
def writeChanges (before after : Files) : IO PUnit :=
  after.nodes.forM fun (place, node) => do
    match before.node? place, node with
    | some (.file old), .file new =>
      unless old.data = new.data do
        IO.FS.writeBinFile ("/".intercalate place) new
    | _, .file new => IO.FS.writeBinFile ("/".intercalate place) new
    | _, .directory => return

/-- Carries out what a run reports, and yields the exit status. -/
def finish (before : Files) : CommandEnding → IO UInt32
  | .refused .displayVersion => do
    IO.print version
    return 0
  | .refused e => do
    match e.message? with
    | none =>
      IO.print usage
      return 0
    | some message =>
      IO.eprint ("error: " ++ message ++ "\n\n" ++ usage)
      return 2
  | .done report => do
    writeChanges before report.files
    IO.print report.stdout
    IO.eprint report.stderr
    return report.status.toUInt32
  | .fault | .unfinished => return 101

end TextMacro.Host

open TextMacro TextMacro.Host in
/-- Runs the command with the words of the command line. -/
def main (words : List String) : IO UInt32 := do
  let env ← environment
  let stdin ← IO.getStdin
  let given : Surroundings := {
    words
    environment := env
    stdin := ← readAll stdin
    terminal := ← stdin.isTty
    files := ← (namedPaths words env).foldlM fetch .empty
    clock := ← clock }
  let (given, ending) ← runKnowing given [] rounds
  finish given.files ending
