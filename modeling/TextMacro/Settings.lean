import TextMacro.Files
import TextMacro.Properties
import TextMacro.Text.Blank

/-!
# Settings files

A settings file gives values to properties, one on a line, such as `stacksize = 128`. What follows a
`#` is a comment. A line that cannot be used is reported with its number, and the others still count.
-/

namespace TextMacro

/-- A line that gives a property a value. -/
structure Setting where
  /-- The number of the line, from 1. -/
  line : Nat
  name : String
  value : Int
  deriving DecidableEq, Repr

/-- Why a line gives no property a value. -/
inductive SettingProblem where
  /-- The line has no equals sign. -/
  | noAssignment (text : String)
  /-- Nothing comes before the equals sign. -/
  | noName
  /-- The value or the property is refused. -/
  | refused (e : Error)
  deriving DecidableEq, Repr

/-- The wording of what is wrong with a line. -/
def SettingProblem.message : SettingProblem → String
  | .noAssignment text => s!"expected name=value: '{text}'"
  | .noName => "missing property name"
  | .refused e => e.message

/-- A line that could not be used. -/
structure RefusedLine where
  /-- The number of the line, from 1. -/
  line : Nat
  problem : SettingProblem
  deriving DecidableEq, Repr

/-- The report of a line that could not be used. -/
def RefusedLine.report (r : RefusedLine) : String :=
  "line " ++ r.line.repr ++ ": " ++ r.problem.message

namespace Settings

/-- The lines of a text, where `line` holds the current one backwards. Lines end with a line feed or
with a carriage return and a line feed. -/
def linesFrom (line : List Char) : List Char → List (List Char)
  | [] => if line.isEmpty then [] else [line.reverse]
  | '\n' :: rest =>
    (match line with
      | '\r' :: line => line.reverse
      | line => line.reverse) :: linesFrom [] rest
  | c :: rest => linesFrom (c :: line) rest

/-- The lines of a text. -/
def lines (text : String) : List (List Char) := linesFrom [] text.toList

/-- Splits at the first equals sign. -/
def splitAssignment (cs : List Char) : Option (List Char × List Char) :=
  match cs.span (· != '=') with
  | (name, _ :: value) => some (name, value)
  | (_, []) => none

/-- Reads a name and a value with an equals sign between them. -/
def readAssignment (cs : List Char) : Except SettingProblem (String × Int) :=
  match splitAssignment cs with
  | none => .error (.noAssignment (String.ofList cs))
  | some (name, value) =>
    match Blank.trim name with
    | [] => .error .noName
    | name =>
      match Decimal.read (String.ofList (Blank.trim value)) with
      | .ok value => .ok (String.ofList name, value)
      | .error e => .error (.refused e)

/-- The part of a line before a comment, without blanks at its ends. -/
def content (line : List Char) : List Char :=
  Blank.trim (line.takeWhile (· != '#'))

/-- Reads lines, numbered from `number` on, into settings and lines that could not be used. -/
def parseLines (number : Nat) : List (List Char) → List Setting × List RefusedLine
  | [] => ([], [])
  | line :: rest =>
    let (settings, refused) := parseLines (number + 1) rest
    let text := content line
    if text.isEmpty then (settings, refused)
    else
      match readAssignment text with
      | .ok (name, value) => (⟨number, name, value⟩ :: settings, refused)
      | .error problem => (settings, ⟨number, problem⟩ :: refused)

/-- Reads a text into settings and lines that could not be used. -/
def parse (text : String) : List Setting × List RefusedLine := parseLines 1 (lines text)

/-- Takes settings over in order. Those that are refused are passed over. -/
def apply (ps : Properties) : List Setting → Properties × List RefusedLine
  | [] => (ps, [])
  | setting :: rest =>
    match ps.set setting.name setting.value with
    | .ok ps => apply ps rest
    | .error e =>
      let (ps, refused) := apply ps rest
      (ps, ⟨setting.line, .refused e⟩ :: refused)

/-- Takes the settings of a text over, and lists the lines that could not be used in order. -/
def applyText (ps : Properties) (text : String) : Properties × List RefusedLine :=
  let (settings, unread) := parse text
  let (ps, refused) := apply ps settings
  (ps, (unread ++ refused).mergeSort fun a b => a.line ≤ b.line)

/-- Takes the settings of a file over. -/
def load (files : Files) (path : String) (ps : Properties) :
    Except Error (Properties × List RefusedLine) :=
  match files.readText path with
  | .ok text => .ok (applyText ps text)
  | .error problem => .error (.io path problem)

end Settings

/-- What the environment says about where things are and what to report. -/
structure Environment where
  /-- The home directory. -/
  home : Option String
  /-- The directory for settings, if it is not the usual one. -/
  configHome : Option String
  /-- The settings file, if it is not at a usual place. -/
  settingsFile : Option String
  /-- The events to report. -/
  log : Option String
  /-- The events to report, if they are not chosen otherwise. -/
  fallbackLog : Option String

namespace Environment

/-- A path inside a directory. -/
def join (directory path : String) : String :=
  if directory.isEmpty || directory.endsWith "/" then directory ++ path
  else directory ++ "/" ++ path

/-- The directory for settings: the one that is said to be, if it is said from the root on, and else
one in the home directory. -/
def configDir? (env : Environment) : Option String :=
  match env.configHome.filter (·.startsWith "/") with
  | some directory => if env.home.isSome then some directory else none
  | none => env.home.map (join · ".config")

/-- The places for a settings file, the first to be tried first. -/
def settingsPaths (env : Environment) : List String :=
  env.settingsFile.toList
    ++ (env.configDir?.map fun dir => join (join dir "ttm") "ttmrc").toList
    ++ ["./.ttmrc"]

/-- The settings file to use. -/
def settingsPath? (env : Environment) (files : Files) : Option String :=
  env.settingsPaths.find? files.isFile

end Environment

end TextMacro
