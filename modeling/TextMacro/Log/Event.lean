import TextMacro.Text.Decimal
import TextMacro.Text.Quoted

/-!
# Events

What a session reports about itself while it works. Each event has a severity and a topic, by which
it can be asked for, and a line of text.
-/

namespace TextMacro

/-- How important an event is. -/
inductive Severity where
  | error | warn | info | debug | trace
  deriving DecidableEq, Repr

namespace Severity

/-- The rank of a severity, the most important first. -/
def rank : Severity → Nat
  | error => 1
  | warn => 2
  | info => 3
  | debug => 4
  | trace => 5

/-- The word for a severity, filled up to five columns on the left. -/
def column : Severity → String
  | error => "ERROR"
  | warn => " WARN"
  | info => " INFO"
  | debug => "DEBUG"
  | trace => "TRACE"

end Severity

/-- Something that happened in a session. -/
inductive Event where
  /-- A call was begun, which makes `depth` calls in progress. -/
  | callStarted (depth : Nat) (active : Bool)
  /-- A traced call is carried out. -/
  | callEntered (depth : Nat) (call : String)
  /-- A traced call was carried out. -/
  | callLeft (depth : Nat) (name result : String)
  /-- A name was bound to a string of `bytes` bytes. -/
  | nameDefined (name : String) (bytes : Nat)
  /-- A name was removed. -/
  | nameErased (name : String)
  /-- A character class was defined. -/
  | classDefined (name : String) (negative : Bool)
  /-- Patterns were replaced by segment marks. -/
  | stringSegmented (name : String) (replaced : Nat)
  /-- An entry was locked or unlocked. -/
  | lockChanged (name : String) (locked : Bool)
  /-- The settings of a file are taken over. -/
  | settingsLoading (path : String)
  /-- A line of a settings file was refused. -/
  | settingRefused (path : String) (problem : String)
  deriving DecidableEq, Repr

namespace Event

/-- How important an event is. -/
def severity : Event → Severity
  | callStarted _ _ => .trace
  | callEntered _ _ | callLeft _ _ _ => .info
  | nameDefined _ _ | nameErased _ | classDefined _ _ | stringSegmented _ _ | lockChanged _ _
  | settingsLoading _ => .debug
  | settingRefused _ _ => .warn

/-- The topic of an event. -/
def topic : Event → String
  | callStarted _ _ => "ttm::engine::scan"
  | callEntered _ _ | callLeft _ _ _ => "ttm::trace"
  | nameDefined _ _ | nameErased _ | classDefined _ _ => "ttm::dict"
  | stringSegmented _ _ | lockChanged _ _ => "ttm::builtins::dict"
  | settingsLoading _ | settingRefused _ _ => "ttm"

/-- A truth value in a field. -/
def flag (b : Bool) : String := if b then "true" else "false"

/-- What an event says. -/
def message : Event → String
  | callStarted _ _ => "exec"
  | callEntered depth call => "[" ++ Decimal.renderPadded 2 depth ++ "] begin " ++ call
  | callLeft depth name result =>
    "[" ++ Decimal.renderPadded 2 depth ++ "] end " ++ name ++ " => " ++ result
  | nameDefined _ _ => "define"
  | nameErased _ => "erase"
  | classDefined _ _ => "define class"
  | stringSegmented _ _ => "segment"
  | lockChanged _ _ => "lock"
  | settingsLoading _ => "loading rc file"
  | settingRefused path problem => path ++ ": " ++ problem

/-- The named details of an event. -/
def fields : Event → List (String × String)
  | callStarted depth active => [("depth", depth.repr), ("active", flag active)]
  | callEntered _ _ | callLeft _ _ _ | settingRefused _ _ => []
  | nameDefined name bytes => [("name", Quoted.quote name), ("len", bytes.repr)]
  | nameErased name => [("name", Quoted.quote name)]
  | classDefined name negative => [("name", Quoted.quote name), ("negative", flag negative)]
  | stringSegmented name replaced => [("name", Quoted.quote name), ("replaced", replaced.repr)]
  | lockChanged name locked => [("name", Quoted.quote name), ("locked", flag locked)]
  | settingsLoading path => [("path", path)]

/-- Whether an event has a field; what it says is a field too. -/
def hasField (e : Event) (name : String) : Bool :=
  name == "message" || e.fields.any (·.1 == name)

/-- How a character of a message is shown: those that command a terminal are spelled out. -/
def shown (c : Char) : String :=
  match c with
  | '\x1b' => "\\x1b"
  | '\x07' => "\\x07"
  | '\x08' => "\\x08"
  | '\x0c' => "\\x0c"
  | '\x7f' => "\\x7f"
  | c =>
    if 0x80 ≤ c.toNat && c.toNat ≤ 0x9F then "\\u\x7b" ++ Quoted.hex c.toNat ++ "\x7d"
    else String.singleton c

/-- The line that reports an event. -/
def line (e : Event) : String :=
  let message := e.message.foldl (fun out c => out ++ shown c) ""
  let fields := e.fields.map fun (name, value) => " " ++ name ++ "=" ++ value
  e.severity.column ++ " " ++ message ++ String.join fields ++ "\n"

end Event

end TextMacro
