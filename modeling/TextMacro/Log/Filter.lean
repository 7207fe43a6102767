import TextMacro.Log.Event
import TextMacro.Pattern.Read
import TextMacro.Text.Blank
import TextMacro.Text.Numeral
import TextMacro.Text.Wordlike

/-!
# Choosing events

A filter chooses the events to be reported. It is written as directives with commas between them,
such as `warn,ttm::trace=info`: a directive gives a topic, a field in brackets, a severity, or some of
these. An event is chosen or not by the most specific directive that is about it: of those whose topic
its topic begins with and whose field it has, the one with the longest topic, then one with a field,
then the one whose field comes last in the alphabet, then the one written last.
-/

namespace TextMacro

/-- One directive of a filter. -/
inductive Directive where
  /-- Events that have the field are chosen down to a rank in the topics that begin with `topic`. -/
  | upTo (topic : Option String) (field : Option String) (rank : Nat)
  /-- The directive is about spans of time with a name or about the value of a field, which say
  nothing about events. -/
  | inert
  deriving DecidableEq, Repr

namespace Directive

/-- The number that a text stands for, with a plus sign or without, if it fits into 64 bits. -/
def number? (text : String) : Option Nat :=
  let digits := match text.toList with
    | '+' :: digits => digits
    | digits => digits
  (Decimal.magnitude? digits).filter (· < 18446744073709551616)

/-- The rank that a number or a word for a severity stands for; `off` chooses nothing. -/
def rank? (word : String) : Option Nat :=
  match (number? word).filter (· ≤ 5) with
  | some rank => some rank
  | none =>
    match word.toLower with
    | "off" => some 0
    | "error" => some 1
    | "warn" => some 2
    | "info" => some 3
    | "debug" => some 4
    | "trace" => some 5
    | _ => none

/-- The rank of a directive that does not give one. -/
def fullRank : Nat := 5

/-! ## Reading a directive -/

/-- The part of a directive that is being read, with the position where it starts. -/
inductive Part where
  | nothing
  /-- A severity or a topic. -/
  | word (start : Nat)
  /-- What stands in brackets before a field. -/
  | span (start : Nat)
  | field (start : Nat)
  /-- The field is closed, but not the bracket. -/
  | fieldEnd
  /-- The bracket is closed. -/
  | bracketEnd
  /-- A severity behind an equals sign. -/
  | severity (start : Nat)
  deriving DecidableEq, Repr

/-- What is read of a directive. -/
structure Draft where
  part : Part
  topic : Option String
  /-- Whether spans of a certain name are meant. -/
  spanNamed : Bool
  field : Option String
  /-- Whether the field is to have a certain value. -/
  valued : Bool

/-- A directive of which nothing is read. -/
def Draft.start : Draft := ⟨.nothing, none, false, none, false⟩

/-- Whether a directive can start with a character other than a bracket. -/
def canStart (c : Char) : Bool :=
  c == '-' || c == ':' || c == '_' || Wordlike.isWordlike c

/-- The part of a text between two byte positions. -/
def cut? (text : String) (start stop : Nat) : Option String :=
  String.fromUTF8? (text.toUTF8.extract start stop)

/-- Takes over a field, which may have a value: a number or a pattern. -/
def Draft.takeField (d : Draft) (text : String) : Option Draft :=
  match text.splitOn "=" with
  | [""] => none
  | [name] => some { d with part := .fieldEnd, field := some name }
  | name :: value :: _ =>
    if Numeral.isNumeral value.toList || Pattern.isPattern value.toList then
      some { d with part := .fieldEnd, field := some name, valued := true }
    else none
  | [] => none

/-- Reads the character `c` at the byte position `pos`. -/
def Draft.read (text : String) (d : Draft) (pos : Nat) (c : Char) : Option Draft := do
  match d.part with
  | .nothing =>
    if c = '[' then return { d with part := .span (pos + 1) }
    else if canStart c then return { d with part := .word pos }
    else failure
  | .word start =>
    if c = '=' then
      return { d with part := .severity (pos + 1), topic := some (← cut? text start pos) }
    else if c = '[' then
      return { d with part := .span (pos + 1), topic := some (← cut? text start pos) }
    else return d
  | .span start =>
    if c = ']' then return { d with part := .bracketEnd, spanNamed := true }
    else if c = '{' then
      return { d with part := .field (pos + 1), spanNamed := (← cut? text start pos) != "" }
    else return d
  | .field start => if c = '}' then d.takeField (← cut? text start pos) else return d
  | .fieldEnd => if c = ']' then return { d with part := .bracketEnd } else failure
  | .bracketEnd => if c = '=' then return { d with part := .severity (pos + 1) } else failure
  | .severity _ => return d

/-- Reads characters from a position on. -/
def Draft.readAll (text : String) (d : Draft) (pos : Nat) : List Char → Option Draft
  | [] => some d
  | c :: rest => do (← d.read text pos c).readAll text (pos + c.utf8Size) rest

/-- The directive with a rank for what a draft says. -/
def Draft.finish (d : Draft) (rank : Nat) : Directive :=
  if d.spanNamed || d.valued then .inert else .upTo d.topic d.field rank

/-- Reads a directive. Its characters are read without the blanks around it; its parts are cut out of
the whole text at the positions found, so that a blank in front moves them. -/
def parse? (text : String) : Option Directive := do
  let d ← Draft.start.readAll text 0 (Blank.trim text.toList)
  match d.part with
  | .word start =>
    let word ← cut? text start text.utf8ByteSize
    match rank? word with
    | some rank => return d.finish rank
    | none => return { d with topic := some word }.finish fullRank
  | .severity start =>
    let word ← cut? text start text.utf8ByteSize
    if word.isEmpty then return d.finish fullRank else return d.finish (← rank? word)
  | .bracketEnd => return d.finish fullRank
  | _ => failure

/-! ## Specificity -/

/-- Whether a directive is about an event. -/
def isAbout (topic field : Option String) (e : Event) : Bool :=
  (topic.all fun t => e.topic.startsWith t) && field.all e.hasField

/-- How specific a directive is by its topic. -/
def topicWeight (topic : Option String) : Nat :=
  match topic with
  | none => 0
  | some topic => topic.utf8ByteSize + 1

/-- Whether a field is at least as specific as another. -/
def fieldOutweighs : (field other : Option String) → Bool
  | _, none => true
  | none, some _ => false
  | some field, some other => decide (other ≤ field)

end Directive

/-- A choice of events. -/
structure Filter where
  directives : List Directive

namespace Filter

/-- Reads a filter. One without directives chooses errors. -/
def parse? (text : String) : Option Filter := do
  let directives ← ((text.splitOn ",").filter (· != "")).mapM Directive.parse?
  return ⟨if directives.isEmpty then [.upTo none none 1] else directives⟩

/-- The most specific directive about an event so far: its weight by topic, its field and its rank. -/
structure Best where
  weight : Nat
  field : Option String
  rank : Nat

/-- The rank down to which events like `e` are chosen, by the best directive so far and those that
follow. -/
def rankFrom (e : Event) : Option Best → List Directive → Nat
  | best, [] => (best.map (·.rank)).getD 0
  | best, .inert :: rest => rankFrom e best rest
  | best, .upTo topic field rank :: rest =>
    let weight := Directive.topicWeight topic
    let better := Directive.isAbout topic field e && best.all fun old =>
      old.weight < weight || (old.weight = weight && Directive.fieldOutweighs field old.field)
    rankFrom e (if better then some ⟨weight, field, rank⟩ else best) rest

/-- Whether an event is chosen. -/
def allows (filter : Filter) (e : Event) : Bool :=
  e.severity.rank ≤ rankFrom e none filter.directives

/-- Chooses the traces of calls and nothing else. -/
def callTraces : Filter := ⟨[.upTo (some "ttm::trace") none 3]⟩

/-- Chooses warnings and the traces of calls. -/
def standard : Filter := ⟨[.upTo none none 2, .upTo (some "ttm::trace") none 3]⟩

/-- Chooses all but the finest events. -/
def verbose : Filter := ⟨[.upTo none none 4]⟩

end Filter

/-- The events reported so far. -/
structure Log where
  filter : Filter
  /-- The events that were chosen, the latest first, each with the number of texts that had been
  written to the error stream before it. -/
  records : List (Nat × Event)

namespace Log

/-- A log of nothing yet. -/
def start (filter : Filter) : Log := ⟨filter, []⟩

/-- A log of which nothing is said reports the calls that are traced. -/
instance : Inhabited Log := ⟨start .callTraces⟩

/-- Reports an event after `printed` texts on the error stream. -/
def record (log : Log) (printed : Nat) (e : Event) : Log :=
  if log.filter.allows e then { log with records := (printed, e) :: log.records } else log

/-- Inserts the lines of the events, in their order, between the texts `printed` from number `count`
on. -/
def interleaveFrom (count : Nat) : List String → List (Nat × Event) → List String
  | [], events => events.map (·.2.line)
  | text :: texts, events =>
    let (now, later) := events.span fun (printed, _) => printed ≤ count
    now.map (·.2.line) ++ text :: interleaveFrom (count + 1) texts later

/-- What a terminal shows that gets both the texts written to the error stream and the lines of the
events. Both lists have the latest first. -/
def interleave (log : Log) (written : List String) : String :=
  String.join (interleaveFrom 0 written.reverse log.records.reverse)

end Log

end TextMacro
