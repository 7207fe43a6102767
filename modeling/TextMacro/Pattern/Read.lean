import TextMacro.Pattern.Set
import TextMacro.Text.Wordlike

/-!
# Reading patterns

Whether a text is a pattern: all its groups and sets are closed, each repetition has something to
repeat, names of groups are used once, and nothing is nested too deep.
-/

namespace TextMacro.Pattern

/-! ## Groups -/

/-- How a group begins. -/
inductive Opening where
  /-- A group with flags of its own and a name if it has one. -/
  | group (flags : Flags) (name : Option String)
  /-- Not a group, but flags for what follows. -/
  | setFlags (flags : Flags)

/-- The letters that flags are written with. -/
def flagLetters : List Char := ['i', 'm', 's', 'U', 'u', 'R', 'x']

/-- The flags after the one with the given letter is turned on or off. -/
def Flags.turn (flags : Flags) (letter : Char) (on : Bool) : Flags :=
  match letter with
  | 'i' => { flags with eitherCase := on }
  | 'u' => { flags with wide := on }
  | 'x' => { flags with spaced := on }
  | _ => flags

/-- Reads flags up to the colon or parenthesis behind them. `off` tells whether a hyphen came, `seen`
which flags came, and `last` what came last. -/
def flags? (flags : Flags) (off : Bool) (seen : List Char) (last : Option Char) :
    List Char → Option (Opening × List Char)
  | [] => none
  | ':' :: rest => if last = some '-' then none else some (.group flags none, rest)
  | ')' :: rest =>
    if last = some '-' || last = none then none else some (.setFlags flags, rest)
  | '-' :: rest => if off then none else flags? flags true seen (some '-') rest
  | c :: rest =>
    if seen.contains c || !flagLetters.contains c then none
    else flags? (flags.turn c !off) off (c :: seen) (some c) rest

/-- Whether a character can stand in the name of a group. -/
def isNameChar (c : Char) : Bool :=
  c == '_' || c == '.' || c == '[' || c == ']' || Wordlike.isWordlike c

/-- Reads the name of a group up to the bracket behind it. -/
def groupName? (cs : List Char) : Option (String × List Char) :=
  match cs.span (· != '>') with
  | (first :: name, '>' :: rest) =>
    if (first == '_' || Wordlike.isLetter first) && name.all isNameChar then
      some (String.ofList (first :: name), rest)
    else none
  | _ => none

/-- Reads the beginning of a group, of which the parenthesis is already read. -/
def opening? (flags : Flags) : List Char → Option (Opening × List Char)
  | '?' :: 'P' :: '<' :: rest | '?' :: '<' :: rest => do
    let (name, rest) ← groupName? rest
    return (.group flags (some name), rest)
  | '?' :: rest => flags? flags false [] none rest
  | rest => some (.group flags none, rest)

/-! ## Parts -/

/-- A part of a pattern. -/
structure Part where
  /-- How many levels it has. -/
  height : Nat
  /-- Whether a repetition may follow. -/
  repeatable : Bool

/-- A group that is being read; a pattern as a whole is one too. -/
structure Group where
  flags : Flags
  /-- The parts of the current alternative, the last first. -/
  parts : List Part
  /-- The heights of the alternatives before. -/
  alternatives : List Nat

/-- How far a pattern is read. -/
structure State where
  /-- The innermost group. -/
  group : Group
  /-- The groups around it, the innermost first. -/
  outer : List Group
  /-- The names of the groups so far. -/
  names : List String

namespace Group

/-- A group of which nothing is read. -/
def start (flags : Flags) : Group := ⟨flags, [], []⟩

/-- Takes over a part. -/
def add (g : Group) (part : Part) : Group := { g with parts := part :: g.parts }

/-- The height of the current alternative. -/
def alternative (g : Group) : Nat := joint (g.parts.map (·.height))

/-- Begins another alternative. -/
def split (g : Group) : Group :=
  { g with parts := [], alternatives := g.alternative :: g.alternatives }

/-- The height of what a group holds. -/
def height (g : Group) : Nat := joint (g.alternative :: g.alternatives)

/-- Repeats the last part. -/
def again? (g : Group) : Option Group :=
  match g.parts with
  | ⟨height, true⟩ :: parts => some { g with parts := ⟨height + 1, true⟩ :: parts }
  | _ => none

end Group

/-- Takes over a part that holds no others. -/
def State.leaf (s : State) : State := { s with group := s.group.add ⟨0, true⟩ }

/-- Opens a group or changes the flags. -/
def State.enter? (s : State) : Opening → Option State
  | .setFlags flags => some { s with group := { s.group.add ⟨0, false⟩ with flags } }
  | .group flags name =>
    if name.any s.names.contains then none
    else some ⟨.start flags, s.group :: s.outer, name.toList ++ s.names⟩

/-- Closes the innermost group. -/
def State.leave? (s : State) : Option State :=
  match s.outer with
  | [] => none
  | parent :: outer =>
    some { s with group := parent.add ⟨s.group.height + 1, true⟩, outer }

/-- Reads the next part of a pattern, which begins with `c`. -/
def State.step? (s : State) (c : Char) (rest : List Char) : Option (State × List Char) :=
  let flags := s.group.flags
  match c with
  | '(' => do
    let (opening, rest) ← opening? flags (flags.skip rest)
    return (← s.enter? opening, rest)
  | ')' => do return (← s.leave?, rest)
  | '|' => some ({ s with group := s.group.split }, rest)
  | '?' | '*' | '+' => do
    let group ← s.group.again?
    return ({ s with group }, if rest.head? = some '?' then rest.tail else rest)
  | '{' => none
  | '[' => do
    let (height, rest) ← set? flags rest
    return ({ s with group := s.group.add ⟨height, true⟩ }, rest)
  | '\\' => do
    match ← escape? flags rest with
    | (.literal c byte, rest) => if flags.admits c byte then return (s.leaf, rest) else failure
    | (_, rest) => return (s.leaf, rest)
  | '.' => if flags.wide then some (s.leaf, rest) else none
  | '^' | '$' => some (s.leaf, rest)
  | c => if flags.admits c false then some (s.leaf, rest) else none

/-! ## Patterns -/

/-- How many levels a pattern may have. -/
def maxHeight : Nat := 250

/-- Whether the rest of a pattern can be read, in at most `fuel` parts. -/
def State.reads : (fuel : Nat) → State → List Char → Bool
  | 0, _, _ => false
  | fuel + 1, s, cs =>
    match s.group.flags.skip cs with
    | [] => s.outer.isEmpty && s.group.height ≤ maxHeight
    | c :: rest =>
      match s.step? c rest with
      | some (s, rest) => s.reads fuel rest
      | none => false

/-- Whether a text is a pattern. A repetition with a count in braces is none. -/
def isPattern (cs : List Char) : Bool :=
  State.reads (cs.length + 1) ⟨.start .initial, [], []⟩ cs

end TextMacro.Pattern
