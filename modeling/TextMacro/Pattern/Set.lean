import TextMacro.Pattern.Basic

/-!
# Sets in brackets

The sets of characters that stand in patterns. A set has members (characters, ranges, named classes
and sets) and may be joined to another by an operator: intersection, difference and symmetric
difference, which are read from left to right.
-/

namespace TextMacro.Pattern

/-! ## Members -/

/-- The names of classes that are written between `[:` and `:]`. -/
def namedClasses : List String :=
  ["alnum", "alpha", "ascii", "blank", "cntrl", "digit", "graph", "lower", "print", "punct", "space",
    "upper", "word", "xdigit"]

/-- Reads a named class, of which the first bracket is already read, and whether its complement is
meant. -/
def namedClass? : List Char → Option (Bool × List Char)
  | ':' :: rest =>
    let complement := rest.head? = some '^'
    let rest := if complement then rest.tail else rest
    match rest.span (· != ':') with
    | (name, ':' :: ']' :: rest) =>
      if namedClasses.contains (String.ofList name) then some (complement, rest) else none
    | _ => none
  | _ => none

/-- Whether a named class can be a member of a set. -/
def Flags.admitsClass (flags : Flags) (complement : Bool) : Bool :=
  if flags.wide then !flags.eitherCase else !complement

/-- Reads a member that is no set and no named class: the character it stands for, if it stands for
one. -/
def member? (flags : Flags) : List Char → Option (Option Char × List Char)
  | [] => none
  | '\\' :: rest => do
    match ← escape? flags rest with
    | (.literal c _, rest) => if flags.admitsMember c then return (some c, rest) else failure
    | (.characterClass, rest) => return (none, rest)
    | (.assertion, _) => failure
  | c :: rest => if flags.admitsMember c then some (some c, rest) else none

/-- Reads a member as `member?` does, or a range of characters. -/
def range? (flags : Flags) (cs : List Char) : Option (List Char) := do
  let (first, rest) ← member? flags cs
  match flags.skip rest with
  | '-' :: behind =>
    let next := flags.glimpse behind
    if next = some ']' || next = some '-' then return '-' :: behind
    match first, ← member? flags (flags.skip behind) with
    | some first, (some last, rest) => if first ≤ last then return rest else failure
    | _, _ => failure
  | rest => return rest

/-! ## Sets -/

/-- Where the reader is in a set. -/
inductive Place where
  /-- Behind the opening bracket. -/
  | start
  /-- Behind the circumflex, which means the complement of the set. -/
  | complement
  /-- Behind hyphens at the start. -/
  | hyphens
  | inside
  deriving DecidableEq, Repr

/-- A set that is being read. -/
structure OpenSet where
  place : Place
  /-- The heights of the members since the last operator. -/
  members : List Nat
  /-- The height of what stands before the last operator. -/
  left : Option Nat

namespace OpenSet

/-- A set of which nothing is read but the bracket. -/
def start : OpenSet := ⟨.start, [], none⟩

/-- The height of a set as far as it is read. -/
def height (s : OpenSet) : Nat :=
  match s.left with
  | none => joint s.members
  | some left => joint [left, joint s.members]

/-- Takes over a member of a certain height. -/
def add (s : OpenSet) (height : Nat) : OpenSet :=
  { s with place := .inside, members := height :: s.members }

/-- Takes over an operator. -/
def split (s : OpenSet) : OpenSet := ⟨.inside, [], some s.height⟩

/-- Whether a character is a member although it has another meaning elsewhere in the set: hyphens at
the start, and a closing bracket that would leave the set empty. -/
def isPlainHere (s : OpenSet) (c : Char) : Bool :=
  (c == '-' && s.place != .inside) || (c == ']' && (s.place == .start || s.place == .complement))

end OpenSet

/-- What the reader of a set has come upon. -/
inductive SetStep where
  | member (s : OpenSet) (rest : List Char)
  | opening (rest : List Char)
  | closing (rest : List Char)

/-- Reads the next part of a set, which begins with `c`. The complement of a set of bytes would hold
some that are no characters. -/
def OpenSet.step? (flags : Flags) (s : OpenSet) (c : Char) (rest : List Char) : Option SetStep :=
  if c = '^' && s.place = .start then
    if flags.wide then some (.member { s with place := .complement } rest) else none
  else if s.isPlainHere c then
    if flags.admitsMember c then
      some (.member { s.add 0 with place := if c = '-' then .hyphens else .inside } rest)
    else none
  else if c = '[' then
    match namedClass? rest with
    | some (complement, rest) =>
      if flags.admitsClass complement then some (.member (s.add 0) rest) else none
    | none => some (.opening rest)
  else if c = ']' then some (.closing rest)
  else if (c = '&' || c = '-' || c = '~') && rest.head? = some c then
    some (.member s.split rest.tail)
  else (range? flags (c :: rest)).map (.member (s.add 0))

/-- Reads what is left of a set and of those around it, in at most `fuel` parts. Yields the height of
the outermost. -/
def setFrom? (flags : Flags) :
    (fuel : Nat) → OpenSet → (outer : List OpenSet) → List Char → Option (Nat × List Char)
  | 0, _, _, _ => none
  | fuel + 1, s, outer, cs =>
    match flags.skip cs with
    | [] => none
    | c :: rest =>
      match s.step? flags c rest with
      | none => none
      | some (.member s rest) => setFrom? flags fuel s outer rest
      | some (.opening rest) => setFrom? flags fuel .start (s :: outer) rest
      | some (.closing rest) =>
        match outer with
        | [] => some (s.height + 1, rest)
        | parent :: outer => setFrom? flags fuel (parent.add (s.height + 1)) outer rest

/-- Reads a set of which the opening bracket is already read. Yields its height. -/
def set? (flags : Flags) (cs : List Char) : Option (Nat × List Char) :=
  setFrom? flags (cs.length + 1) .start [] cs

end TextMacro.Pattern
