import TextMacro.Text.Blank

/-!
# Patterns

A pattern is a regular expression of the usual form: alternatives, groups, repetitions, sets in
brackets and escapes. Patterns are only told from what is none; nothing is matched against them. This
module has what all their parts share: the flags in force, the blanks and comments that may stand
between characters, escapes, and how deep parts are nested.

A pattern describes texts, so no part of it may stand for a byte that is no character; and there is no
data here on the classes and cases of characters beyond ASCII, so a part that would need them is
refused.
-/

namespace TextMacro.Pattern

/-! ## Flags -/

/-- How the characters of a part of a pattern are meant. -/
structure Flags where
  /-- Whether letters stand for themselves in either case. -/
  eitherCase : Bool
  /-- Whether parts stand for characters, and not for bytes. -/
  wide : Bool
  /-- Whether blanks and comments may stand between characters. -/
  spaced : Bool
  deriving DecidableEq, Repr

/-- The flags that a pattern begins with. -/
def Flags.initial : Flags := ⟨false, true, false⟩

/-- Whether a character can stand for itself outside of sets. `byte` tells whether it is written as
the number of a byte. -/
def Flags.admits (flags : Flags) (c : Char) (byte : Bool) : Bool :=
  if flags.wide then !flags.eitherCase else !byte || c.toNat < 0x80

/-- Whether a character can be a member of a set. -/
def Flags.admitsMember (flags : Flags) (c : Char) : Bool :=
  if flags.wide then !flags.eitherCase else c.toNat < 0x80

/-! ## Blanks and comments -/

/-- The characters behind blanks and comments. A comment goes from a number sign to the end of the
line; `comment` tells whether one is open. -/
def dropBlanks (comment : Bool) : List Char → List Char
  | [] => []
  | c :: rest =>
    if comment then dropBlanks (c != '\n') rest
    else if c = '#' then dropBlanks true rest
    else if Blank.isBlank c then dropBlanks false rest
    else c :: rest

/-- The characters behind blanks and comments, where these are passed over. -/
def Flags.skip (flags : Flags) (cs : List Char) : List Char :=
  if flags.spaced then dropBlanks false cs else cs

/-- The next character to tell a range from a hyphen by. Where blanks are passed over, so is a number
sign, but not the comment behind it. -/
def Flags.glimpse (flags : Flags) (cs : List Char) : Option Char :=
  if flags.spaced then
    match cs.dropWhile Blank.isBlank with
    | '#' :: rest => (rest.dropWhile Blank.isBlank).head?
    | rest => rest.head?
  else cs.head?

/-! ## Escapes -/

/-- What an escape stands for. -/
inductive Escape where
  /-- A character; `byte` tells whether it is written as the number of a byte. -/
  | literal (c : Char) (byte : Bool)
  | characterClass
  /-- A condition on the position. -/
  | assertion
  deriving DecidableEq, Repr

/-- The value of a hexadecimal digit. -/
def hexDigit? (c : Char) : Option Nat :=
  if c.isDigit then some (c.toNat - 48)
  else if 'a' ≤ c && c ≤ 'f' then some (c.toNat - 87)
  else if 'A' ≤ c && c ≤ 'F' then some (c.toNat - 55)
  else none

/-- Reads a number of exactly `count` hexadecimal digits behind the digits of `n`. -/
def hexNumber? (flags : Flags) : (count n : Nat) → List Char → Option (Nat × List Char)
  | 0, n, cs => some (n, cs)
  | _ + 1, _, [] => none
  | count + 1, n, c :: rest => do
    hexNumber? flags count (16 * n + (← hexDigit? c)) (flags.skip rest)

/-- Reads a character that is given by exactly `count` hexadecimal digits. -/
def hexEscape? (flags : Flags) (count : Nat) (cs : List Char) : Option (Escape × List Char) := do
  let (n, rest) ← hexNumber? flags count 0 (flags.skip cs)
  if Nat.isValidChar n then return (.literal (Char.ofNat n) (count == 2), rest) else failure

/-- Reads what follows a backslash. Of the classes and the conditions on words, those of all
characters are refused for want of data, and the complements of those of ASCII because they hold bytes
that are no characters. -/
def escape? (flags : Flags) : List Char → Option (Escape × List Char)
  | [] => none
  | c :: rest =>
    match c with
    | 'x' => hexEscape? flags 2 rest
    | 'u' => hexEscape? flags 4 rest
    | 'U' => hexEscape? flags 8 rest
    | 'd' | 's' | 'w' => if flags.wide then none else some (.characterClass, rest)
    | 'b' | 'B' | '<' | '>' => if flags.wide then none else some (.assertion, rest)
    | 'A' | 'z' => some (.assertion, rest)
    | 'a' => some (.literal '\x07' false, rest)
    | 'f' => some (.literal '\x0c' false, rest)
    | 'n' => some (.literal '\n' false, rest)
    | 'r' => some (.literal '\r' false, rest)
    | 't' => some (.literal '\t' false, rest)
    | 'v' => some (.literal '\x0b' false, rest)
    | c => if c.isAlphanum || 0x7F < c.toNat then none else some (.literal c false, rest)

/-! ## Nesting -/

/-- The height of what is joined from parts of the given heights: nothing and a single part add no
level, several parts add one. -/
def joint : List Nat → Nat
  | [] => 0
  | [height] => height
  | heights => heights.foldl max 0 + 1

end TextMacro.Pattern
