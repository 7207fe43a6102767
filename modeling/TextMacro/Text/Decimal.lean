import TextMacro.Error

/-!
# Decimal numbers

Numbers are written in decimal, with an optional sign, and have to fit into 64 bits.
-/

namespace TextMacro.Decimal

/-- The least number that fits. -/
def minValue : Int := -9223372036854775808

/-- The greatest number that fits. -/
def maxValue : Int := 9223372036854775807

/-- Whether a number fits into 64 bits. -/
def fits (n : Int) : Bool :=
  minValue ≤ n && n ≤ maxValue

/-- A number that fits; any other is an overflow. -/
def checked (n : Int) : Except Error Int :=
  if fits n then .ok n else .error .overflow

/-- The number that a non-empty sequence of digits stands for. -/
def magnitude? (digits : List Char) : Option Nat :=
  if digits.isEmpty || !digits.all Char.isDigit then none
  else some (digits.foldl (fun n c => 10 * n + (c.toNat - 48)) 0)

/-- Whether the text has a minus sign, and what follows its sign. -/
def splitSign : List Char → Bool × List Char
  | '-' :: digits => (true, digits)
  | '+' :: digits => (false, digits)
  | digits => (false, digits)

/-- Reads a number: an optional sign, then one or more digits. -/
def read (text : String) : Except Error Int :=
  let (minus, digits) := splitSign text.toList
  match magnitude? digits with
  | none => .error (.notDecimal text)
  | some n => checked (if minus then -(n : Int) else n)

/-- Reads a number that is not negative. -/
def readCount (text : String) : Except Error Nat := do
  let n ← read text
  if n < 0 then .error (.negative text) else .ok n.toNat

/-- The text of a number. -/
def render (n : Int) : String :=
  n.repr

/-- The text of a number, with zeros in front up to a width. -/
def renderPadded (width n : Nat) : String :=
  let digits := n.repr
  String.ofList (List.replicate (width - digits.length) '0') ++ digits

end TextMacro.Decimal
