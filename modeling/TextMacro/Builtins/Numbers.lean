import TextMacro.Session.Basic

/-!
# Builtins for numbers

Arithmetic on decimal texts, with every result checked against the 64-bit range, and comparisons of
numbers and of texts.
-/

namespace TextMacro.Builtins

open TextMacro.Action

/-- The numbers that all arguments stand for. -/
def operands (f : Frame) : Except Error (List Int) :=
  f.rest.mapM Decimal.read

/-- The numbers that the first two arguments stand for. -/
def operandPair (f : Frame) : Except Error (Int × Int) := do
  let a ← Decimal.read (f.arg 1)
  let b ← Decimal.read (f.arg 2)
  return (a, b)

/-- Combines numbers from left to right, with each step checked. -/
def combine (op : Int → Int → Int) : List Int → Except Error Int
  | [] => .ok 0
  | first :: rest => rest.foldlM (fun total n => Decimal.checked (op total n)) first

/-- Combines all arguments. -/
def combineAll (op : Int → Int → Int) (f : Frame) : Except Error Int := do
  combine op (← operands f)

/-- The sum of the arguments. -/
def add (f : Frame) : Except Error Int := combineAll (· + ·) f

/-- The product of the arguments. -/
def multiply (f : Frame) : Except Error Int := combineAll (· * ·) f

/-- The first argument less the second. -/
def subtract (f : Frame) : Except Error Int := do
  let (a, b) ← operandPair f
  Decimal.checked (a - b)

/-- The quotient of the first two arguments, without its fraction, and the remainder. -/
def quotient (f : Frame) : Except Error (Int × Int) := do
  let (a, b) ← operandPair f
  if b = 0 then .error .divideByZero
  else do
    let q ← Decimal.checked (a.tdiv b)
    return (q, a.tmod b)

/-- The quotient of the first two arguments. -/
def divide (f : Frame) : Except Error Int := Prod.fst <$> quotient f

/-- The remainder of the first two arguments. -/
def remainder (f : Frame) : Except Error Int := Prod.snd <$> quotient f

/-- The first argument without its sign. -/
def absolute (f : Frame) : Except Error Int := do
  let a ← Decimal.read (f.arg 1)
  Decimal.checked a.natAbs

/-- Yields the text of a number. -/
def yieldNumber (result : Except Error Int) : Action String :=
  Decimal.render <$> lift result

/-- Yields the third argument if the numbers of the first two compare as asked, and the fourth if
not. -/
def compareNumbers (want : Ordering) (f : Frame) : Action String := do
  let (a, b) ← lift (operandPair f)
  return if compare a b = want then f.arg 3 else f.arg 4

/-- Yields the third argument if the first two compare as asked, and the fourth if not. -/
def compareTexts (want : Ordering) (f : Frame) : Action String :=
  return if compare (f.arg 1) (f.arg 2) = want then f.arg 3 else f.arg 4

end TextMacro.Builtins
