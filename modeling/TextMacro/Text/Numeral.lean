/-!
# Numerals

Whether a text is a decimal number with a sign, a fraction and an exponent, or one of the words for
what is no finite number.
-/

namespace TextMacro.Numeral

/-- Whether a text is a run of digits. -/
def isDigits (cs : List Char) : Bool := !cs.isEmpty && cs.all Char.isDigit

/-- Whether a text is a numeral without a sign; the fraction and the exponent may both be missing, and
so may the digits on one side of the point. -/
def isUnsigned (cs : List Char) : Bool :=
  let (whole, rest) := cs.span Char.isDigit
  let (fraction, rest) := match rest with
    | '.' :: rest => rest.span Char.isDigit
    | rest => ([], rest)
  !(whole.isEmpty && fraction.isEmpty) &&
    match rest with
    | [] => true
    | e :: '+' :: digits | e :: '-' :: digits => e.toLower == 'e' && isDigits digits
    | e :: digits => e.toLower == 'e' && isDigits digits

/-- Whether a text is a numeral. -/
def isNumeral (cs : List Char) : Bool :=
  let cs := if cs.head? = some '+' || cs.head? = some '-' then cs.tail else cs
  ["inf", "infinity", "nan"].contains (String.ofList (cs.map Char.toLower)) || isUnsigned cs

end TextMacro.Numeral
