import TextMacro.Text.Printable

/-!
# Quoted text

A text between quotation marks with every character that would not show spelled out, as diagnostics
print names.
-/

namespace TextMacro.Quoted

/-- A code point in hexadecimal digits, without leading zeros. -/
def hex (n : Nat) : String :=
  String.ofList (Nat.toDigits 16 n)

/-- How one character stands in a quoted text. -/
def escape (c : Char) : String :=
  match c with
  | '\x00' => "\\0"
  | '\t' => "\\t"
  | '\r' => "\\r"
  | '\n' => "\\n"
  | '"' => "\\\""
  | '\\' => "\\\\"
  | c =>
    if Printable.isShown c then String.singleton c
    else "\\u\x7b" ++ hex c.toNat ++ "\x7d"

/-- A text between quotation marks. -/
def quote (text : String) : String :=
  "\"" ++ text.foldl (fun out c => out ++ escape c) "" ++ "\""

end TextMacro.Quoted
