/-!
# Splitting at commas

Two ways to turn commas into semicolons, so that a list written with commas becomes the arguments of
a call. Both leave an escape and the character after it alone.
-/

namespace TextMacro.Split

/-- Turns the commas outside parentheses into semicolons. `escaped` tells whether an escape comes
right before the text, and `depth` how many parentheses are open; closing one too many is ignored. -/
def commas (escape : Char) : (escaped : Bool) → (depth : Nat) → List Char → List Char
  | _, _, [] => []
  | true, depth, c :: rest => c :: commas escape false depth rest
  | false, depth, c :: rest =>
    if c = escape then c :: commas escape true depth rest
    else if c = ',' && depth = 0 then ';' :: commas escape false depth rest
    else if c = '(' then c :: commas escape false (depth + 1) rest
    else if c = ')' then c :: commas escape false (depth - 1) rest
    else c :: commas escape false depth rest

/-- Turns the commas outside parentheses into semicolons, and takes the outer parentheses away, with
a semicolon between what stood in them and its neighbours. `last` is the character written last. -/
def groups (escape : Char) :
    (escaped : Bool) → (depth : Nat) → (last : Option Char) → List Char → List Char
  | _, _, _, [] => []
  | true, depth, _, c :: rest => c :: groups escape false depth (some c) rest
  | false, 0, last, c :: rest =>
    if c = escape then c :: groups escape true 0 (some c) rest
    else if c = ',' then ';' :: groups escape false 0 (some ';') rest
    else if c = '(' then
      if last.isSome && last != some ';' then ';' :: groups escape false 1 (some ';') rest
      else groups escape false 1 last rest
    else c :: groups escape false 0 (some c) rest
  | false, depth + 1, last, c :: rest =>
    if c = escape then c :: groups escape true (depth + 1) (some c) rest
    else if c = '(' then c :: groups escape false (depth + 2) (some c) rest
    else if c = ')' then
      if depth = 0 then
        if rest.head?.any (· != ',') then ';' :: groups escape false 0 (some ';') rest
        else groups escape false 0 last rest
      else c :: groups escape false depth (some c) rest
    else c :: groups escape false (depth + 1) (some c) rest

/-- Turns the commas of a text that stand outside parentheses into semicolons. -/
def commasOf (escape : Char) (text : String) : String :=
  String.ofList (commas escape false 0 text.toList)

/-- Turns the commas of a text into semicolons and takes its outer parentheses away. -/
def groupsOf (escape : Char) (text : String) : String :=
  String.ofList (groups escape false 0 none text.toList)

end TextMacro.Split
