import TextMacro.Error

/-!
# Meta characters

The characters that give a program its structure. With the initial choice, `#<name;arg>` is an active
call, `##<name;arg>` a passive one, `<text>` a bracketed text and `\` an escape.
-/

namespace TextMacro

/-- The characters that give a program its structure, and the one that ends what is read. -/
structure MetaChars where
  sharp : Char
  opening : Char
  semi : Char
  closing : Char
  escape : Char
  /-- Ends what is read from the input, and a program in an interactive session. -/
  readEnd : Char
  deriving DecidableEq, Repr

/-- What a character means to the scanner. -/
inductive Role where
  | sharp | opening | semi | closing | escape
  /-- The character stands for itself. -/
  | plain
  deriving DecidableEq, Repr

namespace MetaChars

/-- The choice a session starts with. -/
def initial : MetaChars := ⟨'#', '<', ';', '>', '\\', '\n'⟩

/-- Meta characters of which nothing is said are the initial ones. -/
instance : Inhabited MetaChars := ⟨initial⟩

/-- The role a character has. -/
def role (m : MetaChars) (c : Char) : Role :=
  if c = m.escape then .escape
  else if c = m.semi then .semi
  else if c = m.closing then .closing
  else if c = m.opening then .opening
  else if c = m.sharp then .sharp
  else .plain

/-- The first character that occurs again later. -/
def firstRepeated? : List Char → Option Char
  | [] => none
  | c :: rest => if rest.contains c then some c else firstRepeated? rest

/-- Chooses other characters: sharp, opening, semicolon and closing, and the escape if a fifth is
given. The five have to be different. -/
def rebind (m : MetaChars) (chars : String) : Except Error MetaChars :=
  let choose (sharp opening semi closing escape : Char) : Except Error MetaChars :=
    match firstRepeated? [sharp, opening, semi, closing, escape] with
    | some c => .error (.badMeta (.repeated c))
    | none => .ok { m with sharp, opening, semi, closing, escape }
  match chars.toList with
  | [sharp, opening, semi, closing] => choose sharp opening semi closing m.escape
  | [sharp, opening, semi, closing, escape] => choose sharp opening semi closing escape
  | other => .error (.badMeta (.count other.length))

/-- Chooses the character that ends what is read. -/
def setReadEnd (m : MetaChars) (text : String) : Except Error MetaChars :=
  match text.toList with
  | [c] => .ok { m with readEnd := c }
  | _ => .error (.badMeta (.terminator text))

/-- The four characters that calls are written with. -/
def control (m : MetaChars) : String :=
  String.ofList [m.sharp, m.opening, m.semi, m.closing]

/-- All six characters. -/
def all (m : MetaChars) : String :=
  m.control ++ String.ofList [m.escape, m.readEnd]

end MetaChars

end TextMacro
