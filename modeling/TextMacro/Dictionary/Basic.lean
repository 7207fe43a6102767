import TextMacro.Dictionary.Body
import TextMacro.Dictionary.Builtin
import TextMacro.SymbolTable
import TextMacro.Text.Decimal

/-!
# The dictionary

The dictionary binds names to functions and, separately, to character classes. A function is a
builtin or a defined string. A locked entry can be neither redefined nor erased.
-/

namespace TextMacro

/-- What a function is. -/
inductive Meaning where
  | builtin (code : Builtin)
  | defined (body : Body)
  deriving DecidableEq

/-- An entry of the dictionary. -/
structure Function where
  name : String
  meaning : Meaning
  /-- Whether the calls of this function are traced. -/
  traced : Bool
  /-- Whether the entry is protected against being redefined or erased. -/
  locked : Bool
  minArgs : Nat
  /-- The number of arguments described as the greatest; none for no bound. -/
  maxArgs : Option Nat
  disposition : Disposition
  deriving DecidableEq

namespace Function

/-- An entry for a builtin. -/
def ofEntry (entry : Builtin.Entry) : Function :=
  ⟨entry.name, .builtin entry.builtin, false, false, entry.minArgs, entry.maxArgs,
    entry.disposition⟩

/-- An entry for a defined string with a given body. -/
def ofBody (name : String) (body : Body) : Function :=
  ⟨name, .defined body, false, false, 0, none, .value⟩

/-- An entry for a string that is being defined. -/
def ofString (name text : String) : Function :=
  ofBody name (Body.ofString text)

/-- Changes the body of a defined string. -/
def onBody (f : Function) (change : Body → Body) : Function :=
  match f with
  | ⟨name, .defined body, traced, locked, minArgs, maxArgs, disposition⟩ =>
    ⟨name, .defined (change body), traced, locked, minArgs, maxArgs, disposition⟩
  | f => f

/-- Whether the function is a builtin. -/
def isBuiltin (f : Function) : Bool :=
  match f.meaning with
  | .builtin _ => true
  | .defined _ => false

/-- The description of a function: its name, the least and the greatest number of arguments, with a
star for no bound, and the letter of its disposition. -/
def info (f : Function) : String :=
  f.name ++ "," ++ f.minArgs.repr ++ "," ++ (f.maxArgs.map Nat.repr).getD "*" ++ ","
    ++ f.disposition.letter.toString

end Function

/-- A set of characters. -/
structure CharClass where
  name : String
  /-- The characters that are listed. -/
  chars : List Char
  /-- Whether the class holds the characters that are not listed. -/
  negative : Bool
  deriving DecidableEq, Repr

namespace CharClass

/-- Whether a character is in the class. -/
def contains (k : CharClass) (c : Char) : Bool :=
  k.chars.contains c != k.negative

/-- The description of a class: its name, the listed characters, and whether it is negative. -/
def info (k : CharClass) : String :=
  k.name ++ "," ++ String.ofList k.chars ++ "," ++ (if k.negative then "1" else "0")

end CharClass

/-- The functions and the character classes by name. -/
structure Dictionary where
  functions : SymbolTable Function
  classes : SymbolTable CharClass

namespace Dictionary

/-- The dictionary without entries. -/
def empty : Dictionary := ⟨.empty, .empty⟩

/-- A dictionary of which nothing is said has no entries. -/
instance : Inhabited Dictionary := ⟨empty⟩

/-! ## Functions -/

/-- Changes the functions. -/
def onFunctions (d : Dictionary) (change : SymbolTable Function → SymbolTable Function) :
    Dictionary :=
  match d with
  | ⟨functions, classes⟩ => ⟨change functions, classes⟩

/-- Changes the classes. -/
def onClasses (d : Dictionary) (change : SymbolTable CharClass → SymbolTable CharClass) :
    Dictionary :=
  match d with
  | ⟨functions, classes⟩ => ⟨functions, change classes⟩

/-- The function of a name. -/
def function? (d : Dictionary) (name : String) : Option Function :=
  d.functions.get? name

/-- The function of a name that has to have one. -/
def function (d : Dictionary) (name : String) : Except Error Function :=
  match d.function? name with
  | some f => .ok f
  | none => .error (.undefinedName name)

/-- Whether a name has a function. -/
def contains (d : Dictionary) (name : String) : Bool :=
  d.functions.contains name

/-- Enters a function under its own name, whatever was there. -/
def register (d : Dictionary) (f : Function) : Dictionary :=
  d.onFunctions (·.insert f.name f)

/-- Refuses a name that has no function. -/
def bound (d : Dictionary) (name : String) : Except Error PUnit :=
  if d.contains name then .ok () else .error (.undefinedName name)

/-- Changes the function of a name, if it has one. -/
def modify (d : Dictionary) (name : String) (change : Function → Function) : Dictionary :=
  d.onFunctions (·.modify name change)

/-- Changes the function of a name that has to have one. -/
def update (d : Dictionary) (name : String) (change : Function → Function) :
    Except Error Dictionary := do
  d.bound name
  return d.modify name change

/-- Refuses a name whose entry is locked. -/
def unlocked (d : Dictionary) (name : String) : Except Error PUnit :=
  match d.function? name with
  | some f => if f.locked then .error (.locked name) else .ok ()
  | none => .ok ()

/-- The body of a defined string. -/
def body (d : Dictionary) (name : String) : Except Error Body :=
  match d.function? name with
  | some ⟨_, .defined body, _, _, _, _, _⟩ => .ok body
  | some _ => .error (.primitive name)
  | none => .error (.undefinedName name)

/-- Gives the defined string of a name another body. -/
def setBody (d : Dictionary) (name : String) (body : Body) : Dictionary :=
  d.modify name ({ · with meaning := .defined body })

/-- Binds a name to a string, in place of what it was bound to. -/
def bind (d : Dictionary) (name text : String) : Dictionary :=
  d.register (.ofString name text)

/-- Binds a name to a string if its entry is not locked. -/
def define (d : Dictionary) (name text : String) : Except Error Dictionary := do
  d.unlocked name
  return d.bind name text

/-- Refuses a name that is bound to a builtin. -/
def extensible (d : Dictionary) (name : String) : Except Error PUnit :=
  match d.function? name with
  | some f => if f.isBuiltin then .error (.primitive name) else .ok ()
  | none => .ok ()

/-- Adds text to the string of a name, which is bound to the empty string first if it is not bound.
The string then counts as read. -/
def extend (d : Dictionary) (name text : String) : Dictionary :=
  let d := if d.contains name then d else d.bind name ""
  d.modify name (·.onBody (·.append text))

/-- Adds text to the string of a name, which has to be one. -/
def append (d : Dictionary) (name text : String) : Except Error Dictionary := do
  d.extensible name
  return d.extend name text

/-- Binds a name to a copy of the string of another, with its marks and as far read as it is. -/
def copy (d : Dictionary) (new old : String) : Except Error Dictionary := do
  let body ← d.body old
  d.unlocked new
  return d.register (.ofBody new body)

/-- Removes a name. -/
def unbind (d : Dictionary) (name : String) : Dictionary :=
  d.onFunctions (·.erase name)

/-- Removes a name if its entry is not locked, and tells whether it was bound. -/
def erase (d : Dictionary) (name : String) : Except Error (Bool × Dictionary) := do
  d.unlocked name
  return (d.contains name, d.unbind name)

/-- Locks every entry. -/
def lockAll (d : Dictionary) : Dictionary :=
  d.onFunctions (·.map ({ · with locked := true }))

/-- The bound names in ascending order, without those of builtins unless `all` are asked for. -/
def names (d : Dictionary) (all : Bool) : List String :=
  d.functions.sortedNames fun f => all || !f.isBuiltin

/-- The number of bound names. -/
def size (d : Dictionary) : Nat := d.functions.size

/-! ## Character classes -/

/-- The class of a name that has to have one. -/
def charClass (d : Dictionary) (name : String) : Except Error CharClass :=
  match d.classes.get? name with
  | some k => .ok k
  | none => .error (.undefinedClass name)

/-- Binds a name to a class, in place of what it was bound to. -/
def defineClass (d : Dictionary) (name chars : String) (negative : Bool) : Dictionary :=
  d.onClasses (·.insert name ⟨name, chars.toList, negative⟩)

/-- Whether a name has a class. -/
def containsClass (d : Dictionary) (name : String) : Bool :=
  d.classes.contains name

/-- Removes the class of a name. -/
def eraseClass (d : Dictionary) (name : String) : Dictionary :=
  d.onClasses (·.erase name)

/-- The names of the classes in ascending order. -/
def classNames (d : Dictionary) : List String :=
  d.classes.sortedNames fun _ => true

/-- The dictionary that a session starts with: the builtins, all locked. -/
def initial : Dictionary :=
  (Builtin.catalogue.foldl (fun d entry => d.register (.ofEntry entry)) empty).lockAll

end Dictionary

end TextMacro
