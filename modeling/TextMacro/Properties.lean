import TextMacro.Text.Decimal

/-!
# Properties

The settings of a session: whole numbers with a name, an initial value and a range.
-/

namespace TextMacro

/-- The settings of a session. -/
inductive Property where
  /-- How deep calls may be nested. -/
  | stackSize
  /-- How many calls may be made. -/
  | execCount
  /-- Whether the text left by a program is printed. -/
  | showFinal
  /-- Whether what is read is printed. -/
  | echo
  deriving DecidableEq, Repr

namespace Property

/-- The properties in the order of their names. -/
def all : List Property := [echo, execCount, showFinal, stackSize]

/-- The name of a property. -/
def name : Property → String
  | stackSize => "stacksize"
  | execCount => "execcount"
  | showFinal => "showfinal"
  | echo => "echo"

/-- The property with a name. -/
def ofName? (name : String) : Option Property :=
  all.find? (·.name == name)

/-- The value a property starts with. -/
def initial : Property → Int
  | stackSize => 64
  | execCount => 100000
  | showFinal => 1
  | echo => 0

/-- The least value a property may have. -/
def least : Property → Int
  | stackSize | execCount => 1
  | showFinal | echo => 0

/-- The greatest value a property may have. -/
def greatest : Property → Int
  | stackSize => 4096
  | execCount => Decimal.maxValue
  | showFinal | echo => 1

/-- Whether a property may have a value. -/
def allows (p : Property) (value : Int) : Bool :=
  p.least ≤ value && value ≤ p.greatest

end Property

/-- The values of the properties. -/
structure Properties where
  stackSizeValue : Int
  execCountValue : Int
  showFinalValue : Int
  echoValue : Int
  deriving DecidableEq, Repr

namespace Properties

/-- The values that the properties start with. -/
def initial : Properties :=
  ⟨Property.stackSize.initial, Property.execCount.initial, Property.showFinal.initial,
    Property.echo.initial⟩

/-- Properties of which nothing is said have their initial values. -/
instance : Inhabited Properties := ⟨initial⟩

/-- The value of a property. -/
def value (ps : Properties) : Property → Int
  | .stackSize => ps.stackSizeValue
  | .execCount => ps.execCountValue
  | .showFinal => ps.showFinalValue
  | .echo => ps.echoValue

/-- Gives a property a value. -/
def put (ps : Properties) (p : Property) (value : Int) : Properties :=
  match p with
  | .stackSize => { ps with stackSizeValue := value }
  | .execCount => { ps with execCountValue := value }
  | .showFinal => { ps with showFinalValue := value }
  | .echo => { ps with echoValue := value }

/-- The property with a name that has to have one. -/
def named (name : String) : Except Error Property :=
  match Property.ofName? name with
  | some p => .ok p
  | none => .error (.unknownProperty name)

/-- The value of the property with a name. -/
def get (ps : Properties) (name : String) : Except Error Int :=
  ps.value <$> named name

/-- Gives the property with a name a value, which has to be in its range. -/
def set (ps : Properties) (name : String) (value : Int) : Except Error Properties := do
  let p ← named name
  if p.allows value then .ok (ps.put p value) else .error (.outOfRange name value)

/-- The names and values in the order of the names. -/
def list (ps : Properties) : List (String × Int) :=
  Property.all.map fun p => (p.name, ps.value p)

/-- How deep calls may be nested. -/
def stackSize (ps : Properties) : Nat := ps.stackSizeValue.toNat

/-- How many calls may be made. -/
def execCount (ps : Properties) : Nat := ps.execCountValue.toNat

/-- Whether the text left by a program is printed. -/
def showFinal (ps : Properties) : Bool := ps.showFinalValue != 0

/-- Whether what is read is printed. -/
def echo (ps : Properties) : Bool := ps.echoValue != 0

end Properties

end TextMacro
