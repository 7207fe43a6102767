/-!
# Symbol tables

A finite map from names to values, kept in 64 chains. The first byte of a name chooses its chain, and
the entries of a chain carry the hash of their name, which is compared before the name is. A name is
looked up once: what `locate` finds can be handed to `insertAt` or `eraseAt`.
-/

namespace TextMacro

/-- The number of chains. -/
abbrev chainCount : Nat := 64

/-- An entry of a symbol table. -/
structure Slot (α : Type) where
  /-- The hash of `name`. -/
  hash : UInt32
  name : String
  value : α

/-- Where a name stands in a symbol table, or where it would stand. -/
inductive Location where
  /-- The name stands at `pos` in a chain. -/
  | found (chain : Fin chainCount) (pos : Nat)
  /-- The name is not in the chain in which it would stand. -/
  | vacant (chain : Fin chainCount) (hash : UInt32)
  deriving DecidableEq, Repr

/-- A finite map from names to values. -/
structure SymbolTable (α : Type) where
  chains : Vector (Array (Slot α)) chainCount
  /-- The number of entries. -/
  size : Nat

namespace SymbolTable

/-- Adds the bytes from the one with the number `place` on, each with its number as its weight. -/
def weightedSum : UInt32 → UInt32 → List UInt8 → UInt32
  | _, sum, [] => sum
  | place, sum, byte :: rest => weightedSum (place + 1) (sum + byte.toUInt32 * place) rest

/-- The hash of a name: the sum of its bytes, weighted by their places. It is never zero. -/
def hash (name : String) : UInt32 :=
  let sum := weightedSum 1 0 name.toUTF8.data.toList
  if sum = 0 then 1 else sum

/-- The chain a name belongs to. -/
def chainOf (name : String) : Fin chainCount :=
  Fin.ofNat chainCount ((name.toUTF8[0]?).getD 0).toNat

/-- Removes the element at a place and puts the last one there. -/
def swapRemove {β : Type} (xs : Array β) (pos : Nat) : Array β :=
  match xs.back? with
  | some last => (xs.setIfInBounds pos last).pop
  | none => xs

variable {α : Type}

/-- The table without entries. -/
def empty : SymbolTable α := ⟨Vector.replicate chainCount #[], 0⟩

/-- A table of which nothing is said has no entries. -/
instance : Inhabited (SymbolTable α) := ⟨empty⟩

/-- Whether there are no entries. -/
def isEmpty (t : SymbolTable α) : Bool := t.size == 0

/-- Where a name stands. -/
def locate (t : SymbolTable α) (name : String) : Location :=
  let chain := chainOf name
  let h := hash name
  match t.chains[chain].findIdx? fun slot => slot.hash == h && slot.name == name with
  | some pos => .found chain pos
  | none => .vacant chain h

/-- The value at a location. -/
def valueAt? (t : SymbolTable α) : Location → Option α
  | .found chain pos => (t.chains[chain])[pos]?.map Slot.value
  | .vacant _ _ => none

/-- The value of a name. -/
def get? (t : SymbolTable α) (name : String) : Option α :=
  t.valueAt? (t.locate name)

/-- Whether a name has a value. -/
def contains (t : SymbolTable α) (name : String) : Bool :=
  match t.locate name with
  | .found _ _ => true
  | .vacant _ _ => false

/-- Changes one of the chains. -/
def onChain (chains : Vector (Array (Slot α)) chainCount) (chain : Fin chainCount)
    (change : Array (Slot α) → Array (Slot α)) : Vector (Array (Slot α)) chainCount :=
  ⟨chains.toArray.modify chain change, by simp⟩

/-- Gives the name at a location a value; a vacant location becomes the end of its chain. -/
def insertAt (t : SymbolTable α) (place : Location) (name : String) (value : α) : SymbolTable α :=
  let ⟨chains, size⟩ := t
  match place with
  | .found chain pos => ⟨onChain chains chain (·.modify pos ({ · with value })), size⟩
  | .vacant chain h => ⟨onChain chains chain (·.push ⟨h, name, value⟩), size + 1⟩

/-- Gives a name a value. -/
def insert (t : SymbolTable α) (name : String) (value : α) : SymbolTable α :=
  t.insertAt (t.locate name) name value

/-- Gives the name at a location a value, and yields the value that it had. -/
def exchangeAt (t : SymbolTable α) (place : Location) (name : String) (value : α) :
    Option α × SymbolTable α :=
  (t.valueAt? place, t.insertAt place name value)

/-- Gives a name a value, and yields the value that it had. -/
def exchange (t : SymbolTable α) (name : String) (value : α) : Option α × SymbolTable α :=
  t.exchangeAt (t.locate name) name value

/-- Removes the entry at a location. -/
def eraseAt (t : SymbolTable α) (place : Location) : SymbolTable α :=
  let ⟨chains, size⟩ := t
  match place with
  | .found chain pos => ⟨onChain chains chain (swapRemove · pos), size - 1⟩
  | .vacant _ _ => ⟨chains, size⟩

/-- Removes a name. -/
def erase (t : SymbolTable α) (name : String) : SymbolTable α :=
  t.eraseAt (t.locate name)

/-- Removes the entry at a location, and yields its value. -/
def takeAt (t : SymbolTable α) (place : Location) : Option α × SymbolTable α :=
  (t.valueAt? place, t.eraseAt place)

/-- Removes a name, and yields the value that it had. -/
def take (t : SymbolTable α) (name : String) : Option α × SymbolTable α :=
  t.takeAt (t.locate name)

/-- Changes the value of a name, if it has one. -/
def modify (t : SymbolTable α) (name : String) (f : α → α) : SymbolTable α :=
  match t.locate name with
  | .found chain pos =>
    let ⟨chains, size⟩ := t
    ⟨onChain chains chain (·.modify pos fun ⟨h, name, value⟩ => ⟨h, name, f value⟩), size⟩
  | .vacant _ _ => t

/-- Changes all values, each in a way that may depend on its name. -/
def mapEntries (t : SymbolTable α) (f : String → α → α) : SymbolTable α :=
  { t with chains :=
      t.chains.map (·.map fun slot => { slot with value := f slot.name slot.value }) }

/-- Changes all values in the same way. -/
def map (t : SymbolTable α) (f : α → α) : SymbolTable α :=
  t.mapEntries fun _ => f

/-- The entries, chain by chain. -/
def toList (t : SymbolTable α) : List (String × α) :=
  t.chains.toList.flatMap fun chain => chain.toList.map fun slot => (slot.name, slot.value)

/-- The names whose value passes a test, in ascending order. -/
def sortedNames (t : SymbolTable α) (keep : α → Bool) : List String :=
  ((t.toList.filter (keep ·.2)).map Prod.fst).mergeSort fun a b => decide (a ≤ b)

/-- Drops the entries that fail a test. -/
def filter (t : SymbolTable α) (keep : String → α → Bool) : SymbolTable α :=
  let chains := t.chains.map (·.filter fun slot => keep slot.name slot.value)
  ⟨chains, chains.toList.foldl (fun count chain => count + chain.size) 0⟩

/-- Drops all entries. -/
def clear (t : SymbolTable α) : SymbolTable α :=
  ⟨t.chains.map fun _ => #[], 0⟩

end SymbolTable

end TextMacro
