import TextMacro.Session.Basic

/-!
# Builtins for definitions

Binding, copying, erasing, segmenting, locking and tracing names. Those that take several names work
through them in order and stop at the first that fails.
-/

namespace TextMacro.Builtins

open TextMacro.Action

/-- Binds the first argument to the second. -/
def defineString (f : Frame) : Action String := do
  require (·.unlocked (f.arg 1))
  changeDict (·.bind (f.arg 1) (f.arg 2))
  report (.nameDefined (f.arg 1) (f.arg 2).utf8ByteSize)
  return ""

/-- Adds the second argument to the string that the first names. -/
def appendString (f : Frame) : Action String := do
  require (·.extensible (f.arg 1))
  unless (← get).dict.contains (f.arg 1) do
    report (.nameDefined (f.arg 1) 0)
  changeDict (·.extend (f.arg 1) (f.arg 2))
  return ""

/-- Binds the first argument to a copy of the string that the second names. -/
def copyString (f : Frame) : Action String := do
  let body ← lift ((← get).dict.body (f.arg 2))
  require (·.unlocked (f.arg 1))
  changeDict (·.register (.ofBody (f.arg 1) body))
  report (.nameDefined (f.arg 1) 0)
  return ""

/-- Puts the creation mark in place of the second argument in the string that the first names. -/
def markCreation (f : Frame) : Action String := do
  let _ ← onBody (f.arg 1) fun body =>
    let (count, body) := body.markCreation (f.arg 2)
    (.ok count, body)
  return ""

/-- Removes a name. -/
def eraseName (name : String) : Action PUnit := do
  require (·.unlocked name)
  if (← get).dict.contains name then
    report (.nameErased name)
  changeDict (·.unbind name)

/-- Removes names; a name that is not bound is passed over. -/
def eraseNames (f : Frame) : Action String := do
  f.rest.forM eraseName
  return ""

/-- Puts segment marks in place of the further arguments in the string that the first names, and
tells how many. -/
def segmentPatterns (f : Frame) : Action Nat := do
  let name := f.arg 1
  let replaced ← onBody name (·.segment name f.rest.tail)
  report (.stringSegmented name replaced)
  return replaced

/-- Puts segment marks in place of patterns. -/
def segment (f : Frame) : Action String := do
  let _ ← segmentPatterns f
  return ""

/-- Puts segment marks in place of patterns and yields how many. -/
def segmentCount (f : Frame) : Action String := do
  return (← segmentPatterns f).repr

/-- Yields the second argument if the first is bound, and the third if not. -/
def ifDefined (f : Frame) : Action String := do
  return if (← get).dict.contains (f.arg 1) then f.arg 2 else f.arg 3

/-- Yields the bound names, those of builtins only if there is an argument. -/
def listNames (f : Frame) : Action String := do
  return ",".intercalate ((← get).dict.names (0 < f.argc))

/-- Locks or unlocks a name. -/
def setLock (locked : Bool) (name : String) : Action PUnit := do
  require (·.bound name)
  changeDict (·.modify name ({ · with locked }))
  report (.lockChanged name locked)

/-- Locks names. -/
def lockNames (f : Frame) : Action String := do
  f.rest.forM (setLock true)
  return ""

/-- Unlocks names. -/
def unlockNames (f : Frame) : Action String := do
  f.rest.forM (setLock false)
  return ""

/-- Turns the tracing of names on or off, or that of all calls if no name is given. -/
def setTrace (traced : Bool) (f : Frame) : Action String := do
  match f.rest with
  | [] => modify ({ · with traceAll := traced })
  | names => names.forM fun name => do
    require (·.bound name)
    changeDict (·.modify name ({ · with traced }))
  return ""

end TextMacro.Builtins
