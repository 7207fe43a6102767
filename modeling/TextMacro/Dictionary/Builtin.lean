/-!
# Builtin functions

The builtins by what they do, and the catalogue of the names they are called by. What each one does
is defined with the families of builtins under `TextMacro.Builtins`.
-/

namespace TextMacro

/-- What becomes of the text a function produces. -/
inductive Disposition where
  /-- The function is called for its effect, and its text is dropped. -/
  | sideEffect
  /-- The function has a value. -/
  | value
  /-- Whether the function has a value depends on its arguments. -/
  | optional
  deriving DecidableEq, Repr

/-- The letter that describes a disposition. -/
def Disposition.letter : Disposition → Char
  | .sideEffect => 'S'
  | .value => 'V'
  | .optional => 'O'

/-- The builtin functions. -/
inductive Builtin where
  -- Definitions
  | defineString | appendString | copyString | markCreation | eraseNames
  | segment | segmentCount | ifDefined | listNames
  | lockNames | unlockNames | traceOn | traceOff
  -- Reading a defined string
  | readChar | readChars | skipChars | readItem | readSegment | matchStart | scanFor
  | rewind | ifExhausted
  -- Texts
  | takeText | splitCommas | splitGroups | reverseText | textLength
  -- Character classes
  | defineClass | defineNegativeClass | eraseClasses | readClass | skipClass | testClass
  | listClasses
  -- Numbers
  | add | subtract | multiply | divide | remainder | absolute
  | ifEqual | ifGreater | ifLess | ifSameText | ifTextAfter | ifTextBefore
  -- Streams
  | print | readString | promptAndRead | setReadEnd | includeFile
  -- The program and its surroundings
  | halt | clockTime | runTime | renderTime | countArguments | getArgument | control
  deriving DecidableEq, Repr

namespace Builtin

/-- How a builtin is entered in the catalogue. -/
structure Entry where
  name : String
  minArgs : Nat
  /-- The number of arguments described as the greatest; none for no bound. -/
  maxArgs : Option Nat
  disposition : Disposition
  builtin : Builtin

/-- The names of the builtins, with the arguments they take and what becomes of their text. -/
def catalogue : List Entry := [
  ⟨"ds", 2, some 2, .sideEffect, defineString⟩,
  ⟨"ap", 2, some 2, .sideEffect, appendString⟩,
  ⟨"cf", 2, some 2, .sideEffect, copyString⟩,
  ⟨"cr", 2, some 2, .sideEffect, markCreation⟩,
  ⟨"es", 1, none, .sideEffect, eraseNames⟩,
  ⟨"ss", 2, none, .sideEffect, segment⟩,
  ⟨"sc", 2, none, .value, segmentCount⟩,
  ⟨"ndf", 3, some 3, .optional, ifDefined⟩,
  ⟨"names", 0, some 1, .value, listNames⟩,
  ⟨"lf", 1, none, .sideEffect, lockNames⟩,
  ⟨"uf", 1, none, .sideEffect, unlockNames⟩,
  ⟨"tn", 0, none, .sideEffect, traceOn⟩,
  ⟨"tf", 0, none, .sideEffect, traceOff⟩,
  ⟨"cc", 1, some 1, .optional, readChar⟩,
  ⟨"cn", 2, some 2, .optional, readChars⟩,
  ⟨"sn", 2, some 2, .sideEffect, skipChars⟩,
  ⟨"cp", 1, some 1, .optional, readItem⟩,
  ⟨"cs", 1, some 1, .optional, readSegment⟩,
  ⟨"isc", 4, some 4, .optional, matchStart⟩,
  ⟨"scn", 3, some 3, .optional, scanFor⟩,
  ⟨"rrp", 1, some 1, .sideEffect, rewind⟩,
  ⟨"eos", 3, some 3, .optional, ifExhausted⟩,
  ⟨"gn", 2, some 2, .value, takeText⟩,
  ⟨"zlc", 1, some 1, .value, splitCommas⟩,
  ⟨"zlcp", 1, some 1, .value, splitGroups⟩,
  ⟨"flip", 1, some 1, .value, reverseText⟩,
  ⟨"norm", 1, some 1, .value, textLength⟩,
  ⟨"dcl", 2, some 2, .sideEffect, defineClass⟩,
  ⟨"dncl", 2, some 2, .sideEffect, defineNegativeClass⟩,
  ⟨"ecl", 1, none, .sideEffect, eraseClasses⟩,
  ⟨"ccl", 2, some 2, .optional, readClass⟩,
  ⟨"scl", 2, some 2, .sideEffect, skipClass⟩,
  ⟨"tcl", 4, some 4, .optional, testClass⟩,
  ⟨"classes", 0, some 0, .value, listClasses⟩,
  ⟨"ad", 2, none, .value, add⟩,
  ⟨"su", 2, some 2, .value, subtract⟩,
  ⟨"mu", 2, none, .value, multiply⟩,
  ⟨"dv", 2, some 2, .value, divide⟩,
  ⟨"dvr", 2, some 2, .value, remainder⟩,
  ⟨"abs", 1, some 1, .value, absolute⟩,
  ⟨"eq", 4, some 4, .optional, ifEqual⟩,
  ⟨"gt", 4, some 4, .optional, ifGreater⟩,
  ⟨"lt", 4, some 4, .optional, ifLess⟩,
  ⟨"eq?", 4, some 4, .optional, ifSameText⟩,
  ⟨"gt?", 4, some 4, .optional, ifTextAfter⟩,
  ⟨"lt?", 4, some 4, .optional, ifTextBefore⟩,
  ⟨"ps", 1, some 2, .sideEffect, print⟩,
  ⟨"rs", 0, some 0, .value, readString⟩,
  ⟨"psr", 1, some 1, .value, promptAndRead⟩,
  ⟨"cm", 1, some 1, .sideEffect, setReadEnd⟩,
  ⟨"include", 1, some 1, .value, includeFile⟩,
  ⟨"exit", 0, some 1, .sideEffect, halt⟩,
  ⟨"time", 0, some 0, .value, clockTime⟩,
  ⟨"xtime", 0, some 0, .value, runTime⟩,
  ⟨"ctime", 1, some 1, .value, renderTime⟩,
  ⟨"argc", 0, some 0, .value, countArguments⟩,
  ⟨"argv", 1, some 1, .value, getArgument⟩,
  ⟨"ttm", 1, none, .optional, control⟩]

/-- The builtin that the catalogue has under a name. -/
def ofName? (name : String) : Option Builtin :=
  (catalogue.find? (·.name == name)).map (·.builtin)

end Builtin

end TextMacro
