/-!
# Errors

Everything the interpreter can report is a constructor of `Error`, named for its cause. Each error
belongs to one `ErrorKind`, and its wording is in one place, `Error.message`.
-/

namespace TextMacro

/-- The coarse classification of errors that reports begin with. -/
inductive ErrorKind where
  /-- Malformed text. -/
  | encoding
  /-- A call or bracket that is not closed, too many arguments or too many segments. -/
  | structural
  /-- A name that stands for nothing. -/
  | lookup
  /-- A locked entry, a builtin where a string is needed, a missing argument, a bad setting. -/
  | policy
  /-- A stack or a budget that is used up. -/
  | resource
  /-- A stream or a file that fails. -/
  | stream
  /-- A number that cannot be read or computed. -/
  | numeric
  deriving DecidableEq, Repr

/-- The word a report uses for a kind of error. -/
def ErrorKind.word : ErrorKind → String
  | .encoding => "encoding"
  | .structural => "syntax"
  | .lookup => "lookup"
  | .policy => "policy"
  | .resource => "resource"
  | .stream => "io"
  | .numeric => "numeric"

/-- Why a choice of meta characters is refused. -/
inductive MetaProblem where
  /-- Neither four nor five characters were given. -/
  | count (given : Nat)
  /-- Two roles would share a character. -/
  | repeated (c : Char)
  /-- The read terminator has to be a single character. -/
  | terminator (text : String)
  deriving DecidableEq, Repr

/-- The wording of a refused choice of meta characters. -/
def MetaProblem.message : MetaProblem → String
  | .count given => s!"expected 4 or 5 characters, got {given}"
  | .repeated c => s!"'{c}' used twice"
  | .terminator text => s!"read terminator must be one character: '{text}'"

/-- What can go wrong with a stream or a file. -/
inductive StreamProblem where
  /-- The path leads nowhere. -/
  | notFound
  /-- The path goes through something that is not a directory. -/
  | notDirectory
  /-- The path leads to a directory where a file is needed. -/
  | isDirectory
  /-- A component of the path, or the whole path, is too long. -/
  | nameTooLong
  /-- The path holds a NUL character. -/
  | nulInName
  /-- The content was to be read as a whole text and is not UTF-8. -/
  | notText
  /-- The stream is closed or only writes. -/
  | notReadable
  /-- The stream is closed or only reads. -/
  | notWritable
  /-- No stream has this name. -/
  | noSuchStream
  deriving DecidableEq, Repr

/-- The wording of a stream or file problem. -/
def StreamProblem.message : StreamProblem → String
  | .notFound => "No such file or directory (os error 2)"
  | .notDirectory => "Not a directory (os error 20)"
  | .isDirectory => "Is a directory (os error 21)"
  | .nameTooLong => "File name too long (os error 36)"
  | .nulInName => "file name contained an unexpected NUL byte"
  | .notText => "stream did not contain valid UTF-8"
  | .notReadable => "stream not open for reading"
  | .notWritable => "stream not open for writing"
  | .noSuchStream => "no such stream"

/-- The causes for which an operation of the interpreter fails. -/
inductive Error where
  /-- The bytes at `offset` are not a text unit. -/
  | badUnit (offset : Nat)
  /-- The text ends inside a call. -/
  | unterminatedCall
  /-- The text ends inside a bracketed region. -/
  | unbalancedBracket
  /-- A call has more than `max` entries, its name included. -/
  | tooManyArgs (max : Nat)
  /-- Segmenting `name` needs an index that no mark has. -/
  | tooManySegments (name : String)
  /-- No function has this name. -/
  | undefinedName (name : String)
  /-- No character class has this name. -/
  | undefinedClass (name : String)
  /-- No property has this name. -/
  | unknownProperty (name : String)
  /-- The entry is locked against being redefined or erased. -/
  | locked (name : String)
  /-- The entry is a builtin where a defined string is needed. -/
  | primitive (name : String)
  /-- A call has `got` arguments where `min` are required. -/
  | tooFewArgs (name : String) (min got : Nat)
  /-- The meta characters cannot be chosen like this. -/
  | badMeta (problem : MetaProblem)
  /-- A value outside the range of what it is given to. -/
  | outOfRange (name : String) (value : Int)
  /-- A call would be nested deeper than `limit`. -/
  | stackOverflow (limit : Nat)
  /-- A frame was needed and there is none. -/
  | stackUnderflow
  /-- The budget of `limit` calls is spent. -/
  | execsExhausted (limit : Nat)
  /-- No further character can be pushed back on the stream. -/
  | pushbackFull (stream : String)
  /-- A stream or file operation failed; `context` says on what. -/
  | io (context : String) (problem : StreamProblem)
  /-- The stream has nothing left to read. -/
  | eof (stream : String)
  /-- The text is not a decimal number. -/
  | notDecimal (text : String)
  /-- The text is a negative number where a count is needed. -/
  | negative (text : String)
  /-- There is no item at `index` in a sequence of `len` items. -/
  | badIndex (index : Int) (len : Nat)
  /-- The divisor is zero. -/
  | divideByZero
  /-- A number outside the 64-bit range. -/
  | overflow
  deriving DecidableEq, Repr

namespace Error

/-- The kind an error belongs to. -/
def kind : Error → ErrorKind
  | badUnit _ => .encoding
  | unterminatedCall | unbalancedBracket | tooManyArgs _ | tooManySegments _ => .structural
  | undefinedName _ | undefinedClass _ | unknownProperty _ => .lookup
  | locked _ | primitive _ | tooFewArgs _ _ _ | badMeta _ | outOfRange _ _ => .policy
  | stackOverflow _ | stackUnderflow | execsExhausted _ | pushbackFull _ => .resource
  | io _ _ | eof _ => .stream
  | notDecimal _ | negative _ | badIndex _ _ | divideByZero | overflow => .numeric

/-- The wording of an error. -/
def message : Error → String
  | badUnit offset => s!"malformed text unit at byte {offset}"
  | unterminatedCall => "unexpected end of text inside a call"
  | unbalancedBracket => "unbalanced bracket"
  | tooManyArgs max => s!"too many arguments (max {max})"
  | tooManySegments name => s!"{name}: too many segment marks"
  | undefinedName name => s!"undefined function: '{name}'"
  | undefinedClass name => s!"undefined class: '{name}'"
  | unknownProperty name => s!"unknown property: '{name}'"
  | locked name => s!"{name}: entry is locked"
  | primitive name => s!"{name}: builtin has no body"
  | tooFewArgs name min got => s!"{name}: too few arguments ({got} given, {min} required)"
  | badMeta problem => "bad meta characters: " ++ problem.message
  | outOfRange name value => s!"{name}: value {value} out of range"
  | stackOverflow limit => s!"call stack overflow (depth {limit})"
  | stackUnderflow => "call stack underflow"
  | execsExhausted limit => s!"execution limit exhausted ({limit} calls)"
  | pushbackFull stream => s!"{stream}: pushback stack full"
  | io context problem => context ++ ": " ++ problem.message
  | eof stream => s!"{stream}: unexpected end of file"
  | notDecimal text => s!"not a decimal number: '{text}'"
  | negative text => s!"negative value not allowed: '{text}'"
  | badIndex index len => s!"index {index} out of range (0..{len})"
  | divideByZero => "division by zero"
  | overflow => "arithmetic overflow"

end Error

end TextMacro
