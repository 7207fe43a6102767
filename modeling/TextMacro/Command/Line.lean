import TextMacro.Settings

/-!
# The command line

`ttm [OPTIONS] [FILE] [-- ARGS...]`. An option that takes a value has it in the same word, as in
`-oFILE`, `-o=FILE` or `--output=FILE`, or in the next one, which then must not look like an option.
What an option was given is looked at when the next option or file comes, or at the end, so that a
mistake in a later word can be reported before one in an earlier value.
-/

namespace TextMacro

/-- Why a command line is not carried out. -/
inductive UsageError where
  /-- A word is neither an option nor something that can stand there. -/
  | unknownArgument
  /-- A value is missing, or an empty one where it must not be. -/
  | invalidValue
  /-- A value does not have the form it needs. -/
  | valueValidation
  /-- An option that can be given once is given again. -/
  | argumentConflict
  /-- An option without a value is given one. -/
  | tooManyValues
  /-- Help is asked for. -/
  | displayHelp
  /-- The version is asked for. -/
  | displayVersion
  deriving DecidableEq, Repr

/-- What is said when a command line is not carried out for a mistake; nothing if help or the version
is asked for. -/
def UsageError.message? : UsageError → Option String
  | .unknownArgument => some "unexpected argument"
  | .invalidValue => some "a value is missing"
  | .valueValidation => some "expected NAME=VALUE with a decimal value"
  | .argumentConflict => some "an argument cannot be used multiple times"
  | .tooManyValues => some "unexpected value for an argument that takes none"
  | .displayHelp | .displayVersion => none

/-- Where programs come from. -/
inductive ProgramSource where
  | exprs (texts : List String)
  | file (path : String)
  | stdin
  deriving DecidableEq, Repr

/-- What a command line asks for. -/
structure Options where
  file : Option String
  exprs : List String
  interactive : Bool
  output : Option String
  rsFile : Option String
  props : List (String × Int)
  trace : Bool
  quiet : Bool
  noSettings : Bool
  verbose : Bool
  /-- The arguments for the program. -/
  args : List String
  deriving DecidableEq, Repr

namespace Options

/-- What an empty command line asks for. -/
def none : Options where
  file := .none
  exprs := []
  interactive := false
  output := .none
  rsFile := .none
  props := []
  trace := false
  quiet := false
  noSettings := false
  verbose := false
  args := []

/-- Where programs come from: from the command line if there are any, else from the file. -/
def source (o : Options) : ProgramSource :=
  if !o.exprs.isEmpty then .exprs o.exprs
  else
    match o.file with
    | some "-" | .none => .stdin
    | some path => .file path

end Options

namespace CommandLine

/-- What takes a value. -/
inductive Item where
  | file | expr | output | rsFile | prop | arg
  deriving DecidableEq, Repr

/-- What is given without a value. -/
inductive Flag where
  | interactive | trace | quiet | noSettings | verbose | help | version
  deriving DecidableEq, Repr

/-- What an option stands for. -/
inductive Switch where
  | flag (f : Flag)
  | item (i : Item)
  deriving DecidableEq, Repr

/-- The option with a long name. -/
def ofLong? : String → Option Switch
  | "expr" => some (.item .expr)
  | "interactive" => some (.flag .interactive)
  | "output" => some (.item .output)
  | "rsfile" => some (.item .rsFile)
  | "prop" => some (.item .prop)
  | "trace" => some (.flag .trace)
  | "quiet" => some (.flag .quiet)
  | "norc" => some (.flag .noSettings)
  | "verbose" => some (.flag .verbose)
  | "help" => some (.flag .help)
  | "version" => some (.flag .version)
  | _ => none

/-- The option with a short name. -/
def ofShort? : Char → Option Switch
  | 'e' => some (.item .expr)
  | 'i' => some (.flag .interactive)
  | 'o' => some (.item .output)
  | 'r' => some (.item .rsFile)
  | 'p' => some (.item .prop)
  | 'T' => some (.flag .trace)
  | 'q' => some (.flag .quiet)
  | 'v' => some (.flag .verbose)
  | 'h' => some (.flag .help)
  | 'V' => some (.flag .version)
  | _ => none

/-- A path that can be given once. -/
def storePath (old : Option String) (path : String) : Except UsageError (Option String) :=
  if old.isSome then .error .argumentConflict
  else if path.isEmpty then .error .invalidValue
  else .ok (some path)

/-- Takes a value over. -/
def store (o : Options) (item : Item) (value : Option String) : Except UsageError Options := do
  match value with
  | none => .error .invalidValue
  | some text =>
    match item with
    | .file => return { o with file := ← storePath o.file text }
    | .expr => return { o with exprs := o.exprs ++ [text] }
    | .output => return { o with output := ← storePath o.output text }
    | .rsFile => return { o with rsFile := ← storePath o.rsFile text }
    | .prop =>
      match Settings.readAssignment text.toList with
      | .ok prop => return { o with props := o.props ++ [prop] }
      | .error _ => .error .valueValidation
    | .arg => return { o with args := o.args ++ [text] }

/-- Refuses a flag that was given before. -/
def once (given : Bool) (o : Options) : Except UsageError Options :=
  if given then .error .argumentConflict else .ok o

/-- Takes a flag over. -/
def raise (o : Options) : Flag → Except UsageError Options
  | .interactive => once o.interactive { o with interactive := true }
  | .trace => once o.trace { o with trace := true }
  | .quiet => once o.quiet { o with quiet := true }
  | .noSettings => once o.noSettings { o with noSettings := true }
  | .verbose => once o.verbose { o with verbose := true }
  | .help => .error .displayHelp
  | .version => .error .displayVersion

/-- How far a command line is read. -/
structure State where
  options : Options
  /-- What is not taken over yet, with its value if it has one. -/
  pending : Option (Item × Option String)
  /-- Whether a file was given. -/
  hasFile : Bool
  /-- Whether all further words are arguments for the program. -/
  trailing : Bool

/-- Takes over what is pending. -/
def settle (s : State) : Except UsageError State := do
  match s.pending with
  | none => return s
  | some (item, value) => return { s with options := ← store s.options item value, pending := none }

/-- Takes over what is pending and then something with a value, or lets it wait for one. -/
def readItem (s : State) (item : Item) (value : Option String) : Except UsageError State := do
  let s ← settle s
  match value with
  | none => return { s with pending := some (item, none) }
  | some _ => return { s with options := ← store s.options item value }

/-- Takes over what is pending and then a flag. -/
def readFlag (s : State) (flag : Flag) : Except UsageError State := do
  let s ← settle s
  return { s with options := ← raise s.options flag }

/-- Reads a word of options with short names. -/
def readShort (s : State) : List Char → Except UsageError State
  | [] => .ok s
  | c :: rest =>
    match ofShort? c with
    | none => .error .unknownArgument
    | some (.flag flag) => do readShort (← readFlag s flag) rest
    | some (.item item) =>
      match rest with
      | [] => readItem s item none
      | '=' :: value => readItem s item (some (String.ofList value))
      | value => readItem s item (some (String.ofList value))

/-- Reads an option with a long name. -/
def readLong (s : State) (cs : List Char) : Except UsageError State :=
  let (name, value) := match Settings.splitAssignment cs with
    | some (name, value) => (name, some (String.ofList value))
    | none => (cs, none)
  match ofLong? (String.ofList name), value with
  | none, _ => .error .unknownArgument
  | some (.flag _), some _ => .error .tooManyValues
  | some (.flag flag), none => readFlag s flag
  | some (.item item), value => readItem s item value

/-- Reads a word that is not an option: a value that is waited for, a file, or an argument. -/
def readWord (s : State) (word : String) : Except UsageError State := do
  if s.trailing then
    return { ← settle s with pending := some (.arg, some word) }
  else
    match s.pending with
    | some (item, none) => return { s with pending := some (item, some word) }
    | _ =>
      if s.hasFile then .error .unknownArgument
      else return { ← settle s with pending := some (.file, some word), hasFile := true }

/-- Reads a word. -/
def read (s : State) (word : String) : Except UsageError State :=
  if s.trailing then readWord s word
  else
    match word.toList with
    | ['-', '-'] => .ok { s with trailing := true }
    | '-' :: '-' :: cs => readLong s cs
    | '-' :: c :: cs => readShort s (c :: cs)
    | _ => readWord s word

/-- Reads a command line. -/
def parse (words : List String) : Except UsageError Options := do
  let s ← words.foldlM read ⟨.none, none, false, false⟩
  return (← settle s).options

end CommandLine

end TextMacro
