import TextMacro.Buffer.Basic
import TextMacro.Buffer.Read
import TextMacro.Builtins.Basic
import TextMacro.Builtins.Definitions
import TextMacro.Builtins.Numbers
import TextMacro.Builtins.Strings
import TextMacro.Builtins.Surroundings
import TextMacro.Calendar
import TextMacro.Command.Line
import TextMacro.Command.Run
import TextMacro.Dictionary.Basic
import TextMacro.Dictionary.Body
import TextMacro.Dictionary.Builtin
import TextMacro.Error
import TextMacro.Files
import TextMacro.Frame
import TextMacro.Log.Event
import TextMacro.Log.Filter
import TextMacro.Main
import TextMacro.MetaChars
import TextMacro.Pattern.Basic
import TextMacro.Pattern.Read
import TextMacro.Pattern.Set
import TextMacro.Proofs.Accounts
import TextMacro.Proofs.Actions
import TextMacro.Proofs.ArgumentLists
import TextMacro.Proofs.Arithmetic
import TextMacro.Proofs.Assignments
import TextMacro.Proofs.Bodies
import TextMacro.Proofs.Brackets
import TextMacro.Proofs.Budget
import TextMacro.Proofs.Builtins
import TextMacro.Proofs.Calls
import TextMacro.Proofs.Changes
import TextMacro.Proofs.Characters
import TextMacro.Proofs.Codec
import TextMacro.Proofs.Commas
import TextMacro.Proofs.Conversations
import TextMacro.Proofs.Cursor
import TextMacro.Proofs.Decoders
import TextMacro.Proofs.DefinedStrings
import TextMacro.Proofs.DefinitionPrograms
import TextMacro.Proofs.Depth
import TextMacro.Proofs.Dictionary
import TextMacro.Proofs.DictionaryEdits
import TextMacro.Proofs.Exits
import TextMacro.Proofs.Failures
import TextMacro.Proofs.FiniteMaps
import TextMacro.Proofs.Flattening
import TextMacro.Proofs.Frames
import TextMacro.Proofs.Gap
import TextMacro.Proofs.Invariant
import TextMacro.Proofs.Layout
import TextMacro.Proofs.LockedStrings
import TextMacro.Proofs.Locks
import TextMacro.Proofs.Lookups
import TextMacro.Proofs.Movements
import TextMacro.Proofs.Newlines
import TextMacro.Proofs.Numerals
import TextMacro.Proofs.Outside
import TextMacro.Proofs.OwnChars
import TextMacro.Proofs.Parameters
import TextMacro.Proofs.Pieces
import TextMacro.Proofs.Refinement
import TextMacro.Proofs.Relocation
import TextMacro.Proofs.Replacement
import TextMacro.Proofs.Rewriter
import TextMacro.Proofs.Runs
import TextMacro.Proofs.Safety
import TextMacro.Proofs.Searching
import TextMacro.Proofs.Sequences
import TextMacro.Proofs.SettingsFiles
import TextMacro.Proofs.Silence
import TextMacro.Proofs.Steps
import TextMacro.Proofs.StringTexts
import TextMacro.Proofs.SymbolTable
import TextMacro.Proofs.TableHistories
import TextMacro.Proofs.TargetLists
import TextMacro.Proofs.Templates
import TextMacro.Proofs.TextOrder
import TextMacro.Proofs.Tokens
import TextMacro.Proofs.Tracing
import TextMacro.Proofs.Units
import TextMacro.Proofs.Unquoting
import TextMacro.Proofs.UnreadText
import TextMacro.Proofs.Zones
import TextMacro.Properties
import TextMacro.Scanner.Expansion
import TextMacro.Scanner.Machine
import TextMacro.Scanner.Zones
import TextMacro.Session.Basic
import TextMacro.Session.Evaluate
import TextMacro.Settings
import TextMacro.Stream
import TextMacro.SymbolTable
import TextMacro.Text.Blank
import TextMacro.Text.Decimal
import TextMacro.Text.Numeral
import TextMacro.Text.Printable
import TextMacro.Text.Quoted
import TextMacro.Text.Ranges
import TextMacro.Text.Split
import TextMacro.Text.Unit
import TextMacro.Text.Utf8
import TextMacro.Text.Wordlike
