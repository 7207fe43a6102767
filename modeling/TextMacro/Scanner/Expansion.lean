import TextMacro.Builtins.Basic

/-!
# Carrying out a call

Once the arguments of a call are collected, its function is looked up and carried out. A defined
string is expanded: each segment mark becomes the argument it stands for, and all creation marks of
one expansion become the same new token.
-/

namespace TextMacro

/-- The number of digits a generated token has at least. -/
def tokenWidth : Nat := 4

/-- The token with a number. -/
def token (n : Nat) : String := Decimal.renderPadded tokenWidth n

namespace Body

/-- Expands content from `pos` on, onto `out`, and tells whether the token was used, `used` to begin
with. -/
def expandFrom (content : ByteArray) (f : Frame) (token : String) (pos : Nat) (used : Bool)
    (out : String) : Bool × Except Error String :=
  match _h : TextUnit.decodeAt content pos with
  | .error e => (used, .error e)
  | .ok none => (used, .ok out)
  | .ok (some (.char c)) => expandFrom content f token (pos + c.utf8Size) used (out.push c)
  | .ok (some (.segment slot)) =>
    expandFrom content f token (pos + (TextUnit.segment slot).width) used
      (out ++ f.arg (TextUnit.argument slot))
  | .ok (some .creation) =>
    expandFrom content f token (pos + TextUnit.creation.width) true (out ++ token)
termination_by content.size - pos
decreasing_by
  · exact TextUnit.size_sub_lt_of_decodeAt (u := .char c) _h
  · exact TextUnit.size_sub_lt_of_decodeAt _h
  · exact TextUnit.size_sub_lt_of_decodeAt _h

/-- The text of a body with the arguments of a call and a token in place of its marks, and whether
the token was used. -/
def expand (body : Body) (f : Frame) (token : String) : Bool × Except Error String :=
  expandFrom body.text.content f token 0 false ""

end Body

namespace Action

/-- Expands a body. The next token is used up if the body has a creation mark. -/
def expand (body : Body) (f : Frame) : Action String := fun s =>
  let (used, result) := body.expand f (token (s.creations + 1))
  let s := if used then { s with creations := s.creations + 1 } else s
  match result with
  | .ok text => .ok text s
  | .error e => .error e s

/-- Carries out what a function means. -/
def perform (meaning : Meaning) (f : Frame) : Action String :=
  match meaning with
  | .builtin code => code.perform f
  | .defined body => expand body f

/-- Carries out a call at a depth, and yields its text with what is to become of it. -/
def invoke (depth : Nat) (f : Frame) : Action (Disposition × String) := do
  let s ← get
  let function ← lift (s.dict.function f.name)
  if f.argc < function.minArgs then
    throw (.tooFewArgs f.name function.minArgs f.argc)
  let traced := s.traceAll || function.traced
  if traced then
    report (.callEntered depth (f.render s.chars))
  let text ← perform function.meaning f
  if traced then
    report (.callLeft depth f.name text)
  return (function.disposition, text)

end Action

end TextMacro
