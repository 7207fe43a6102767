import TextMacro.Proofs.DefinedStrings
import TextMacro.Proofs.OwnChars
import TextMacro.Proofs.Refinement
import TextMacro.Proofs.Safety

/-!
# Argument lists of templates

A template is an argument text of which the meaning does not depend on what the calls inside yield:
characters that are each escaped, and passive calls of defined strings whose names and arguments are
templates in turn. While such a list is collected, the expansions are added to the argument of the
list around them as they are, whatever characters they hold, so that the arguments are the values
of the templates and the text behind the list is untouched (`Template.passes`,
`Template.passes_list`).
-/

namespace TextMacro

/-! ## Steps that go on -/

namespace Rewriter

/-- Steps that go on, each of them with the widths that the innermost list began with. -/
inductive Goes : Rewriter → Rewriter → Prop
  | refl (r : Rewriter) : Goes r r
  | step {r r' r'' : Rewriter} : r.keepsWidths = true → r.step = .next r' → Goes r' r'' → Goes r r''

/-- Steps that go on can follow such steps. -/
theorem Goes.trans {r r' r'' : Rewriter} (h : Goes r r') (h' : Goes r' r'') : Goes r r'' := by
  induction h with
  | refl => exact h'
  | step hkeeps hstep _ ih => exact .step hkeeps hstep (ih h')

/-- The scanner goes where the rewriting goes. -/
theorem Goes.reaches {t : Interpreter} {r r' : Rewriter} (h : Goes r r') (ht : t.Represents r) :
    ∃ u, t.Reaches u ∧ u.Represents r' := by
  induction h generalizing t with
  | refl => exact ⟨t, .refl, ht⟩
  | step hkeeps hstep _ ih =>
    have hmirrors := ht.step_of_keepsWidths hkeeps
    rw [hstep] at hmirrors
    obtain ⟨u, hu, hrep⟩ := hmirrors
    obtain ⟨v, hv, hrep⟩ := ih hrep
    exact ⟨v, hv.of_step hu, hrep⟩

/-- A program that goes on if `fits` holds, and otherwise fails because a call has too many entries.
-/
def Passes (fits : Bool) (r r' : Rewriter) : Prop :=
  if fits then Goes r r'
  else ∃ last left, Goes r last ∧ last.keepsWidths = true ∧
    last.step = .raised (.tooManyArgs maxEntries) left

namespace Passes

variable {r r' r'' : Rewriter} {fits fits' : Bool}

/-- Nothing is passed at once. -/
theorem refl (r : Rewriter) : Passes true r r :=
  Goes.refl r

/-- Two parts fit if both do. -/
theorem trans (h : Passes fits r r') (h' : Passes fits' r' r'') : Passes (fits && fits') r r'' := by
  cases fits with
  | false => exact h
  | true =>
    cases fits' with
    | true => exact Goes.trans h h'
    | false =>
      obtain ⟨last, left, hlast, hraised⟩ := h'
      exact ⟨last, left, Goes.trans h hlast, hraised⟩

/-- A step is taken first. -/
theorem head (hkeeps : r.keepsWidths = true) (hstep : r.step = .next r') (h : Passes fits r' r'') :
    Passes fits r r'' := by
  have hfirst : Passes true r r' := Goes.step hkeeps hstep (.refl r')
  exact hfirst.trans h

/-- The next step finds that there are too many entries. -/
theorem raised {left : Rewriter} (hkeeps : r.keepsWidths = true)
    (hstep : r.step = .raised (.tooManyArgs maxEntries) left) : Passes false r r' :=
  ⟨r, left, .refl r, hkeeps, hstep⟩

end Passes

end Rewriter

/-! ## Roles -/

namespace MetaChars

variable {m : MetaChars}

/-- The escape has that role whatever the other characters are. -/
theorem role_escape (m : MetaChars) : m.role m.escape = .escape := by
  simp [role]

/-- The semicolon has that role alone. -/
theorem Distinct.role_semi (h : m.Distinct) : m.role m.semi = .semi := by
  simp [Distinct] at h
  simp [role, h]

/-- The closing bracket has that role alone. -/
theorem Distinct.role_closing (h : m.Distinct) : m.role m.closing = .closing := by
  simp [Distinct] at h
  simp [role, h, Ne.symm h.2.2.1.1]

/-- What stands behind the sharp that starts a call. -/
def callStart (m : MetaChars) (active : Bool) : List Char :=
  if active then [m.opening] else [m.sharp, m.opening]

/-- The start of a call is found where it is written. -/
theorem Distinct.callStart?_callStart (h : m.Distinct) (active : Bool) (rest : List Char) :
    m.callStart? (m.callStart active ++ rest) = some (active, rest) := by
  simp [Distinct] at h
  cases active with
  | true => simp [callStart?, callStart]
  | false => simp [callStart?, callStart, h]

end MetaChars

/-! ## Templates -/

/-- An argument text of escaped characters and passive calls of defined strings. -/
inductive Template where
  | empty
  /-- A character that stands for itself, and what follows it. -/
  | literal (c : Char) (rest : Template)
  /-- A passive call, and what follows it. -/
  | call (name : Template) (args : List Template) (rest : Template)

namespace Template

mutual

/-- A template as it is written: every character behind an escape. -/
def text (m : MetaChars) : Template → List Char
  | .empty => []
  | .literal c rest => m.escape :: c :: rest.text m
  | .call name args rest =>
    m.sharp :: (m.callStart false ++ name.text m ++ listText m args ++ rest.text m)

/-- Arguments as they are written behind the name of a call: each behind a separator, and the
bracket that closes the call. -/
def listText (m : MetaChars) : List Template → List Char
  | [] => [m.closing]
  | arg :: args => m.semi :: (arg.text m ++ listText m args)

end

mutual

/-- What a template stands for when `n` tokens have been generated, and their number then: every
call stands for the body of its string with the marks filled in. There is no value if a name is not
that of a defined string. -/
def value? (d : Dictionary) (n : Nat) : Template → Option (List Char × Nat)
  | .empty => some ([], n)
  | .literal c rest => do
    let (text, n) ← rest.value? d n
    return (c :: text, n)
  | .call name args rest => do
    let (name, n) ← name.value? d n
    let (args, n) ← values? d n args
    let body ← (d.body (String.ofList name)).toOption
    let (text, tokens) ← rest.value? d (body.tokensAfter n)
    return (body.filled args (token (n + 1)) ++ text, tokens)

/-- What the arguments of a call stand for. -/
def values? (d : Dictionary) (n : Nat) : List Template → Option (List String × Nat)
  | [] => some ([], n)
  | arg :: args => do
    let (text, n) ← arg.value? d n
    let (texts, n) ← values? d n args
    return (String.ofList text :: texts, n)

end

mutual

/-- The number of calls in a template. -/
def calls : Template → Nat
  | .empty => 0
  | .literal _ rest => rest.calls
  | .call name args rest => 1 + name.calls + listCalls args + rest.calls

/-- The number of calls in arguments. -/
def listCalls : List Template → Nat
  | [] => 0
  | arg :: args => arg.calls + listCalls args

end

mutual

/-- How deep the calls of a template are nested. -/
def height : Template → Nat
  | .empty => 0
  | .literal _ rest => rest.height
  | .call name args rest => max (1 + max name.height (listHeight args)) rest.height

/-- How deep the calls in arguments are nested. -/
def listHeight : List Template → Nat
  | [] => 0
  | arg :: args => max arg.height (listHeight args)

end

mutual

/-- Whether no call of a template has more entries than a call may have. -/
def fits : Template → Bool
  | .empty => true
  | .literal _ rest => rest.fits
  | .call name args rest =>
    name.fits && (decide (args.length < maxEntries) && listFits args) && rest.fits

/-- Whether no call in arguments has more entries than a call may have. -/
def listFits : List Template → Bool
  | [] => true
  | arg :: args => arg.fits && listFits args

end

/-- No template is of size zero. -/
theorem sizeOf_pos (T : Template) : 0 < sizeOf T := by
  cases T with
  | empty => exact Nat.one_pos
  | literal c rest =>
    rw [Template.literal.sizeOf_spec]
    omega
  | call name args rest =>
    rw [Template.call.sizeOf_spec]
    omega

/-- Each argument stands for one text. -/
theorem length_of_values? {d : Dictionary} {n n' : Nat} {args : List Template} {texts : List String}
    (h : values? d n args = some (texts, n')) : texts.length = args.length := by
  induction args generalizing n texts with
  | nil =>
    obtain ⟨rfl, -⟩ : texts = [] ∧ n = n' := by simpa [values?, eq_comm] using h
    rfl
  | cons arg args ih =>
    simp only [values?, Option.bind_eq_bind, Option.bind_eq_some_iff, Prod.exists] at h
    obtain ⟨text, n₁, -, texts', n₂, hargs, heq⟩ := h
    obtain ⟨rfl, rfl⟩ : String.ofList text :: texts' = texts ∧ n₂ = n' := by simpa using heq
    simp [ih hargs]

end Template

/-! ## Collecting -/

namespace Session

variable {s : Session}

/-- A session in which a program goes on, and in which defined strings can be called. -/
structure Ready (s : Session) : Prop where
  wellFormed : s.WellFormed
  plain : s.dict.Plain
  halt_eq : s.halt = none

/-- A session in which calls have been counted and tokens generated. -/
def spent (s : Session) (calls tokens : Nat) (log : Log) : Session :=
  { s with execs := s.execs + calls, creations := tokens, log }

/-- Calls and tokens add up. -/
theorem spent_spent (s : Session) (calls calls' tokens tokens' : Nat) (log log' : Log) :
    (s.spent calls tokens log).spent calls' tokens' log'
      = s.spent (calls + calls') tokens' log' := by
  simp [spent, Nat.add_assoc]

/-- A session stays ready when calls have been counted and tokens generated. -/
theorem Ready.spent (h : s.Ready) (calls tokens : Nat) (log : Log) :
    (s.spent calls tokens log).Ready :=
  ⟨h.wellFormed, h.plain, h.halt_eq⟩

end Session

namespace OpenCall

/-- A call of which the argument goes on with more characters. -/
def add (call : OpenCall) (cs : List Char) : OpenCall :=
  { call with pending := call.pending ++ cs }

/-- Adding nothing leaves a call as it is. -/
theorem add_nil (call : OpenCall) : call.add [] = call := by
  simp [add]

/-- Characters can be added one part after another. -/
theorem add_add (call : OpenCall) (cs ds : List Char) :
    (call.add cs).add ds = call.add (cs ++ ds) := by
  simp [add]

/-- A call that has collected more arguments, of which the last is not complete. -/
def collect (call : OpenCall) : List String → OpenCall
  | [] => call
  | text :: texts =>
    collect ⟨call.frame.push (String.ofList call.pending), text.toList, call.chars⟩ texts

/-- With the last argument complete, the entries are those from before and then the collected ones.
-/
theorem push_collect (call : OpenCall) (texts : List String) :
    (call.collect texts).frame.push (String.ofList (call.collect texts).pending)
      = ⟨call.frame.args ++ String.ofList call.pending :: texts, call.frame.active⟩ := by
  induction texts generalizing call with
  | nil => rfl
  | cons text texts ih =>
    rw [collect, ih]
    simp [Frame.push]

/-- Collecting arguments leaves the meta characters that a call began with. -/
theorem chars_collect (call : OpenCall) (texts : List String) :
    (call.collect texts).chars = call.chars := by
  induction texts generalizing call with
  | nil => rfl
  | cons text texts ih => exact ih _

/-- Each text that is collected is one more entry. -/
theorem length_args_collect (call : OpenCall) (texts : List String) :
    (call.collect texts).frame.args.length = call.frame.args.length + texts.length := by
  have hargs := congrArg (·.args.length) (call.push_collect texts)
  simp only [Frame.push, List.length_append, List.length_cons, List.length_nil] at hargs
  omega

end OpenCall

namespace Rewriter

variable {s : Session} {call : OpenCall} (output rest : List Char) (outer : List OpenCall)

/-- A list that began with the characters of now keeps its widths. -/
theorem keepsWidths_of_chars {output text : List Char} {outer : List OpenCall}
    (h : call.chars = s.chars) : keepsWidths ⟨s, output, text, call :: outer⟩ = true := by
  show call.chars.sameWidths s.chars = true
  rw [h]
  exact MetaChars.sameWidths_refl _

/-- A list that began with the meta characters of now is read by them. -/
theorem step_list (c : Char) (hs : s.Ready) (hchars : call.chars = s.chars) :
    step ⟨s, output, c :: rest, call :: outer⟩
      = scanChar ⟨s, output, c :: rest, call :: outer⟩ s.chars c rest := by
  simp [step, hs.halt_eq, hchars]

/-- An escaped character is added to the argument. -/
theorem step_escape (c : Char) (hs : s.Ready) (hchars : call.chars = s.chars) :
    step ⟨s, output, s.chars.escape :: c :: rest, call :: outer⟩
      = .next ⟨s, output, rest, call.add [c] :: outer⟩ := by
  rw [step_list output _ outer _ hs hchars]
  unfold scanChar
  rw [MetaChars.role_escape]
  rfl

/-- A call within the budget and the depth allowed begins. -/
theorem sharp_callStart (calls : List OpenCall) (active : Bool) (text : List Char) (hs : s.Ready)
    (hbudget : s.execs < s.props.execCount) (hdepth : calls.length < s.props.stackSize) :
    ∃ log, sharp ⟨s, output, text, calls⟩ s.chars.sharp (s.chars.callStart active ++ rest)
      = .next ⟨s.spent 1 s.creations log, output, rest, ⟨.start active, [], s.chars⟩ :: calls⟩ := by
  unfold sharp
  rw [hs.wellFormed.2.callStart?_callStart]
  unfold beginCall
  dsimp only
  rw [if_neg (Nat.not_le.mpr hbudget), if_neg (Nat.not_le.mpr hdepth)]
  exact ⟨_, rfl⟩

/-- A call inside a list begins. -/
theorem step_sharp (active : Bool) (hs : s.Ready) (hchars : call.chars = s.chars)
    (hbudget : s.execs < s.props.execCount) (hdepth : outer.length + 1 < s.props.stackSize) :
    ∃ log, step ⟨s, output, s.chars.sharp :: (s.chars.callStart active ++ rest), call :: outer⟩
      = .next ⟨s.spent 1 s.creations log, output, rest,
          ⟨.start active, [], s.chars⟩ :: call :: outer⟩ := by
  rw [step_list output _ outer _ hs hchars]
  unfold scanChar
  rw [hs.wellFormed.2.role_sharp]
  exact sharp_callStart output rest (call :: outer) active _ hs hbudget hdepth

/-- A call outside lists begins. -/
theorem step_sharp_outside (active : Bool) (hs : s.Ready) (hbudget : s.execs < s.props.execCount)
    (hdepth : 0 < s.props.stackSize) :
    ∃ log, step ⟨s, output, s.chars.sharp :: (s.chars.callStart active ++ rest), []⟩
      = .next ⟨s.spent 1 s.creations log, output, rest, [⟨.start active, [], s.chars⟩]⟩ := by
  rw [step_cons (by simp [hs.halt_eq]) rfl]
  unfold scanChar recognising
  dsimp only
  rw [hs.wellFormed.2.role_sharp]
  exact sharp_callStart output rest [] active _ hs hbudget hdepth

/-- A separator completes an argument. -/
theorem step_semi (hs : s.Ready) (hchars : call.chars = s.chars) :
    step ⟨s, output, s.chars.semi :: rest, call :: outer⟩
      = if maxEntries ≤ call.frame.args.length then
          .raised (.tooManyArgs maxEntries) ⟨s, output, s.chars.semi :: rest, call :: outer⟩
        else .next ⟨s, output, rest,
          ⟨call.frame.push (String.ofList call.pending), [], call.chars⟩ :: outer⟩ := by
  rw [step_list output _ outer _ hs hchars]
  unfold scanChar
  rw [hs.wellFormed.2.role_semi]
  rfl

/-- A closing bracket completes the last argument, and the call is carried out. -/
theorem step_closing (hs : s.Ready) (hchars : call.chars = s.chars) :
    step ⟨s, output, s.chars.closing :: rest, call :: outer⟩
      = if maxEntries ≤ call.frame.args.length then
          .raised (.tooManyArgs maxEntries) ⟨s, output, s.chars.closing :: rest, call :: outer⟩
        else finishCall ⟨s, output, rest, outer⟩
          ⟨call.frame.push (String.ofList call.pending), [], call.chars⟩ := by
  rw [step_list output _ outer _ hs hchars]
  unfold scanChar
  rw [hs.wellFormed.2.role_closing]
  rfl

/-- Passing nothing on leaves a program as it is. -/
theorem emit_nil (r : Rewriter) : r.emit [] = r := by
  obtain ⟨session, output, text, calls⟩ := r
  cases calls with
  | nil => simp [emit]
  | cons call outer => simp [emit]

/-- The result of a defined string is put in front of the text or added to what is collected. -/
theorem finishCall_defined {body : Body} (call : OpenCall) (calls : List OpenCall) (hs : s.Ready)
    (hbody : s.dict.body call.frame.name = .ok body)
    (hkeeps : keepsWidths ⟨s, output, rest, calls⟩ = true) :
    ∃ log, finishCall ⟨s, output, rest, calls⟩ call =
      let filled := body.filled call.frame.rest (token (s.creations + 1))
      let session := s.spent 0 (body.tokensAfter s.creations) log
      if call.frame.active then .next ⟨session, output, filled ++ rest, calls⟩
      else .next (emit ⟨session, output, rest, calls⟩ filled) := by
  obtain ⟨log, hinvoke⟩ := Action.invoke_defined (calls.length + 1) hs.wellFormed.1 hs.plain hbody
  refine ⟨log, ?_⟩
  -- The meta characters are the same after the call as before it.
  have hkeeps : keepsWidths ⟨s.spent 0 (body.tokensAfter s.creations) log, output, rest, calls⟩
      = true := hkeeps
  unfold finishCall
  rw [hinvoke]
  show place ⟨s.spent 0 (body.tokensAfter s.creations) log, output, rest, calls⟩ _ _ _ = _
  unfold place
  rw [hkeeps]
  dsimp only
  cases hfilled : body.filled call.frame.rest (token (s.creations + 1)) with
  | nil => cases call.frame.active <;> simp [emit_nil]
  | cons c cs => cases call.frame.active <;> simp

/-- The bracket that closes a passive call adds the result to the argument of the list around it. -/
theorem passes_closing {inner : OpenCall} {entries : List String} {body : Body} (hs : s.Ready)
    (hinner : inner.chars = s.chars) (hchars : call.chars = s.chars)
    (hentries : inner.frame.push (String.ofList inner.pending) = ⟨entries, false⟩)
    (hbody : s.dict.body (entries.getD 0 "") = .ok body) :
    ∃ log, Passes (decide (inner.frame.args.length < maxEntries))
      ⟨s, output, s.chars.closing :: rest, inner :: call :: outer⟩
      ⟨s.spent 0 (body.tokensAfter s.creations) log, output, rest,
        call.add (body.filled entries.tail (token (s.creations + 1))) :: outer⟩ := by
  have hkeeps : keepsWidths ⟨s, output, s.chars.closing :: rest, inner :: call :: outer⟩ = true :=
    keepsWidths_of_chars hinner
  have hstep := step_closing output rest (call :: outer) hs hinner
  by_cases hfew : inner.frame.args.length < maxEntries
  · rw [decide_eq_true hfew]
    rw [if_neg (Nat.not_le.mpr hfew), hentries] at hstep
    obtain ⟨log, hfinish⟩ := finishCall_defined output rest ⟨⟨entries, false⟩, [], inner.chars⟩
      (call :: outer) hs hbody (keepsWidths_of_chars hchars)
    rw [hfinish] at hstep
    exact ⟨log, .head hkeeps hstep (.refl _)⟩
  · rw [decide_eq_false hfew]
    rw [if_pos (Nat.not_lt.mp hfew)] at hstep
    exact ⟨s.log, .raised hkeeps hstep⟩

end Rewriter

namespace Template

open Rewriter

mutual

/-- A template inside a list adds its value to the argument, and the text behind it is left, unless
it has a call with too many entries. -/
theorem passes {s : Session} {T : Template} {value : List Char} {tokens : Nat} (call : OpenCall)
    (outer : List OpenCall) (output rest : List Char) (hs : s.Ready) (hchars : call.chars = s.chars)
    (hvalue : T.value? s.dict s.creations = some (value, tokens))
    (hbudget : s.execs + T.calls ≤ s.props.execCount)
    (hdepth : outer.length + 1 + T.height ≤ s.props.stackSize) :
    ∃ log, Passes T.fits ⟨s, output, T.text s.chars ++ rest, call :: outer⟩
      ⟨s.spent T.calls tokens log, output, rest, call.add value :: outer⟩ := by
  match T with
  | .empty =>
    obtain ⟨rfl, rfl⟩ : value = [] ∧ tokens = s.creations := by
      simpa [value?, eq_comm] using hvalue
    refine ⟨s.log, ?_⟩
    rw [OpenCall.add_nil]
    exact Passes.refl _
  | .literal c T =>
    simp only [value?, Option.bind_eq_bind, Option.bind_eq_some_iff, Prod.exists] at hvalue
    obtain ⟨value', tokens', hvalue, heq⟩ := hvalue
    obtain ⟨rfl, rfl⟩ : c :: value' = value ∧ tokens' = tokens := by simpa using heq
    obtain ⟨log, hpasses⟩ := passes (call.add [c]) outer output rest hs hchars hvalue hbudget hdepth
    rw [OpenCall.add_add] at hpasses
    exact ⟨log, .head (keepsWidths_of_chars hchars) (step_escape _ _ _ c hs hchars) hpasses⟩
  | .call name args T =>
    simp only [value?, Option.bind_eq_bind, Option.bind_eq_some_iff, Prod.exists] at hvalue
    obtain ⟨x, n₁, hname, texts, n₂, hargs, body, hbody, value', n₃, hvalue, heq⟩ := hvalue
    obtain ⟨rfl, rfl⟩ : body.filled texts (token (n₂ + 1)) ++ value' = value ∧ n₃ = tokens := by
      simpa using heq
    have hbody : s.dict.body (String.ofList x) = .ok body := by
      cases hfound : s.dict.body (String.ofList x) <;> simp_all [Except.toOption]
    rw [calls] at hbudget
    rw [height] at hdepth
    have hsize := T.sizeOf_pos
    -- The call begins, and its entries are collected behind the argument so far.
    let behind := T.text s.chars ++ rest
    obtain ⟨log₀, hstep⟩ := step_sharp output
      (name.text s.chars ++ (listText s.chars args ++ behind)) outer false hs hchars (by omega) (by omega)
    have hs₁ := hs.spent 1 s.creations log₀
    have hvalues : values? s.dict s.creations (name :: args)
        = some (String.ofList x :: texts, n₂) := by
      simp [values?, hname, hargs]
    obtain ⟨log₁, inner, hentries, hpush, hinner, hlength⟩ := passes_entries false (call :: outer)
      output behind hs₁ hvalues (by simp only [Session.spent, listCalls]; omega)
      (by simp only [Session.spent, listHeight, List.length_cons]; omega)
    have hs₂ := hs₁.spent (listCalls (name :: args)) n₂ log₁
    -- The call is carried out, and its result is added to the argument that it stands in.
    obtain ⟨log₂, hclose⟩ := passes_closing output behind outer hs₂ hinner hchars hpush hbody
    have hs₃ := hs₂.spent 0 (body.tokensAfter n₂) log₂
    obtain ⟨log₃, hrest⟩ := passes (call.add (body.filled texts (token (n₂ + 1)))) outer output rest
      hs₃ hchars hvalue (by simp only [Session.spent, listCalls]; omega)
      (by simp only [Session.spent]; omega)
    rw [OpenCall.add_add] at hrest
    have hall := Passes.head (keepsWidths_of_chars hchars) hstep
      (hentries.trans (hclose.trans hrest))
    have hfits : ((decide (args.length < maxEntries) && listFits (name :: args))
        && (decide (inner.frame.args.length < maxEntries) && T.fits))
        = fits (.call name args T) := by
      rw [fits, listFits, hlength]
      cases name.fits <;> cases decide (args.length < maxEntries) <;> simp
    rw [hfits] at hall
    refine ⟨log₃, ?_⟩
    simp only [Session.spent_spent, Nat.add_zero] at hall
    simpa [text, calls, listCalls, behind, Nat.add_assoc] using hall
termination_by sizeOf T

/-- A call that has begun collects its name and its arguments up to the bracket that closes it,
unless it has too many of them or one has a call with too many entries. -/
theorem passes_entries {s : Session} {name : Template} {args : List Template}
    {entries : List String} {tokens : Nat} (active : Bool) (calls : List OpenCall)
    (output rest : List Char) (hs : s.Ready)
    (hvalues : values? s.dict s.creations (name :: args) = some (entries, tokens))
    (hbudget : s.execs + listCalls (name :: args) ≤ s.props.execCount)
    (hdepth : calls.length + 1 + listHeight (name :: args) ≤ s.props.stackSize) :
    ∃ log inner, Passes (decide (args.length < maxEntries) && listFits (name :: args))
        ⟨s, output, name.text s.chars ++ (listText s.chars args ++ rest),
          ⟨.start active, [], s.chars⟩ :: calls⟩
        ⟨s.spent (listCalls (name :: args)) tokens log, output, s.chars.closing :: rest,
          inner :: calls⟩ ∧
      inner.frame.push (String.ofList inner.pending) = ⟨entries, active⟩ ∧
      inner.chars = s.chars ∧ inner.frame.args.length = args.length := by
  simp only [values?, Option.bind_eq_bind, Option.bind_eq_some_iff, Prod.exists] at hvalues
  obtain ⟨x, n₁, hname, texts, n₂, hargs, heq⟩ := hvalues
  obtain ⟨rfl, rfl⟩ : String.ofList x :: texts = entries ∧ n₂ = tokens := by simpa using heq
  rw [listCalls] at hbudget
  rw [listHeight] at hdepth
  let start : OpenCall := ⟨.start active, [], s.chars⟩
  obtain ⟨log₁, hfirst⟩ := passes start calls output (listText s.chars args ++ rest) hs rfl hname
    (by omega) (by omega)
  obtain ⟨log₂, hlist⟩ := passes_list (start.add x) calls output rest
    (hs.spent name.calls n₁ log₁) rfl hargs (by simp only [Session.spent]; omega)
    (by simp only [Session.spent]; omega)
  have hzero : (start.add x).frame.args.length = 0 := rfl
  rw [hzero, Nat.zero_add, Session.spent_spent] at hlist
  refine ⟨log₂, (start.add x).collect texts, ?_, (start.add x).push_collect texts,
    (start.add x).chars_collect texts, ?_⟩
  · rw [listFits, Bool.and_left_comm]
    exact hfirst.trans hlist
  · rw [OpenCall.length_args_collect, hzero, Nat.zero_add, length_of_values? hargs]
termination_by sizeOf name + sizeOf args + 1

/-- Arguments behind the name of a call are collected up to the bracket that closes the call, unless
there are too many of them or one has a call with too many entries. -/
theorem passes_list {s : Session} {args : List Template} {texts : List String} {tokens : Nat}
    (call : OpenCall) (outer : List OpenCall) (output rest : List Char) (hs : s.Ready)
    (hchars : call.chars = s.chars)
    (hvalues : values? s.dict s.creations args = some (texts, tokens))
    (hbudget : s.execs + listCalls args ≤ s.props.execCount)
    (hdepth : outer.length + 1 + listHeight args ≤ s.props.stackSize) :
    ∃ log, Passes
      (decide (call.frame.args.length + args.length < maxEntries) && listFits args)
      ⟨s, output, listText s.chars args ++ rest, call :: outer⟩
      ⟨s.spent (listCalls args) tokens log, output, s.chars.closing :: rest,
        call.collect texts :: outer⟩ := by
  match args with
  | [] =>
    obtain ⟨rfl, rfl⟩ : texts = [] ∧ tokens = s.creations := by
      simpa [values?, eq_comm] using hvalues
    refine ⟨s.log, ?_⟩
    rw [listFits, Bool.and_true]
    by_cases hfew : call.frame.args.length < maxEntries
    · rw [List.length_nil, Nat.add_zero, decide_eq_true hfew]
      exact Passes.refl _
    · have hstep := step_closing output rest outer hs hchars
      rw [if_pos (Nat.not_lt.mp hfew)] at hstep
      rw [List.length_nil, Nat.add_zero, decide_eq_false hfew]
      exact .raised (keepsWidths_of_chars hchars) hstep
  | arg :: args =>
    simp only [values?, Option.bind_eq_bind, Option.bind_eq_some_iff, Prod.exists] at hvalues
    obtain ⟨text, n₁, harg, texts', n₂, hargs, heq⟩ := hvalues
    obtain ⟨rfl, rfl⟩ : String.ofList text :: texts' = texts ∧ n₂ = tokens := by simpa using heq
    rw [listCalls] at hbudget
    rw [listHeight] at hdepth
    rw [List.length_cons, listFits, listText, List.cons_append, List.append_assoc]
    have hkeeps : keepsWidths ⟨s, output,
          s.chars.semi :: (arg.text s.chars ++ (listText s.chars args ++ rest)), call :: outer⟩
        = true :=
      keepsWidths_of_chars hchars
    have hstep := step_semi output (arg.text s.chars ++ (listText s.chars args ++ rest)) outer hs
      hchars
    by_cases hfew : call.frame.args.length < maxEntries
    · -- The separator completes the argument before it, and the next one begins.
      rw [if_neg (Nat.not_le.mpr hfew)] at hstep
      let next : OpenCall := ⟨call.frame.push (String.ofList call.pending), [], call.chars⟩
      obtain ⟨log₁, hfirst⟩ := passes next outer output (listText s.chars args ++ rest) hs hchars
        harg (by omega) (by omega)
      obtain ⟨log₂, hrest⟩ := passes_list (next.add text) outer output rest
        (hs.spent arg.calls n₁ log₁) hchars hargs (by simp only [Session.spent]; omega)
        (by simp only [Session.spent]; omega)
      have hlength : (next.add text).frame.args.length + args.length
          = call.frame.args.length + (args.length + 1) := by
        simp only [next, OpenCall.add, Frame.push, List.length_append, List.length_singleton]
        omega
      have hnext : (next.add text).collect texts'
          = call.collect (String.ofList text :: texts') := by
        simp [next, OpenCall.add, OpenCall.collect]
      rw [Session.spent_spent, hlength, hnext] at hrest
      rw [Bool.and_left_comm]
      exact ⟨log₂, .head hkeeps hstep (hfirst.trans hrest)⟩
    · rw [if_pos (Nat.not_lt.mp hfew)] at hstep
      rw [decide_eq_false (by omega), Bool.false_and]
      exact ⟨s.log, .raised hkeeps hstep⟩
termination_by sizeOf args

end

/-- A call as it is written, up to the bracket that closes it. -/
def callText (m : MetaChars) (active : Bool) (name : Template) (args : List Template) : List Char :=
  m.sharp :: (m.callStart active ++ name.text m ++ listText m args)

end Template

end TextMacro
