import TextMacro.Proofs.ArgumentLists
import TextMacro.Proofs.Relocation

/-!
# Calls of defined strings are textual replacement

Evaluating the call of a defined string and a text behind it is evaluating the expansion of the call
and that text, from the session in which the call has been counted (`Interpreter.evaluate_call`).
The expansion of an active call is scanned with the text behind it. That of a passive call is output
as it is, whatever characters it has.

The name and the arguments of the call are written with an escape before every character, which
makes them templates without calls (`Template.ofText`).
-/

namespace TextMacro

namespace MetaChars

/-- A text with an escape before every character. -/
def quoted (m : MetaChars) (text : String) : List Char :=
  text.toList.flatMap fun c => [m.escape, c]

/-- A call as it is written, with an escape before every character of its name and its arguments. -/
def quotedCall (m : MetaChars) (active : Bool) (name : String) (args : List String) : String :=
  String.ofList (m.sharp :: (m.callStart active ++ m.quoted name
    ++ args.flatMap (fun arg => m.semi :: m.quoted arg) ++ [m.closing]))

end MetaChars

/-! ## Texts as templates -/

namespace Template

/-- The template of escaped characters. -/
def ofChars : List Char → Template
  | [] => .empty
  | c :: cs => .literal c (ofChars cs)

/-- The template that stands for a text. -/
def ofText (text : String) : Template := ofChars text.toList

variable (m : MetaChars) (d : Dictionary) (n : Nat)

/-- A template that is a text is written in quotes. -/
theorem text_ofText (text : String) : (ofText text).text m = m.quoted text := by
  have hchars : ∀ cs, (ofChars cs).text m = cs.flatMap fun c => [m.escape, c] := by
    intro cs
    induction cs with
    | nil => rfl
    | cons c cs ih => simp [ofChars, Template.text, ih]
  exact hchars text.toList

/-- A template that is a text stands for it and generates no token. -/
theorem value?_ofText (text : String) : (ofText text).value? d n = some (text.toList, n) := by
  have hchars : ∀ cs, (ofChars cs).value? d n = some (cs, n) := by
    intro cs
    induction cs with
    | nil => rfl
    | cons c cs ih => simp [ofChars, value?, ih]
  exact hchars text.toList

/-- No call is counted, nested or too long in the template of a text. -/
theorem ofText_plain (text : String) :
    (ofText text).calls = 0 ∧ (ofText text).height = 0 ∧ (ofText text).fits = true := by
  have hchars : ∀ cs, (ofChars cs).calls = 0 ∧ (ofChars cs).height = 0
      ∧ (ofChars cs).fits = true := by
    intro cs
    induction cs with
    | nil => exact ⟨rfl, rfl, rfl⟩
    | cons c cs ih => exact ih
  exact hchars text.toList

/-- Arguments that are texts are written in quotes. -/
theorem listText_ofText (args : List String) : listText m (args.map ofText)
    = args.flatMap (fun arg => m.semi :: m.quoted arg) ++ [m.closing] := by
  induction args with
  | nil => rfl
  | cons arg args ih => simp [listText, text_ofText, ih]

/-- Arguments that are texts stand for themselves. -/
theorem values?_ofText (args : List String) :
    values? d n (args.map ofText) = some (args, n) := by
  induction args with
  | nil => rfl
  | cons arg args ih => simp [values?, value?_ofText, ih]

/-- Arguments that are texts hold no calls and always fit. -/
theorem listOfText_plain (args : List String) :
    listCalls (args.map ofText) = 0 ∧ listHeight (args.map ofText) = 0
      ∧ listFits (args.map ofText) = true := by
  induction args with
  | nil => exact ⟨rfl, rfl, rfl⟩
  | cons arg args ih =>
    obtain ⟨hcalls, hheight, hfits⟩ := ih
    obtain ⟨hcalls', hheight', hfits'⟩ := ofText_plain arg
    refine ⟨?_, ?_, ?_⟩
    · simp [listCalls, hcalls, hcalls']
    · simp [listHeight, hheight, hheight']
    · simp [listFits, hfits, hfits']

/-- A call of texts is written as its start, its name and its arguments. -/
theorem toList_quotedCall (active : Bool) (name : String) (args : List String) :
    (m.quotedCall active name args).toList
      = m.sharp :: (m.callStart active
        ++ ((ofText name).text m ++ listText m (args.map ofText))) := by
  simp [MetaChars.quotedCall, text_ofText, listText_ofText]

end Template

/-! ## Calls -/

namespace Rewriter

variable {s : Session} {name : String} {args : List String} {body : Body}

/-- What a call of a defined string leaves, which stands in front of a text outside other calls: its
expansion in front of that text, or output if the call is passive. -/
def afterCall (s : Session) (active : Bool) (filled rest : List Char) : Rewriter :=
  if active then ⟨s, [], filled ++ rest, []⟩ else ⟨s, filled, rest, []⟩

/-- A call outside other calls collects its name and its arguments, and is then carried out. -/
theorem goes_carryingOut (name : String) (active : Bool) (output rest : List Char)
    (hs : s.Ready) (hbudget : s.execs < s.props.execCount) (hdepth : 0 < s.props.stackSize)
    (hfew : args.length < maxEntries) :
    ∃ log last, Goes ⟨s, output, (s.chars.quotedCall active name args).toList ++ rest, []⟩ last ∧
      last.keepsWidths = true ∧
      last.step = finishCall ⟨s.spent 1 s.creations log, output, rest, []⟩
        ⟨⟨name :: args, active⟩, [], s.chars⟩ := by
  obtain ⟨hcalls, hheight, hfits⟩ := Template.listOfText_plain (name :: args)
  have hvalues := Template.values?_ofText s.dict s.creations (name :: args)
  rw [List.map_cons] at hcalls hheight hfits hvalues
  have htext : (s.chars.quotedCall active name args).toList ++ rest
      = s.chars.sharp :: (s.chars.callStart active ++ ((Template.ofText name).text s.chars
        ++ (Template.listText s.chars (args.map Template.ofText) ++ rest))) := by
    simp [Template.toList_quotedCall]
  rw [htext]
  -- The call begins, its entries are collected, and the bracket that closes it is left.
  obtain ⟨log₀, hbegin⟩ := step_sharp_outside output ((Template.ofText name).text s.chars
    ++ (Template.listText s.chars (args.map Template.ofText) ++ rest)) active hs hbudget hdepth
  obtain ⟨log₁, inner, hentries, hpush, hinner, hlength⟩ := Template.passes_entries active []
    output rest (hs.spent 1 s.creations log₀) hvalues (by rw [hcalls]; exact hbudget)
    (by rw [hheight]; exact hdepth)
  rw [List.length_map] at hentries hlength
  rw [hcalls, hfits, decide_eq_true hfew, Session.spent_spent] at hentries
  have hclose := step_closing output rest [] (hs.spent 1 s.creations log₁) hinner
  rw [if_neg (Nat.not_le.mpr (hlength ▸ hfew)), hpush, hinner] at hclose
  exact ⟨log₁, _, .step rfl hbegin hentries, keepsWidths_of_chars hinner, hclose⟩

/-- The rewriting goes there. -/
theorem goes_call (active : Bool) (rest : List Char) (hs : s.Ready)
    (hbody : s.dict.body name = .ok body) (hbudget : s.execs < s.props.execCount)
    (hdepth : 0 < s.props.stackSize) (hfew : args.length < maxEntries) :
    ∃ log, Goes ⟨s, [], (s.chars.quotedCall active name args).toList ++ rest, []⟩
      (afterCall (s.spent 1 (body.tokensAfter s.creations) log) active
        (body.filled args (token (s.creations + 1))) rest) := by
  obtain ⟨log₁, last, hgoes, hkeeps, hlast⟩ := goes_carryingOut name active [] rest hs hbudget
    hdepth hfew
  obtain ⟨log₂, hfinish⟩ := finishCall_defined [] rest ⟨⟨name :: args, active⟩, [], s.chars⟩ []
    (hs.spent 1 s.creations log₁) hbody rfl
  have hnext : last.step = .next (afterCall (s.spent 1 (body.tokensAfter s.creations) log₂) active
      (body.filled args (token (s.creations + 1))) rest) := by
    refine (hlast.trans hfinish).trans ?_
    cases active with
    | true => rfl
    | false => rfl
  exact ⟨log₂, hgoes.trans (.step hkeeps hnext (.refl _))⟩

end Rewriter

namespace Interpreter

variable {t : Interpreter} {name : String} {body : Body}

/-- The interpreter in which the call of a defined string has been counted, and a token if it needs
one. -/
def called (t : Interpreter) (body : Body) (log : Log) : Interpreter :=
  ofSession (t.session.spent 1 (body.tokensAfter t.session.creations) log)

/-- What a call of a defined string stands for: the body with each segment mark replaced by its
argument and each creation mark by the next token. -/
def expansion (t : Interpreter) (body : Body) (args : List String) : String :=
  String.ofList (body.filled args (token (t.session.creations + 1)))

/-- The scanner comes to where the expansion stands in front of the text behind the call, or is
output if the call is passive. -/
theorem reaches_expansion {args : List String} (active : Bool) (rest : String) (ht : t.Reachable)
    (hbody : t.session.dict.body name = .ok body)
    (hbudget : t.session.execs < t.session.props.execCount) (hfew : args.length < maxEntries) :
    ∃ u log, (t.load (t.session.chars.quotedCall active name args ++ rest)).Reaches u ∧
      u.Represents (if active then
          .start (t.called body log).session (t.expansion body args ++ rest)
        else (Rewriter.start (t.called body log).session rest).beside
          (t.expansion body args).toList []) := by
  have hready : ({ t.session with halt := none } : Session).Ready :=
    ⟨ht.wellFormed, Session.invariant_plain.reachable ht, rfl⟩
  have hdepth : 0 < t.session.props.stackSize := Session.invariant_stackSize.reachable ht
  obtain ⟨log, hgoes⟩ := Rewriter.goes_call active rest.toList hready hbody hbudget hdepth hfew
  have hload := represents_load ht.calls_eq (t.session.chars.quotedCall active name args ++ rest)
  have hstart : Rewriter.start t.session (t.session.chars.quotedCall active name args ++ rest)
      = ⟨{ t.session with halt := none }, [],
        (t.session.chars.quotedCall active name args).toList ++ rest.toList, []⟩ := by
    simp [Rewriter.start]
  rw [hstart] at hload
  obtain ⟨u, hu, hrep⟩ := hgoes.reaches hload
  refine ⟨u, log, hu, ?_⟩
  unfold expansion
  cases active with
  | true =>
    rw [if_pos rfl, Rewriter.start, String.toList_append, String.toList_ofList]
    exact hrep
  | false =>
    rw [if_neg Bool.false_ne_true, Rewriter.beside, Rewriter.start, String.toList_ofList,
      List.append_nil, List.append_nil]
    exact hrep

/-- Calling a defined string is textual replacement. Take a state between programs with a call left
in its budget, and a program that begins with a call of a defined string with no more arguments than
there may be, its name and arguments written with an escape before every character. As long as the
scanner stays aligned in it, the program is evaluated as the one with the expansion in place of the
call, from the state in which the call has been counted and the token it needs generated: to the
same outcome or failure, and to the same state. If the call is passive, it is evaluated as the text
behind the call is from that state, with the expansion in front of its output, whatever characters
that has: to the same exit, or to the same error with the same calls in progress. Only the log
tells of the call. -/
theorem evaluate_call (args : List String) (rest : String) (ht : t.Reachable)
    (hbody : t.session.dict.body name = .ok body)
    (hbudget : t.session.execs < t.session.props.execCount) (hfew : args.length < maxEntries) :
    ((∀ u, (t.load (t.session.chars.quotedCall true name args ++ rest)).Reaches u → u.Aligned) →
      ∃ log steps, ∀ fuel,
        t.evaluate (steps + fuel) (t.session.chars.quotedCall true name args ++ rest)
          = (t.called body log).evaluate fuel (t.expansion body args ++ rest)) ∧
    ((∀ u, (t.load (t.session.chars.quotedCall false name args ++ rest)).Reaches u → u.Aligned) →
      ∃ log steps, ∀ fuel,
        t.evaluate (steps + fuel) (t.session.chars.quotedCall false name args ++ rest)
          = (((t.called body log).evaluate fuel rest).1.map (·.behind (t.expansion body args))
              (·.behind (t.expansion body args)),
            ((t.called body log).evaluate fuel rest).2)) := by
  refine ⟨fun haligned => ?_, fun haligned => ?_⟩
  · obtain ⟨u, log, hu, hrep⟩ := reaches_expansion true rest ht hbody hbudget hfew
    exact ⟨log, evaluate_relocated ht.calls_eq rfl haligned hu hrep⟩
  · obtain ⟨u, log, hu, hrep⟩ := reaches_expansion false rest ht hbody hbudget hfew
    exact ⟨log, evaluate_relocated_behind ht.calls_eq rfl haligned hu hrep⟩

/-- Whether the widths are those that the innermost argument list began with. -/
def hasWidths (t : Interpreter) : Bool :=
  match t.lists with
  | [] => true
  | list :: _ => list.chars.sameWidths t.session.chars

/-- A program that keeps these widths keeps the scanner aligned. -/
theorem aligned_of_hasWidths {text : String} {fuel : Nat} (ht : t.Reachable)
    (h : always hasWidths fuel (t.load text) = true) :
    ∀ u, (t.load text).Reaches u → u.Aligned := by
  have hkeeps : ∀ u, (t.load text).Reaches u → u.KeepsWidths := by
    intro u hu list hlist
    have hwidths := hu.of_always h
    obtain ⟨outer, hlists⟩ := List.head?_eq_some_iff.mp hlist
    rw [hasWidths, hlists] at hwidths
    exact hwidths
  intro u hu
  have hsession : (t.load text).session.WellFormed := ht.wellFormed
  have hload : (t.load text).Laid := ⟨_, represents_load ht.calls_eq text⟩
  have hlaid := hu.laid hsession hload fun v hv hlaid => hlaid.aligned (hkeeps v hv)
  exact hlaid.aligned (hkeeps u hu)

/-- An interpreter in which a string is defined that is a segment mark. -/
def segmented : Interpreter := (fresh.evaluate 40 "#<ds;f;x>#<ss;f;x>").2

/-- The string that is a segment mark. -/
def segmentBody : Body :=
  match segmented.session.dict.body "f" with
  | .ok body => body
  | .error _ => .ofString ""

/-- A bracket that an active call yields is closed by the text behind the call, and one that a
passive call yields is not. -/
theorem evaluate_call_bracket :
    (∃ log steps, ∀ fuel, segmented.evaluate (steps + fuel) "#<\\f;\\<>a>"
      = (segmented.called segmentBody log).evaluate fuel "<a>") ∧
    (∃ log steps, ∀ fuel, segmented.evaluate (steps + fuel) "##<\\f;\\<>a>"
      = (((segmented.called segmentBody log).evaluate fuel "a>").1.map (·.behind "<")
          (·.behind "<"),
        ((segmented.called segmentBody log).evaluate fuel "a>").2)) := by
  have hfacts : (match segmented.session.dict.body "f" with
        | .ok body => decide (body = segmentBody)
        | .error _ => false) = true ∧
      segmented.session.execs < segmented.session.props.execCount ∧
      segmented.session.chars.quotedCall true "f" ["<"] ++ "a>" = "#<\\f;\\<>a>" ∧
      segmented.session.chars.quotedCall false "f" ["<"] ++ "a>" = "##<\\f;\\<>a>" ∧
      segmented.expansion segmentBody ["<"] = "<" ∧
      always hasWidths 20 (segmented.load "#<\\f;\\<>a>") = true ∧
      always hasWidths 20 (segmented.load "##<\\f;\\<>a>") = true := by
    decide +kernel
  obtain ⟨hdefined, hbudget, hactive, hpassive, hexpansion, hwidths, hwidths'⟩ := hfacts
  have hbody : segmented.session.dict.body "f" = .ok segmentBody := by
    cases hfound : segmented.session.dict.body "f" with
    | ok body =>
      rw [hfound] at hdefined
      rw [of_decide_eq_true hdefined]
    | error e => simp [hfound] at hdefined
  have ht : segmented.Reachable := .evaluate _ _ reachable_fresh
  have hcall := evaluate_call ["<"] "a>" ht hbody hbudget (by decide)
  rw [hactive, hpassive, hexpansion] at hcall
  exact ⟨hcall.1 (aligned_of_hasWidths ht hwidths), hcall.2 (aligned_of_hasWidths ht hwidths')⟩

end Interpreter

end TextMacro
