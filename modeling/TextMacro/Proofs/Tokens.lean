import Mathlib.Data.List.Basic
import TextMacro.Proofs.DefinedStrings
import TextMacro.Proofs.Invariant
import TextMacro.Proofs.Refinement
import TextMacro.Proofs.Steps

/-!
# Generated tokens

All creation marks of one expansion are filled in with the same token. Over a session, whatever its
programs do and however they end, the expansions of strings that have such marks get the tokens with
the numbers one, two, three and so on (`tokens_in_turn`). A step of the scanner is an expansion or
leaves the number of tokens as it is (`numbered_step`), so the numbers go on along a run and from
one program to the next (`Numbered`). Tokens with different numbers are different texts, since a
token reads back as its number (`magnitude?_token`).
-/

namespace TextMacro

/-! ## Texts of tokens -/

/-- A token is its number in decimal, with zeros in front up to the least width. -/
theorem toList_token (n : Nat) : (token n).toList
    = List.replicate (tokenWidth - (Nat.toDigits 10 n).length) '0' ++ Nat.toDigits 10 n := by
  have hlength : n.repr.length = (Nat.toDigits 10 n).length := by
    rw [← String.length_toList, Nat.toList_repr]
  unfold token Decimal.renderPadded
  dsimp only
  rw [String.toList_append, String.toList_ofList, Nat.toList_repr, hlength]

/-- Zeros in front do not count. -/
theorem ofDigitChars_replicate (n : Nat) (digits : List Char) :
    Nat.ofDigitChars 10 (List.replicate n '0' ++ digits) 0 = Nat.ofDigitChars 10 digits 0 := by
  induction n with
  | zero => rfl
  | succ n ih => exact ih

/-- A token reads back as its number. -/
theorem magnitude?_token (n : Nat) : Decimal.magnitude? (token n).toList = some n := by
  have hdigits : ∀ c ∈ (token n).toList, c.isDigit = true := by
    intro c hc
    rw [toList_token, List.mem_append] at hc
    rcases hc with hzero | hdigit
    · rw [(List.mem_replicate.mp hzero).2]
      rfl
    · exact Nat.isDigit_of_mem_toDigits (by decide) (by decide) hdigit
  have hsome : (token n).toList ≠ [] := by
    rw [toList_token]
    exact List.append_ne_nil_of_right_ne_nil _ Nat.toDigits_ne_nil
  have hvalue : Nat.ofDigitChars 10 (token n).toList 0 = n := by
    rw [toList_token, ofDigitChars_replicate, Nat.ofDigitChars_toDigits (by decide) (by decide)]
  unfold Decimal.magnitude?
  rw [if_neg (by simpa [hsome] using hdigits)]
  exact congrArg some hvalue

/-! ## Expansions -/

namespace Body

open TextUnit

/-- Each creation mark adds the length of what it is filled in with. -/
theorem length_filled (units : List TextUnit) (args : List String) (text : String) :
    (units.flatMap (·.filled args text)).length = units.count .creation * text.toList.length
      + (units.flatMap (·.filled args "")).length := by
  induction units with
  | nil => simp
  | cons u units ih =>
    rw [List.flatMap_cons, List.flatMap_cons, List.length_append, List.length_append, ih]
    cases u with
    | char c =>
      rw [List.count_cons_of_ne (by simp), TextUnit.filled, TextUnit.filled]
      omega
    | segment slot =>
      rw [List.count_cons_of_ne (by simp), TextUnit.filled, TextUnit.filled]
      omega
    | creation =>
      rw [List.count_cons_self, TextUnit.filled, TextUnit.filled, Nat.add_mul]
      simp
      omega

/-- What a creation mark has been filled in with can be told from the result. -/
theorem eq_of_filled_eq {units : List TextUnit} {args : List String} {text text' : String}
    (hmem : .creation ∈ units)
    (h : units.flatMap (·.filled args text) = units.flatMap (·.filled args text')) :
    text = text' := by
  -- There are as many marks in both, so the texts in their places have the same length.
  have hlength : text.toList.length = text'.toList.length := by
    have hsize := congrArg List.length h
    rw [length_filled units args text, length_filled units args text'] at hsize
    have hpos : 0 < units.count .creation := List.count_pos_iff.mpr hmem
    exact Nat.eq_of_mul_eq_mul_left hpos (Nat.add_right_cancel hsize)
  induction units with
  | nil => simp at hmem
  | cons u units ih =>
    rw [List.flatMap_cons, List.flatMap_cons] at h
    cases u with
    | char c => exact ih (by simpa using hmem) (List.append_cancel_left h)
    | segment slot => exact ih (by simpa using hmem) (List.append_cancel_left h)
    | creation => exact String.toList_inj.mp (List.append_inj h hlength).1

end Body

/-- The expansion of a string by a call. -/
structure Expansion where
  body : Body
  /-- The arguments of the call. -/
  args : List String
  /-- The text that the call yields. -/
  text : String

namespace Expansion

/-- Whether the string has a creation mark. -/
def marked (e : Expansion) : Bool := .creation ∈ e.body.units

/-- An expansion uses up a token if there is a mark for it. -/
theorem tokensAfter_eq (e : Expansion) (n : Nat) :
    e.body.tokensAfter n = if e.marked = true then n + 1 else n := by
  simp [Body.tokensAfter, marked]

/-- All creation marks are filled in with a text. -/
def Receives (e : Expansion) (text : String) : Prop :=
  e.text = String.ofList (e.body.filled e.args text)

/-- The marks are filled in with one text only. -/
theorem Receives.eq {e : Expansion} {text text' : String} (h : e.Receives text)
    (h' : e.Receives text') (hmarked : e.marked = true) : text = text' := by
  have hfilled := String.ofList_injective (h.symm.trans h')
  exact Body.eq_of_filled_eq (of_decide_eq_true hmarked) hfilled

/-- Without a mark nothing is filled in. -/
theorem Receives.of_unmarked {e : Expansion} {text : String} (h : e.Receives text)
    (hmarked : e.marked = false) (text' : String) : e.Receives text' := by
  have hunits : .creation ∉ e.body.units := of_decide_eq_false hmarked
  have hfilled : e.body.filled e.args text = e.body.filled e.args text' := by
    refine List.flatMap_congr fun u hu => ?_
    cases u with
    | char c => rfl
    | segment slot => rfl
    | creation => exact absurd hu hunits
  exact h.trans (congrArg String.ofList hfilled)

end Expansion

/-- Expansions that come after `n` tokens have been generated: each gets the next token, which is
used up if there is a mark for it. When they are done, `m` tokens have been generated. -/
inductive Numbered : Nat → List Expansion → Nat → Prop
  | nil (n : Nat) : Numbered n [] n
  | cons {n m : Nat} {e : Expansion} {es : List Expansion} (hreceives : e.Receives (token (n + 1)))
    (hrest : Numbered (e.body.tokensAfter n) es m) : Numbered n (e :: es) m

namespace Numbered

variable {n m k : Nat} {es es' : List Expansion}

/-- Numbers go on along expansions one after another. -/
theorem append (h : Numbered n es m) (h' : Numbered m es' k) : Numbered n (es ++ es') k := by
  induction h with
  | nil n => exact h'
  | cons hreceives hrest ih => exact .cons hreceives (ih h')

/-- There are as many tokens more as expansions with a mark. -/
theorem eq_add (h : Numbered n es m) : m = n + (es.filter (·.marked)).length := by
  induction h with
  | nil n => rfl
  | @cons n m e es hreceives hrest ih =>
    rw [ih, e.tokensAfter_eq]
    by_cases hmarked : e.marked = true
    · rw [if_pos hmarked, List.filter_cons, if_pos hmarked, List.length_cons]
      omega
    · rw [if_neg hmarked, List.filter_cons, if_neg hmarked]

/-- The expansions with a mark get the tokens in turn. -/
theorem receives (h : Numbered n es m) {i : Nat} {e : Expansion}
    (hi : (es.filter (·.marked))[i]? = some e) : e.Receives (token (n + i + 1)) := by
  induction h generalizing i with
  | nil n => simp at hi
  | @cons n m e' es hreceives hrest ih =>
    rw [e'.tokensAfter_eq] at ih
    rw [List.filter_cons] at hi
    by_cases hmarked : e'.marked = true
    -- Behind an expansion with a mark the others are one place and one number further on.
    · rw [if_pos hmarked] at hi ih
      cases i with
      | zero =>
        obtain rfl : e' = e := by simpa using hi
        exact hreceives
      | succ i =>
        have hlater := ih (by simpa using hi)
        rw [Nat.add_right_comm n 1 i] at hlater
        exact hlater
    · rw [if_neg hmarked] at hi ih
      exact ih hi

/-- An expansion without a mark gets no token. -/
theorem of_unmarked (h : Numbered n es m) {e : Expansion} (he : e ∈ es)
    (hmarked : e.marked = false) (text : String) : e.Receives text := by
  induction h with
  | nil n => simp at he
  | cons hreceives hrest ih =>
    rcases List.mem_cons.mp he with rfl | hrest
    · exact hreceives.of_unmarked hmarked text
    · exact ih hrest

end Numbered

/-! ## Calls that generate no token -/

/-- Where it is not permitted, no token is generated. -/
theorem Session.Changes.creations_eq {permits : Permits} {s s' : Session} (h : s.Changes permits s')
    (hkeeps : permits.creates = false) : s'.creations = s.creations :=
  h.part_eq (·.creations) fun hchange => by
    cases hchange with
    | setProp hset =>
      obtain ⟨p, -, -, rfl⟩ := eq_of_setProp hset
      rfl
    | created hcreates => exact absurd (hcreates.symm.trans hkeeps) (by decide)
    | _ => rfl

/-- Tokens are generated by the expansion of strings alone. -/
theorem Action.creations_invoke {s : Session} {f : Frame} (depth : Nat)
    (h : ∀ body, s.dict.body f.name ≠ .ok body) :
    (left (invoke depth f s)).creations = s.creations := by
  have hpermits : (s.dict.permits f).creates = false := by
    unfold Dictionary.permits
    cases hfunction : s.dict.function? f.name with
    | none => rfl
    | some function =>
      dsimp only
      cases hmeaning : function.meaning with
      | builtin code => rfl
      | defined body => exact absurd (Dictionary.body_of_meaning hfunction hmeaning) (h body)
  exact (leaves_invoke depth f s).changes.creations_eq hpermits

/-! ## Expansions of a program -/

namespace Interpreter

variable {t : Interpreter}

/-- The expansion that the next step is, if the call that is due is one of a defined string. -/
def expansion? (t : Interpreter) : Option Expansion :=
  match t.callDue? with
  | none => none
  | some f =>
    match t.session.dict.body f.name, Action.invoke t.calls.depth f t.session with
    | .ok body, .ok (_, text) _ => some ⟨body, f.rest, text⟩
    | _, _ => none

/-- The expansions that a program makes in at most `fuel` steps, the first in front. -/
def expansions : (fuel : Nat) → Interpreter → List Expansion
  | 0, _ => []
  | fuel + 1, t =>
    t.expansion?.toList ++ match t.step with
      | .next u => expansions fuel u
      | _ => []

/-- Where a call starts, none is due. -/
theorem callDue?_of_callAhead {active : Bool} (h : t.callAhead? = some active) :
    t.callDue? = none := by
  obtain ⟨-, c, hpeek, hsharp, -⟩ := callAhead?_eq_some_iff.mp h
  refine Option.eq_none_iff_forall_ne_some.mpr fun f hdue => ?_
  obtain ⟨-, c', outer, hpeek', hclosing, -⟩ := callDue?_eq_some_iff.mp hdue
  obtain rfl : c = c' := by simpa using hpeek.symm.trans hpeek'
  exact absurd (hsharp.symm.trans hclosing) (by decide)

/-- Nothing is expanded where no call is due. -/
theorem expansion?_of_quiet (h : t.callDue? = none) : t.expansion? = none := by
  unfold expansion?
  rw [h]

/-- A call of something other than a defined string is no expansion. -/
theorem expansion?_of_builtin {f : Frame} (hdue : t.callDue? = some f)
    (h : ∀ body, t.session.dict.body f.name ≠ .ok body) : t.expansion? = none := by
  unfold expansion?
  rw [hdue]
  dsimp only
  split
  · rename_i body _ _ _ hbody _
    exact absurd hbody (h body)
  · rfl

/-- A call of a defined string is an expansion that gets the next token. -/
theorem expansion?_of_defined {f : Frame} {body : Body} (hdict : t.session.dict.WellFormed)
    (hplain : t.session.dict.Plain) (hdue : t.callDue? = some f)
    (hbody : t.session.dict.body f.name = .ok body) :
    ∃ e, t.expansion? = some e ∧ e.body = body ∧ e.Receives (token (t.session.creations + 1)) := by
  obtain ⟨log, hinvoke⟩ := Action.invoke_defined t.calls.depth hdict hplain hbody
  refine ⟨⟨body, f.rest, String.ofList (body.filled f.rest (token (t.session.creations + 1)))⟩, ?_,
    rfl, rfl⟩
  unfold expansion?
  rw [hdue]
  dsimp only
  rw [hbody, hinvoke]

/-- A step is an expansion, which gets the next token, or leaves the number of tokens as it is. -/
theorem numbered_step (hdict : t.session.dict.WellFormed) (hplain : t.session.dict.Plain)
    {u : Interpreter} {depth : Nat} (hleft : t.step.left? depth = some u) :
    Numbered t.session.creations t.expansion?.toList u.session.creations := by
  -- Where no string is expanded, the number stays.
  have hsame : t.expansion? = none → u.session.creations = t.session.creations →
      Numbered t.session.creations t.expansion?.toList u.session.creations := by
    intro hnone hcreations
    rw [hnone, hcreations]
    exact .nil _
  -- A call expands a string, or it is one of a builtin, which generates no token.
  have hcall : ∀ {f : Frame} {depth : Nat}, t.callDue? = some f →
      u.session.creations = (Action.left (Action.invoke depth f t.session)).creations →
      Numbered t.session.creations t.expansion?.toList u.session.creations := by
    intro f depth hdue hcreations
    by_cases hdefined : ∃ body, t.session.dict.body f.name = .ok body
    · obtain ⟨body, hbody⟩ := hdefined
      obtain ⟨e, he, rfl, hreceives⟩ := expansion?_of_defined hdict hplain hdue hbody
      obtain ⟨log, hinvoke⟩ := Action.invoke_defined depth hdict hplain hbody
      rw [he, hcreations, hinvoke]
      exact .cons hreceives (.nil _)
    · have hother := not_exists.mp hdefined
      exact hsame (expansion?_of_builtin hdue hother)
        (hcreations.trans (Action.creations_invoke depth hother))
  cases hstep : t.step with
  | next v =>
    obtain rfl : v = u := by simpa [hstep, Step.left?] using hleft
    cases goesOn_of_step hstep with
    | passed hquiet hsession => exact hsame (expansion?_of_quiet hquiet.due) (by rw [hsession])
    | collected hquiet hsession => exact hsame (expansion?_of_quiet hquiet.due) (by rw [hsession])
    | givenUp hquiet _ hsession => exact hsame (expansion?_of_quiet hquiet.due) (by rw [hsession])
    | begun hahead _ _ hsession =>
      exact hsame (expansion?_of_quiet (callDue?_of_callAhead hahead)) (by rw [hsession]; rfl)
    | carriedOut _ hdue hinvoke => exact hcall hdue (by rw [hinvoke]; rfl)
  | finished v =>
    obtain ⟨hquiet, -, rfl⟩ := finished_of_step hstep
    obtain rfl : v.clear = u := by simpa [hstep, Step.left?] using hleft
    exact hsame (expansion?_of_quiet hquiet.due) rfl
  | raised e v =>
    obtain rfl : (v.unwind depth).clear = u := by simpa [hstep, Step.left?] using hleft
    cases fails_of_step hstep with
    | inText hquiet _ hsession =>
      have hcreations : v.session.creations = t.session.creations := by rw [hsession]
      exact hsame (expansion?_of_quiet hquiet.due) hcreations
    | spent hahead _ _ hunchanged =>
      have hcreations : v.session.creations = t.session.creations := by rw [hunchanged]
      exact hsame (expansion?_of_quiet (callDue?_of_callAhead hahead)) hcreations
    | tooDeep hahead _ _ _ hsession =>
      have hcreations : v.session.creations = t.session.creations := by rw [hsession]
      exact hsame (expansion?_of_quiet (callDue?_of_callAhead hahead)) hcreations
    | missed hquiet _ _ _ hsession =>
      have hcreations : v.session.creations = t.session.creations := by rw [hsession]
      exact hsame (expansion?_of_quiet hquiet.due) hcreations
    | inCall _ hdue hinvoke => exact hcall hdue (by rw [hinvoke]; rfl)
  | fault => simp [hstep, Step.left?] at hleft

/-- The state that a run comes to, if the scanner does not reach outside its buffer. The calls that
it leaves are taken off the stack down to some depth. -/
def Rest.left? (depth : Nat) : Rest → Option Interpreter
  | .finished u => some u.clear
  | .raised _ u => some (u.unwind depth).clear
  | .unfinished u => some (u.unwind depth).clear
  | .fault => none

/-- The expansions of a run get the tokens in turn. -/
theorem numbered_run {depth : Nat} (fuel : Nat)
    (hdict : ∀ u, t.Reaches u → u.session.dict.WellFormed ∧ u.session.dict.Plain)
    {u : Interpreter} (hleft : (run fuel t).left? depth = some u) :
    Numbered t.session.creations (expansions fuel t) u.session.creations := by
  induction fuel generalizing t with
  | zero =>
    obtain rfl : (t.unwind depth).clear = u := by simpa [run, Rest.left?] using hleft
    exact .nil _
  | succ fuel ih =>
    obtain ⟨hwell, hplain⟩ := hdict t .refl
    have hfirst : ∀ {v}, t.step.left? depth = some v →
        Numbered t.session.creations t.expansion?.toList v.session.creations :=
      numbered_step hwell hplain
    unfold expansions
    unfold run at hleft
    cases hstep : t.step with
    | next v =>
      rw [hstep] at hleft
      have hrest := ih (fun w hw => hdict w (hw.of_step hstep)) hleft
      exact (hfirst (by rw [hstep]; rfl)).append hrest
    | finished v =>
      rw [hstep] at hleft
      obtain rfl : v.clear = u := by simpa [Rest.left?] using hleft
      exact (hfirst (by rw [hstep]; rfl)).append (.nil _)
    | raised e v =>
      rw [hstep] at hleft
      obtain rfl : (v.unwind depth).clear = u := by simpa [Rest.left?] using hleft
      exact (hfirst (by rw [hstep]; rfl)).append (.nil _)
    | fault =>
      rw [hstep] at hleft
      simp [Rest.left?] at hleft

/-- A program that does not fault leaves the state that its run comes to. -/
theorem left?_of_evaluate {fuel : Nat} {text : String} (h : (t.evaluate fuel text).1 ≠ .fault) :
    (run fuel (t.load text)).left? t.calls.depth = some (t.evaluate fuel text).2 := by
  rw [evaluate_eq] at h ⊢
  cases hrun : run fuel (t.load text) with
  | finished u =>
    dsimp only
    split <;> rfl
  | raised e u =>
    dsimp only
    split <;> rfl
  | fault =>
    rw [hrun] at h
    exact absurd rfl h
  | unfinished u => rfl

/-! ## Sessions -/

/-- The states of an interpreter between programs, with all expansions since it was started: it has
evaluated any programs, each of which has succeeded, failed, asked to stop or been given up, and
between them the surroundings may have changed, properties may have been set and other meta
characters chosen. -/
inductive Records : Interpreter → List Expansion → Prop
  | start (streams : Streams) (files : Files) (clock : Clock) (log : Log) :
    Records (ofSession (.start streams files clock log)) []
  | evaluate {t : Interpreter} {history : List Expansion} (fuel : Nat) (text : String) :
    Records t history → (t.evaluate fuel text).1 ≠ .fault →
    Records (t.evaluate fuel text).2 (history ++ expansions fuel (t.load text))
  | surroundings {t : Interpreter} {history : List Expansion} (streams : Streams) (files : Files)
    (clock : Clock) (log : Log) (args : List String) (traceAll : Bool) : Records t history →
    Records { t with session := { t.session with streams, files, clock, log, args, traceAll } }
      history
  | setProp {t : Interpreter} {history : List Expansion} {session : Session} (name : String)
    (value : Int) : Records t history → t.session.setProp name value = .ok session →
    Records { t with session } history
  | resetProps {t : Interpreter} {history : List Expansion} : Records t history →
    Records { t with session := t.session.resetProps } history
  | rebind {t : Interpreter} {history : List Expansion} {m : MetaChars} (chars : String) :
    Records t history → t.session.chars.rebind chars = .ok m →
    Records { t with session := { t.session with chars := m } } history

variable {history : List Expansion}

/-- A history belongs to a state that programs lead to. -/
theorem Records.reachable (h : t.Records history) : t.Reachable := by
  induction h with
  | start streams files clock log => exact .start streams files clock log
  | evaluate fuel text _ _ ih => exact .evaluate fuel text ih
  | surroundings streams files clock log args traceAll _ ih =>
    exact .surroundings streams files clock log args traceAll ih
  | setProp name value _ hset ih => exact .setProp name value ih hset
  | resetProps _ ih => exact .resetProps ih
  | rebind chars _ hrebind ih => exact .rebind chars ih hrebind

/-- The tokens are numbered through all programs of a session. -/
theorem Records.numbered (h : t.Records history) : Numbered 0 history t.session.creations := by
  induction h with
  | start streams files clock log => exact .nil 0
  | @evaluate t history fuel text hrecords hfault ih =>
    have hreachable := hrecords.reachable
    have hwell : (t.load text).session.WellFormed := hreachable.wellFormed
    have hplain : t.session.dict.Plain := Session.invariant_plain.reachable hreachable
    refine ih.append (numbered_run fuel (fun u hu => ?_) (left?_of_evaluate hfault))
    exact ⟨(hu.wellFormed hwell).1, Session.invariant_plain.reaches hu hplain⟩
  | surroundings streams files clock log args traceAll _ ih => exact ih
  | setProp name value _ hset ih =>
    obtain ⟨p, -, -, rfl⟩ := Session.eq_of_setProp hset
    exact ih
  | resetProps _ ih => exact ih
  | rebind chars _ _ ih => exact ih

/-- Tokens never repeat. Over a session the expansions that have a creation mark get the tokens with
the numbers one, two, three and so on, each the same at all its marks; those without a mark use none
up. A token is its number in decimal, with zeros in front up to four digits, so that different
expansions get different texts, and a later one a text with a greater value. -/
theorem tokens_in_turn (h : t.Records history) :
    t.session.creations = (history.filter (·.marked)).length ∧
    (∀ i e, (history.filter (·.marked))[i]? = some e →
      ∀ text, e.Receives text ↔ text = token (i + 1)) ∧
    (∀ e ∈ history, e.marked = false → ∀ text, e.Receives text) ∧
    (∀ n, (token n).toList
      = List.replicate (4 - (Nat.toDigits 10 n).length) '0' ++ Nat.toDigits 10 n) ∧
    (∀ (i j : Nat) (e e' : Expansion) (text text' : String),
      (history.filter (·.marked))[i]? = some e → (history.filter (·.marked))[j]? = some e' →
      i < j → e.Receives text → e'.Receives text' →
      text ≠ text' ∧ ∃ n n', Decimal.magnitude? text.toList = some n ∧
        Decimal.magnitude? text'.toList = some n' ∧ n < n') := by
  have hnumbered := h.numbered
  have hreceives : ∀ i e, (history.filter (·.marked))[i]? = some e →
      ∀ text, e.Receives text ↔ text = token (i + 1) := by
    intro i e hi text
    have htoken := hnumbered.receives hi
    rw [Nat.zero_add] at htoken
    have hmarked : e.marked = true := (List.mem_filter.mp (List.mem_of_getElem? hi)).2
    exact ⟨fun htext => htext.eq htoken hmarked, fun heq => heq ▸ htoken⟩
  refine ⟨?_, hreceives, fun e he => hnumbered.of_unmarked he, toList_token, ?_⟩
  · rw [hnumbered.eq_add, Nat.zero_add]
  · intro i j e e' text text' hi hj hlt htext htext'
    obtain rfl := (hreceives i e hi text).mp htext
    obtain rfl := (hreceives j e' hj text').mp htext'
    have hvalue := magnitude?_token (i + 1)
    have hvalue' := magnitude?_token (j + 1)
    refine ⟨fun heq => ?_, i + 1, j + 1, hvalue, hvalue', Nat.succ_lt_succ hlt⟩
    -- The same text would have both values.
    rw [heq, hvalue'] at hvalue
    have hnumbers := Option.some.inj hvalue
    omega

/-- A program that calls a string with two creation marks twice, and then fails. -/
def creating : String := "#<ds;x;k-/->#<cr;x;->#<x>#<x>#<z>"

/-- The tokens that the program uses up. -/
theorem tokens_in_turn_creating : ∃ history, (fresh.evaluate 70 creating).2.Records history ∧
    (fresh.evaluate 70 creating).2.session.creations = 2 ∧
    ∃ e, (history.filter (·.marked))[1]? = some e ∧ ∀ text, e.Receives text ↔ text = token 2 := by
  have hrewritten : (Rewriter.evaluate? 70 fresh.session creating).map
      (fun result => (decide (result.1 = .fault), result.2.creations)) = some (false, 2) := by
    decide +kernel
  obtain ⟨⟨ending, session⟩, hresult, hparts⟩ := Option.map_eq_some_iff.mp hrewritten
  obtain ⟨hends, hcreated⟩ := Prod.mk.inj hparts
  have hevaluate := evaluate_of_rewriting (t := fresh) rfl hresult
  have hcreations : (fresh.evaluate 70 creating).2.session.creations = 2 := by
    rw [hevaluate]
    exact hcreated
  have hfresh : fresh.Records [] := by
    unfold fresh
    exact .start _ _ _ _
  have hrecords := hfresh.evaluate 70 creating (by rw [hevaluate]; exact of_decide_eq_false hends)
  obtain ⟨hmarked, hreceives, -⟩ := tokens_in_turn hrecords
  have hsecond := List.getElem?_eq_getElem (Nat.lt_of_lt_of_eq (by decide : 1 < 2)
    (hcreations.symm.trans hmarked))
  exact ⟨_, hrecords, hcreations, _, hsecond, hreceives 1 _ hsecond⟩

end Interpreter

end TextMacro
