import TextMacro.Proofs.Brackets
import TextMacro.Proofs.DefinitionPrograms
import TextMacro.Proofs.Steps

/-!
# Texts without calls

A text in which no call starts is unquoted and nothing else: it is read item by item, where an item
is an escape with the character behind it, a bracketed text or a single character, and each item
leaves its part of the output (`MetaChars.unquote?`). A sharp is an item like any other character
unless a call starts with it, so that a text is free of calls if none starts at any place where an
item does (`MetaChars.CallFree`). Evaluating such a text gives what it is unquoted to, or fails at a
bracket that is not closed, and leaves the session as it was (`Interpreter.evaluate_callFree`).
-/

namespace TextMacro

namespace MetaChars

variable {m : MetaChars} {c : Char} {rest text : List Char}

/-- What the item that starts with a character stands for, and the text behind the item; nothing if
it is a bracket that is not closed. -/
def item? (m : MetaChars) (c : Char) (rest : List Char) : Option (List Char × List Char) :=
  if c = m.escape then
    match rest with
    | [] => some ([c], [])
    | d :: rest => some ([d], rest)
  else if c = m.opening then m.bracketed? 1 rest
  else some ([c], rest)

/-- The text behind an item is the end of the text behind its first character. -/
theorem suffix_of_item? {copied behind : List Char} (h : m.item? c rest = some (copied, behind)) :
    behind <:+ rest := by
  unfold item? at h
  split at h
  · cases rest with
    | nil =>
      obtain ⟨-, rfl⟩ := Prod.mk.inj (Option.some.inj h)
      exact List.suffix_refl []
    | cons d rest =>
      obtain ⟨-, rfl⟩ := Prod.mk.inj (Option.some.inj h)
      exact List.suffix_cons d rest
  · split at h
    · have hone : m.bracketed? (0 + 1) rest = some (copied, behind) := h
      obtain ⟨rfl, -⟩ := closes_of_bracketed? hone
      exact (List.suffix_cons _ _).trans (List.suffix_append _ _)
    · obtain ⟨-, rfl⟩ := Prod.mk.inj (Option.some.inj h)
      exact List.suffix_refl rest

/-- What a text without calls stands for: escapes outside brackets are dropped in favour of the
characters behind them, and bracketed texts lose their outer brackets. Nothing if a bracket is not
closed. -/
def unquote? (m : MetaChars) : List Char → Option (List Char)
  | [] => some []
  | c :: rest =>
    match _h : m.item? c rest with
    | none => none
    | some (copied, behind) => (m.unquote? behind).map (copied ++ ·)
termination_by text => text.length
decreasing_by exact Nat.lt_succ_of_le (suffix_of_item? _h).length_le

/-- The ends of a text that start with one of its items. -/
def items (m : MetaChars) : List Char → List (List Char)
  | [] => []
  | c :: rest =>
    (c :: rest) :: match _h : m.item? c rest with
      | none => []
      | some (_, behind) => m.items behind
termination_by text => text.length
decreasing_by exact Nat.lt_succ_of_le (suffix_of_item? _h).length_le

/-- No call starts in a text outside brackets where nothing is escaped. -/
def CallFree (m : MetaChars) (text : List Char) : Prop :=
  ∀ start ∈ m.items text, ¬ [m.sharp, m.opening] <+: start ∧
    ¬ [m.sharp, m.sharp, m.opening] <+: start

/-- Whether a text is free of calls can be computed. -/
instance (m : MetaChars) (text : List Char) : Decidable (m.CallFree text) :=
  inferInstanceAs (Decidable (∀ start ∈ m.items text, _))

/-- The first item of a text is unquoted before the others. -/
theorem unquote?_cons (m : MetaChars) (c : Char) (rest : List Char) :
    m.unquote? (c :: rest) = (m.item? c rest).bind
      fun item => (m.unquote? item.2).map (item.1 ++ ·) := by
  rw [unquote?]
  split
  · rename_i hitem
    rw [hitem]
    rfl
  · rename_i copied behind hitem
    rw [hitem]
    rfl

/-- The first item of a text begins where the text does. -/
theorem items_cons (m : MetaChars) (c : Char) (rest : List Char) :
    m.items (c :: rest)
      = (c :: rest) :: ((m.item? c rest).map fun item => m.items item.2).getD [] := by
  rw [items]
  split
  · rename_i hitem
    rw [hitem]
    rfl
  · rename_i copied behind hitem
    rw [hitem]
    rfl

/-- Behind an item no call starts either. -/
theorem CallFree.behind {copied behind : List Char} (h : m.CallFree (c :: rest))
    (hitem : m.item? c rest = some (copied, behind)) : m.CallFree behind := by
  intro start hstart
  refine h start ?_
  rw [items_cons, hitem]
  exact List.mem_cons_of_mem _ hstart

/-- A sharp that an item starts with does not start a call. -/
theorem CallFree.callStart?_eq_none (h : m.CallFree (m.sharp :: rest)) :
    m.callStart? rest = none := by
  obtain ⟨hactive, hpassive⟩ := h (m.sharp :: rest) (by rw [items_cons]; exact List.mem_cons_self)
  -- A bracket right behind the sharp is an active call, one behind two sharps a passive one.
  unfold callStart?
  split
  · rfl
  · rename_i d behind
    rw [if_neg (by rintro rfl; exact hactive (List.prefix_append _ behind))]
    split
    · rename_i hsharp
      subst hsharp
      split
      · rfl
      · rename_i d behind
        rw [if_neg (by rintro rfl; exact hpassive (List.prefix_append _ behind))]
    · rfl

/-! ## Texts that stand for themselves, and quoted texts -/

/-- An item that starts with neither an opening bracket nor an escape is one character. -/
theorem item?_of_ne (hopening : c ≠ m.opening) (hescape : c ≠ m.escape) (rest : List Char) :
    m.item? c rest = some ([c], rest) := by
  unfold item?
  rw [if_neg hescape, if_neg hopening]

/-- A text without opening brackets and escapes is free of calls and stands for itself. -/
theorem unquote?_of_not_mem (hopening : m.opening ∉ text) (hescape : m.escape ∉ text) :
    m.CallFree text ∧ m.unquote? text = some text := by
  induction text with
  | nil => exact ⟨by simp [CallFree, items], by simp [unquote?]⟩
  | cons c rest ih =>
    rw [List.mem_cons, not_or] at hopening hescape
    obtain ⟨hfree, hunquote⟩ := ih hopening.2 hescape.2
    have hitem := item?_of_ne (Ne.symm hopening.1) (Ne.symm hescape.1) rest
    constructor
    · intro start hstart
      rw [items_cons, hitem] at hstart
      rcases List.mem_cons.mp hstart with rfl | hbehind
      · -- A call would have an opening bracket.
        have hno : ∀ front, m.opening ∈ front → ¬ front <+: c :: rest := by
          intro front hfront hstands
          exact List.mem_cons.not.mpr (not_or.mpr hopening) (hstands.subset hfront)
        exact ⟨hno _ (by simp), hno _ (by simp)⟩
      · exact hfree start hbehind
    · rw [unquote?_cons, hitem, Option.bind_some]
      dsimp only
      rw [hunquote]
      rfl

/-- A text with an escape before every character is free of calls and stands for that text. -/
theorem unquote?_quoted (hm : m.Distinct) (text : String) :
    m.CallFree (m.quoted text) ∧ m.unquote? (m.quoted text) = some text.toList := by
  unfold quoted
  induction text.toList with
  | nil => exact ⟨by simp [CallFree, items], by simp [unquote?]⟩
  | cons c rest ih =>
    obtain ⟨hfree, hunquote⟩ := ih
    have hitem : m.item? m.escape (c :: rest.flatMap fun c => [m.escape, c])
        = some ([c], rest.flatMap fun c => [m.escape, c]) := by
      simp [item?]
    rw [List.flatMap_cons, List.cons_append, List.cons_append, List.nil_append]
    constructor
    · intro start hstart
      rw [items_cons, hitem] at hstart
      rcases List.mem_cons.mp hstart with rfl | hbehind
      · -- A call would start with a sharp, and this is an escape.
        simp [Distinct] at hm
        simp [hm]
      · exact hfree start hbehind
    · rw [unquote?_cons, hitem, Option.bind_some]
      dsimp only
      rw [hunquote]
      rfl

end MetaChars

/-! ## Rewriting -/

namespace Rewriter

variable {s : Session} {c : Char} {rest text : List Char}

/-- Outside calls one step handles one item. -/
theorem step_item (output : List Char) (hm : s.chars.Distinct) (hhalt : s.halt = none)
    (hfree : s.chars.CallFree (c :: rest)) :
    step ⟨s, output, c :: rest, []⟩ = match s.chars.item? c rest with
      | some (copied, behind) => .next ⟨s, output ++ copied, behind, []⟩
      | none => .raised .unbalancedBracket ⟨s, output ++ rest, [], []⟩ := by
  rw [step_cons (by simp [hhalt]) rfl]
  show scanChar _ s.chars c rest = _
  unfold scanChar MetaChars.item?
  by_cases hescape : c = s.chars.escape
  · subst hescape
    rw [MetaChars.role_escape, if_pos rfl]
    cases rest with
    | nil => rfl
    | cons d rest => rfl
  rw [if_neg hescape]
  by_cases hopening : c = s.chars.opening
  · subst hopening
    rw [hm.role_opening, if_pos rfl]
    dsimp only
    unfold copyBracketed
    dsimp only
    cases s.chars.bracketed? 1 rest with
    | none => rfl
    | some found => rfl
  rw [if_neg hopening]
  by_cases hsharp : c = s.chars.sharp
  · -- The sharp is moved, since no call starts with it.
    subst hsharp
    rw [hm.role_sharp]
    dsimp only
    unfold sharp
    dsimp only
    rw [hfree.callStart?_eq_none]
    rfl
  · -- Separators and closing brackets have no meaning here.
    obtain ⟨hnotEscape, hnotOpening, hnotSharp⟩ := MetaChars.eq_of_role (m := s.chars) (c := c)
    cases hrole : s.chars.role c with
    | escape => exact absurd (hnotEscape hrole) hescape
    | opening => exact absurd (hnotOpening hrole) hopening
    | sharp => exact absurd (hnotSharp hrole) hsharp
    | semi => rfl
    | closing => rfl
    | plain => rfl

end Rewriter

/-! ## Steps outside calls -/

/-- The outcome of a step with other calls on the stack. -/
def Step.withCalls (calls : Stack Frame) : Step → Step
  | .next u => .next { u with calls }
  | .finished u => .finished { u with calls }
  | .raised e u => .raised e { u with calls }
  | .fault => .fault

namespace Interpreter

variable {t : Interpreter} {output text : List Char}

/-- Text is moved whatever calls are in progress. -/
theorem move_withCalls (t : Interpreter) (calls : Stack Frame) (movement : Zones → Progress) :
    { t with calls }.move movement = (t.move movement).withCalls calls := by
  rw [move_eq, move_eq]
  cases movement t.zones with
  | moved zones => rfl
  | failed e zones => rfl
  | fault => rfl

/-- A unit is scanned outside all argument lists without looking at the stack, unless a call starts
there. -/
theorem scanUnit_withCalls {session : Session} {zones : Zones} {others : Stack Frame}
    {u : TextUnit} (hhalt : session.halt = none) (hpeek : zones.buffer.peek = .ok (some u))
    (hahead : callAhead? ⟨session, zones, others, []⟩ = none) (calls : Stack Frame) :
    scanUnit ⟨session, zones, calls, []⟩ session.chars session.chars u
      = (scanUnit ⟨session, zones, others, []⟩ session.chars session.chars u).withCalls calls := by
  have htransfer := move_withCalls ⟨session, zones, others, []⟩ calls (·.transfer u.width)
  unfold scanUnit
  cases u with
  | char c =>
    dsimp only
    cases hrole : session.chars.role c with
    | escape => exact move_withCalls ⟨session, zones, others, []⟩ calls _
    | opening => exact move_withCalls ⟨session, zones, others, []⟩ calls _
    | semi => exact htransfer
    | closing => exact htransfer
    | plain => exact htransfer
    | sharp =>
      cases hstart : zones.callStart session.chars with
      | error e => rfl
      | ok start =>
        cases start with
        | none => exact htransfer
        | some active =>
          have hsome : callAhead? ⟨session, zones, others, []⟩ = some active :=
            callAhead?_eq_some_iff.mpr ⟨hhalt, c, hpeek, hrole, hstart⟩
          simp [hahead] at hsome
  | _ => exact htransfer

/-- Outside all argument lists the stack is neither read nor changed unless a call starts. -/
theorem step_withCalls (hlists : t.lists = []) (hahead : t.callAhead? = none)
    (calls : Stack Frame) : { t with calls }.step = t.step.withCalls calls := by
  obtain ⟨session, zones, others, lists⟩ := t
  obtain rfl : lists = [] := hlists
  cases hhalt : session.halt with
  | some status =>
    unfold step
    dsimp only
    rw [hhalt]
    rfl
  | none =>
    cases hpeek : zones.buffer.peek with
    | error e =>
      unfold step
      dsimp only
      rw [hhalt, hpeek]
      rfl
    | ok next =>
      cases next with
      | none =>
        unfold step
        dsimp only
        rw [hhalt, hpeek]
        rfl
      | some u =>
        rw [step_eq_scanUnit hhalt hpeek, step_eq_scanUnit hhalt hpeek]
        exact scanUnit_withCalls hhalt hpeek hahead calls

/-- Outside calls one step handles one item, whatever calls are on the stack. -/
theorem step_item {c : Char} {rest : List Char} (hlists : t.lists = [])
    (hz : t.zones.Holds output (c :: rest)) (hm : t.session.chars.Distinct)
    (hhalt : t.session.halt = none) (hfree : t.session.chars.CallFree (c :: rest)) :
    match t.session.chars.item? c rest with
    | some (copied, behind) =>
      ∃ zones, t.step = .next { t with zones } ∧ zones.Holds (output ++ copied) behind
    | none =>
      ∃ zones, t.step = .raised .unbalancedBracket { t with zones } ∧
        zones.Holds (output ++ rest) [] := by
  have hrep : Represents { t with calls := .empty } ⟨t.session, output, c :: rest, []⟩ :=
    ⟨rfl, hz, rfl, hlists⟩
  have hahead : t.callAhead? = none := by
    refine Option.eq_none_iff_forall_ne_some.mpr fun active hahead => ?_
    obtain ⟨-, c', hpeek, hrole, hstart⟩ := callAhead?_eq_some_iff.mp hahead
    obtain rfl : c = c' := by simpa using hz.peek.symm.trans hpeek
    have hrecognising : t.recognising = t.session.chars := by
      rw [recognising, hlists]
    rw [hrecognising] at hrole
    obtain rfl : c = t.session.chars.sharp := MetaChars.eq_of_role.2.2 hrole
    have hz' : t.zones.Holds output ([t.session.chars.sharp] ++ rest) := hz
    rw [hz'.callStart_eq (by simp), hfree.callStart?_eq_none] at hstart
    simp at hstart
  have hmirrors := hrep.step (fun call hcall => by simp at hcall)
  have hstep := step_withCalls (t := { t with calls := .empty }) hlists hahead t.calls
  rw [Rewriter.step_item output hm hhalt hfree] at hmirrors
  cases hitem : t.session.chars.item? c rest with
  | some item =>
    rw [hitem] at hmirrors
    obtain ⟨⟨session, zones, calls, lists⟩, hnext, ⟨hsession, hzones, -, hnone⟩⟩ := hmirrors
    obtain rfl : session = t.session := hsession
    obtain rfl : lists = [] := hnone
    refine ⟨zones, hstep.trans ?_, hzones⟩
    rw [hnext, ← hlists]
    rfl
  | none =>
    rw [hitem] at hmirrors
    obtain ⟨⟨session, zones, calls, lists⟩, hraised, ⟨hsession, hzones, -, hnone⟩⟩ := hmirrors
    obtain rfl : session = t.session := hsession
    obtain rfl : lists = [] := hnone
    refine ⟨zones, hstep.trans ?_, hzones⟩
    rw [hraised, ← hlists]
    rfl

/-! ## Whole texts -/

/-- Item by item a text without calls is scanned to what it stands for, up to a bracket that is not
closed. -/
theorem run_callFree {fuel : Nat} {chars : MetaChars} (hchars : t.session.chars = chars)
    (hlists : t.lists = []) (hz : t.zones.Holds output text) (hm : chars.Distinct)
    (hhalt : t.session.halt = none) (hfree : chars.CallFree text) (hfuel : text.length < fuel) :
    match chars.unquote? text with
    | some unquoted =>
      ∃ zones, run fuel t = .finished { t with zones } ∧ zones.Holds (output ++ unquoted) []
    | none =>
      ∃ zones done, run fuel t = .raised .unbalancedBracket { t with zones } ∧
        zones.Holds done [] := by
  obtain ⟨fuel, rfl⟩ : ∃ less, fuel = less + 1 := ⟨fuel - 1, by omega⟩
  fun_induction chars.unquote? text generalizing t output fuel with
  | case1 =>
    have hstep : t.step = .finished t := by
      unfold step
      rw [hlists, hhalt, hz.peek]
      rfl
    refine ⟨t.zones, ?_, ?_⟩
    · rw [run, hstep]
    · rw [List.append_nil]
      exact hz
  | case2 c rest hitem =>
    subst hchars
    have hstep := step_item hlists hz hm hhalt hfree
    rw [hitem] at hstep
    obtain ⟨zones, hstep, hzones⟩ := hstep
    refine ⟨zones, _, ?_, hzones⟩
    rw [run, hstep]
  | case3 c rest copied behind hitem ih =>
    subst hchars
    have hstep := step_item hlists hz hm hhalt hfree
    rw [hitem] at hstep
    obtain ⟨zones, hstep, hzones⟩ := hstep
    have hshorter := (MetaChars.suffix_of_item? hitem).length_le
    rw [List.length_cons] at hfuel
    obtain ⟨fuel, rfl⟩ : ∃ less, fuel = less + 1 := ⟨fuel - 1, by omega⟩
    have hrest := ih (t := { t with zones }) rfl hlists hzones hhalt (hfree.behind hitem) fuel
      (by omega)
    rw [run, hstep]
    cases hunquote : t.session.chars.unquote? behind with
    | none =>
      rw [hunquote] at hrest
      exact hrest
    | some unquoted =>
      rw [hunquote] at hrest
      obtain ⟨last, hrun, hlast⟩ := hrest
      exact ⟨last, hrun, by rwa [← List.append_assoc]⟩

/-- Evaluating a text without calls leaves the session and the calls as they are. -/
theorem evaluate_of_callFree (text : String) (fuel : Nat) (hm : t.session.chars.Distinct)
    (hfree : t.session.chars.CallFree text.toList) (hfuel : text.length < fuel) :
    match t.session.chars.unquote? text.toList with
    | some unquoted => t.evaluate fuel text = (.ok ⟨String.ofList unquoted, none⟩, t.clear)
    | none => ∃ failure, failure.error = .unbalancedBracket ∧
        t.evaluate fuel text = (.error failure, t.clear) := by
  have hchars : (t.load text).session.chars = t.session.chars := rfl
  have hlength : text.toList.length < fuel := by rwa [String.length_toList]
  have hrun := run_callFree hchars rfl (Zones.holds_ofString text) hm rfl hfree hlength
  cases hunquote : t.session.chars.unquote? text.toList with
  | some unquoted =>
    rw [hunquote] at hrun
    obtain ⟨zones, hrun, hzones⟩ := hrun
    rw [evaluate_eq, hrun]
    dsimp only
    rw [doneText_of_holds hzones]
    rfl
  | none =>
    rw [hunquote] at hrun
    obtain ⟨zones, done, hrun, hzones⟩ := hrun
    let u : Interpreter := { t.load text with zones }
    obtain ⟨failure, herror, hfailure⟩ := u.exists_failure_of_holds hzones .unbalancedBracket
    -- No call has been put on the stack, so that there is none to take off.
    have hunwind : u.unwind t.calls.depth = u := u.unwind_depth
    refine ⟨failure, herror, ?_⟩
    rw [evaluate_eq, hrun]
    dsimp only
    rw [hfailure, hunwind]
    rfl

/-- A text without calls is just unquoted, from every state with different meta characters: it is
evaluated to what it stands for, or fails if a bracket is not closed, and leaves the session as it
was. A text without opening brackets and escapes stands for itself, and a text with an escape before
every character for that text. -/
theorem evaluate_callFree (t : Interpreter) (hm : t.session.chars.Distinct) :
    (∀ (text : String) (fuel : Nat), t.session.chars.CallFree text.toList → text.length < fuel →
      match t.session.chars.unquote? text.toList with
      | some unquoted => t.evaluate fuel text = (.ok ⟨String.ofList unquoted, none⟩, t.clear)
      | none => ∃ failure, failure.error = .unbalancedBracket ∧
          t.evaluate fuel text = (.error failure, t.clear)) ∧
    (∀ (text : String) (fuel : Nat), t.session.chars.opening ∉ text.toList →
      t.session.chars.escape ∉ text.toList → text.length < fuel →
        t.evaluate fuel text = (.ok ⟨text, none⟩, t.clear)) ∧
    (∀ (text : String) (fuel : Nat), 2 * text.length < fuel →
      t.evaluate fuel (String.ofList (t.session.chars.quoted text))
        = (.ok ⟨text, none⟩, t.clear)) := by
  refine ⟨fun text fuel => evaluate_of_callFree text fuel hm, ?_, ?_⟩
  · intro text fuel hopening hescape hfuel
    obtain ⟨hfree, hunquote⟩ := MetaChars.unquote?_of_not_mem hopening hescape
    have hevaluate := evaluate_of_callFree text fuel hm hfree hfuel
    rw [hunquote] at hevaluate
    simpa using hevaluate
  · intro text fuel hfuel
    obtain ⟨hfree, hunquote⟩ := MetaChars.unquote?_quoted hm text
    have hlength : (t.session.chars.quoted text).length = 2 * text.length := by
      simp [MetaChars.quoted, String.length_toList, Nat.mul_comm]
    have hevaluate := evaluate_of_callFree (String.ofList (t.session.chars.quoted text)) fuel hm
      (by rwa [String.toList_ofList]) (by rwa [String.length_ofList, hlength])
    rw [String.toList_ofList, hunquote] at hevaluate
    simpa using hevaluate

/-- Sharps in front of an escape, of a sharp and at the end of the text, an escaped sharp in front
of a bracket, and brackets in brackets, among meta characters of several bytes. -/
theorem evaluate_callFree_foreign :
    foreign.evaluate 15 "→→é¦→«→«¦»»»·→" = (.ok ⟨"→→é→→«¦»»·→", none⟩, foreign.clear) ∧
    ∃ failure, failure.error = .unbalancedBracket ∧
      foreign.evaluate 5 "→¦→«" = (.error failure, foreign.clear) := by
  have hm : foreign.session.chars.Distinct := reachable_foreign.wellFormed.2
  have hread : foreign.session.chars.CallFree "→→é¦→«→«¦»»»·→".toList ∧
      foreign.session.chars.unquote? "→→é¦→«→«¦»»»·→".toList = some "→→é→→«¦»»·→".toList ∧
      foreign.session.chars.CallFree "→¦→«".toList ∧
      foreign.session.chars.unquote? "→¦→«".toList = none := by
    decide +kernel
  obtain ⟨hfree, hunquote, hfree', hunquote'⟩ := hread
  constructor
  · have hevaluate := (evaluate_callFree foreign hm).1 _ 15 hfree (by decide)
    rw [hunquote] at hevaluate
    simpa using hevaluate
  · have hevaluate := (evaluate_callFree foreign hm).1 _ 5 hfree' (by decide)
    rw [hunquote'] at hevaluate
    exact hevaluate

end Interpreter

end TextMacro
