import TextMacro.Proofs.Failures
import TextMacro.Proofs.Runs

/-!
# What a step does

A step begins the call that starts at the cursor (`callAhead?`), carries out the call whose last
argument ends there (`callDue?`), or leaves the session as it is. `GoesOn` says this of the steps
that go on and `Fails` of those that raise an error, together with what becomes of the stack, of the
argument lists and of the text ahead. The steps are walked through once, for `stepped_step`; what is
proved of the steps elsewhere is read off these two. The errors about the stack and the budget come
from beginning a call only, which needs room in both, or from a stack that is empty inside a call
(`Fails.missed`). A step that ends a program finds itself outside all argument lists.
-/

namespace TextMacro

/-! ## Bytes still to be scanned -/

namespace Zones

variable {z z' : Zones} {n : Nat} {m : MetaChars}

/-- The number of bytes still to be scanned. -/
def ahead (z : Zones) : Nat := z.buffer.content.size - z.buffer.index

/-- Skipping bytes adds none to those ahead. -/
theorem ahead_skip_le (z : Zones) (n : Nat) : (z.skip n).ahead ≤ z.ahead := by
  obtain ⟨⟨content, index⟩, passive⟩ := z
  simp only [ahead, skip, Buffer.advance]
  omega

/-- Skipping some of the bytes ahead leaves fewer. -/
theorem ahead_skip_lt (hn : 0 < n) (h : z.buffer.index < z.buffer.content.size) :
    (z.skip n).ahead < z.ahead := by
  obtain ⟨⟨content, index⟩, passive⟩ := z
  simp only [ahead, skip, Buffer.advance] at h ⊢
  omega

/-- Passing bytes on adds none to those ahead. -/
theorem ahead_transfer?_le (h : z.transfer? n = some z') : z'.ahead ≤ z.ahead := by
  obtain ⟨hsize, hindex⟩ := transfer?_bounds h
  unfold ahead
  omega

/-- Passing some of the bytes ahead on leaves fewer. -/
theorem ahead_transfer?_lt (h : z.transfer? n = some z') (hn : 0 < n)
    (hlt : z.buffer.index < z.buffer.content.size) : z'.ahead < z.ahead :=
  size_sub_lt_of_transfer? h hn hlt

/-- A movement of one or more bytes. -/
theorem ahead_transfer_lt (h : z.transfer n = .moved z') (hn : 0 < n)
    (hlt : z.buffer.index < z.buffer.content.size) : z'.ahead < z.ahead := by
  unfold transfer at h
  cases htransfer : z.transfer? n with
  | none =>
    rw [htransfer] at h
    simp at h
  | some moved =>
    rw [htransfer] at h
    obtain rfl : moved = z' := by simpa using h
    exact ahead_transfer?_lt htransfer hn hlt

/-- An escape uses up text also where it is the last character. -/
theorem ahead_copyEscaped_lt (h : z.copyEscaped m = .moved z')
    (hlt : z.buffer.index < z.buffer.content.size) : z'.ahead < z.ahead := by
  have hpos := m.escape.utf8Size_pos
  unfold copyEscaped at h
  dsimp only at h
  split at h
  · simp at h
  · exact ahead_transfer_lt h hpos hlt
  · rename_i next _
    unfold transfer at h
    split at h
    · simp at h
    · rename_i moved htransfer
      obtain rfl : moved = z' := by simpa using h
      exact Nat.lt_of_le_of_lt (ahead_transfer?_le htransfer) (ahead_skip_lt hpos hlt)

/-- What is copied of a bracketed text is used up. -/
theorem ahead_copyBracketedFrom_le {depth : Nat} (h : copyBracketedFrom m z depth = .moved z') :
    z'.ahead ≤ z.ahead := by
  fun_induction copyBracketedFrom m z depth with
  | case1 z depth e hpeek => simp at h
  | case2 z depth hpeek => simp at h
  | case3 z depth u hpeek after hafter =>
    obtain rfl : z.skip u.width = z' := by simpa using h
    exact ahead_skip_le z u.width
  | case4 z depth u hpeek after hafter e halong => simp at h
  | case5 z depth u hpeek after hafter along halong htransfer => simp at h
  | case6 z depth u hpeek after hafter along halong moved htransfer ih =>
    exact Nat.le_trans (ih h) (ahead_transfer?_le htransfer)

/-- A bracketed text that is copied is behind afterwards. -/
theorem ahead_copyBracketed_lt (h : z.copyBracketed m = .moved z')
    (hlt : z.buffer.index < z.buffer.content.size) : z'.ahead < z.ahead :=
  Nat.lt_of_le_of_lt (ahead_copyBracketedFrom_le h) (ahead_skip_lt m.opening.utf8Size_pos hlt)

/-! ## Movements fail for reasons of the text -/

variable {e : Error}

/-- Passing bytes on fails for none of the scanner's own reasons. -/
theorem ofScanner_eq_false_of_transfer (h : z.transfer n = .failed e z') :
    e.ofScanner = false := by
  unfold transfer at h
  split at h
  · simp at h
  · simp at h

/-- Copying an escaped character fails for none of the scanner's own reasons. -/
theorem ofScanner_eq_false_of_copyEscaped (h : z.copyEscaped m = .failed e z') :
    e.ofScanner = false := by
  unfold copyEscaped at h
  dsimp only at h
  split at h
  · rename_i e' hunit
    obtain ⟨rfl, -⟩ : e' = e ∧ z = z' := by simpa using h
    exact TextUnit.spared_decodeAt _ _ e' hunit
  · exact ofScanner_eq_false_of_transfer h
  · exact ofScanner_eq_false_of_transfer h

/-- Finding what an escape takes along fails for the bytes only. -/
theorem spared_takenAlong (z : Zones) (m : MetaChars) (u : TextUnit) :
    Spared (z.takenAlong m u) := by
  unfold takenAlong
  split
  · split
    · rename_i e hunit
      exact .error (TextUnit.spared_decodeAt _ _ e hunit)
    · exact .ok _
    · exact .ok _
  · exact .ok _

/-- Copying the rest of a bracketed text fails for none of the scanner's own reasons. -/
theorem ofScanner_eq_false_of_copyBracketedFrom {depth : Nat}
    (h : copyBracketedFrom m z depth = .failed e z') : e.ofScanner = false := by
  fun_induction copyBracketedFrom m z depth with
  | case1 z depth e' hpeek =>
    obtain ⟨rfl, -⟩ : e' = e ∧ z = z' := by simpa using h
    exact TextUnit.spared_decodeAt _ _ e' hpeek
  | case2 z depth hpeek =>
    obtain ⟨rfl, -⟩ : Error.unbalancedBracket = e ∧ z = z' := by simpa using h
    rfl
  | case3 z depth u hpeek after hafter => simp at h
  | case4 z depth u hpeek after hafter e' halong =>
    obtain ⟨rfl, -⟩ : e' = e ∧ z = z' := by simpa using h
    exact z.spared_takenAlong m u e' halong
  | case5 z depth u hpeek after hafter along halong htransfer => simp at h
  | case6 z depth u hpeek after hafter along halong moved htransfer ih => exact ih h

/-- Finding the start of a call fails for the bytes only. -/
theorem spared_callStart (z : Zones) (m : MetaChars) : Spared (z.callStart m) := by
  have hunit : ∀ pos e, z.buffer.unitAt pos = .error e → e.ofScanner = false :=
    fun pos => TextUnit.spared_decodeAt z.buffer.content pos
  intro e he
  unfold callStart at he
  cases hfirst : z.buffer.unitAt (z.buffer.index + m.sharp.utf8Size) with
  | error e' =>
    simp only [hfirst, bind, Except.bind] at he
    obtain rfl : e' = e := by simpa using he
    exact hunit _ e' hfirst
  | ok first =>
    simp only [hfirst, bind, Except.bind, pure, Except.pure] at he
    split at he
    · rename_i c
      split at he
      · simp at he
      · split at he
        · cases hsecond : z.buffer.unitAt (z.buffer.index + m.sharp.utf8Size + c.utf8Size) with
          | error e' =>
            rw [hsecond] at he
            obtain rfl : e' = e := by simpa using he
            exact hunit _ e' hsecond
          | ok second =>
            rw [hsecond] at he
            simp at he
        · simp at he
    · simp at he

end Zones

/-- The state of a session behind a step. With a program that has ended the interpreter is cleared,
and if the program has failed, its calls are taken off the stack down to some depth. -/
def Step.left? (depth : Nat) : Step → Option Interpreter
  | .next u => some u
  | .finished u => some u.clear
  | .raised _ u => some (u.unwind depth).clear
  | .fault => none

namespace Interpreter

variable {t : Interpreter}

/-! ## Calls that start and calls that end -/

/-- The innermost call with the argument that is collected for it as its last, and the calls around
it. -/
def completed? (t : Interpreter) : Option (Frame × List Frame) :=
  match t.lists, t.calls.items with
  | list :: _, frame :: frames =>
    match t.zones.doneFrom? list.start with
    | none => none
    | some bytes =>
      match TextUnit.toText bytes list.start with
      | .error _ => none
      | .ok text => some (frame.push text, frames)
  | _, _ => none

/-- The innermost call with the argument that ends at the cursor. -/
theorem completed?_eq {t : Interpreter} {list : ArgumentList} {outer : List ArgumentList}
    {frame : Frame} {frames : List Frame} {bytes : ByteArray} {text : String}
    (hlists : t.lists = list :: outer) (hcalls : t.calls.items = frame :: frames)
    (hdone : t.zones.doneFrom? list.start = some bytes)
    (htext : TextUnit.toText bytes list.start = .ok text) :
    t.completed? = some (frame.push text, frames) := by
  unfold completed?
  rw [hlists, hcalls]
  dsimp only
  rw [hdone]
  dsimp only
  rw [htext]

/-- Whether a call starts at the cursor, and if so whether it is active. -/
def callAhead? (t : Interpreter) : Option Bool :=
  match t.session.halt, t.zones.buffer.peek with
  | none, .ok (some (.char c)) =>
    match t.recognising.role c, t.zones.callStart t.session.chars with
    | .sharp, .ok start => start
    | _, _ => none
  | _, _ => none

/-- The innermost call with all its arguments, if the character under the cursor closes it and it
has not got too many of them. -/
def callDue? (t : Interpreter) : Option Frame :=
  match t.session.halt, t.zones.buffer.peek with
  | none, .ok (some (.char c)) =>
    match t.recognising.role c, t.completed? with
    | .closing, some (f, _) => if f.args.length ≤ maxEntries then some f else none
    | _, _ => none
  | _, _ => none

/-- No call starts or ends at the cursor. -/
structure Quiet (t : Interpreter) : Prop where
  ahead : t.callAhead? = none
  due : t.callDue? = none

/-- What a step that goes on does. -/
inductive GoesOn (t u : Interpreter) : Prop
  /-- Text is moved or dropped. -/
  | passed (hquiet : t.Quiet) (hsession : u.session = t.session) (hcalls : u.calls = t.calls)
    (hlists : u.lists = t.lists) (hahead : u.zones.ahead < t.zones.ahead)
  /-- An argument ends, and is added to the frame of the innermost call. -/
  | collected {frame : Frame} {frames : List Frame} {text : String} (hquiet : t.Quiet)
    (hsession : u.session = t.session) (hcalls : t.calls.items = frame :: frames)
    (hadded : u.calls.items = frame.push text :: frames) (hinside : t.lists ≠ [])
    (hlists : u.lists = t.lists) (hahead : u.zones.ahead < t.zones.ahead)
  /-- A call is given up since the program has asked to stop. -/
  | givenUp {frame : Frame} {list : ArgumentList} (hquiet : t.Quiet)
    (hhalt : t.session.halt ≠ none) (hsession : u.session = t.session)
    (hcalls : t.calls.items = frame :: u.calls.items) (hlists : t.lists = list :: u.lists)
  /-- A call is counted and put on the stack. -/
  | begun {active : Bool} {list : ArgumentList} (hahead : t.callAhead? = some active)
    (hbudget : t.session.execs < t.session.props.execCount)
    (hroom : t.calls.items.length < t.session.props.stackSize)
    (hsession : u.session = { t.session with execs := t.session.execs + 1 }.report
      (.callStarted (t.calls.items.length + 1) active))
    (hcalls : u.calls.items = .start active :: t.calls.items) (hlists : u.lists = list :: t.lists)
    (hchars : list.chars = t.session.chars)
  /-- A call is carried out and taken off the stack. -/
  | carriedOut {f : Frame} {depth : Nat} {result : Disposition × String} {frame : Frame}
    {list : ArgumentList} (hahead : t.callAhead? = none) (hdue : t.callDue? = some f)
    (hinvoke : Action.invoke depth f t.session = .ok result u.session)
    (hcalls : t.calls.items = frame :: u.calls.items) (hlists : t.lists = list :: u.lists)

/-- What a step that raises an error does. -/
inductive Fails (t : Interpreter) (e : Error) (u : Interpreter) : Prop
  /-- The text is at fault. -/
  | inText (hquiet : t.Quiet) (he : e.ofScanner = false) (hsession : u.session = t.session)
    (hcalls : u.calls = t.calls) (hlists : u.lists = t.lists)
  /-- A call starts when the budget is used up, and nothing is touched. -/
  | spent {active : Bool} (hahead : t.callAhead? = some active)
    (hspent : t.session.props.execCount ≤ t.session.execs)
    (he : e = .execsExhausted t.session.props.execCount) (hsame : u = t)
  /-- A call starts on a stack that is full, and is only counted. -/
  | tooDeep {active : Bool} (hahead : t.callAhead? = some active)
    (hbudget : t.session.execs < t.session.props.execCount)
    (hfull : t.session.props.stackSize ≤ t.calls.items.length)
    (he : e = .stackOverflow t.session.props.stackSize)
    (hsession : u.session = { t.session with execs := t.session.execs + 1 })
    (hcalls : u.calls = t.calls) (hlists : u.lists = t.lists)
  /-- The frame of a call is missed on the stack. -/
  | missed (hquiet : t.Quiet) (hinside : t.lists ≠ []) (hmissed : t.calls.items = [])
    (he : e = .stackUnderflow) (hsession : u.session = t.session) (hcalls : u.calls = t.calls)
    (hlists : u.lists = t.lists)
  /-- A call is carried out and fails. Its last argument has been added to its frame. -/
  | inCall {f frame : Frame} {depth : Nat} {frames : List Frame} (hahead : t.callAhead? = none)
    (hdue : t.callDue? = some f) (hinvoke : Action.invoke depth f t.session = .error e u.session)
    (hcalls : t.calls.items = frame :: frames) (hadded : u.calls.items = f :: frames)
    (hinside : t.lists ≠ []) (hlists : u.lists = t.lists)

/-- What a step does, by its outcome. -/
def Stepped (t : Interpreter) : Step → Prop
  | .next u => t.GoesOn u
  | .finished u => t.Quiet ∧ t.lists = [] ∧ u = t
  | .raised e u => t.Fails e u
  | .fault => True

/-- A call starts at a sharp that is followed by an opening bracket, or by another sharp and then
the bracket. -/
theorem callAhead?_eq_some_iff {active : Bool} : t.callAhead? = some active ↔
    t.session.halt = none ∧ ∃ c, t.zones.buffer.peek = .ok (some (.char c)) ∧
      t.recognising.role c = .sharp ∧ t.zones.callStart t.session.chars = .ok (some active) := by
  unfold callAhead?
  constructor
  · intro h
    split at h
    · rename_i c hhalt hpeek
      split at h
      · rename_i start hrole hstart
        exact ⟨hhalt, c, hpeek, hrole, h ▸ hstart⟩
      · simp at h
    · simp at h
  · rintro ⟨hhalt, c, hpeek, hrole, hstart⟩
    rw [hhalt, hpeek]
    dsimp only
    rw [hrole, hstart]

/-- A call is due at its closing bracket. -/
theorem callDue?_eq_some_iff {f : Frame} : t.callDue? = some f ↔
    t.session.halt = none ∧ ∃ c outer, t.zones.buffer.peek = .ok (some (.char c)) ∧
      t.recognising.role c = .closing ∧ t.completed? = some (f, outer) ∧
      f.args.length ≤ maxEntries := by
  unfold callDue?
  constructor
  · intro h
    split at h
    · rename_i c hhalt hpeek
      split at h
      · rename_i f' outer hrole hcompleted
        split at h
        · rename_i hfew
          obtain rfl : f' = f := by simpa using h
          exact ⟨hhalt, c, outer, hpeek, hrole, hcompleted, hfew⟩
        · simp at h
      · simp at h
    · simp at h
  · rintro ⟨hhalt, c, outer, hpeek, hrole, hcompleted, hfew⟩
    rw [hhalt, hpeek]
    dsimp only
    rw [hrole, hcompleted]
    dsimp only
    rw [if_pos hfew]

/-- Nothing starts or ends at a character if no call starts there and none is completed. -/
theorem quiet_of_char {c : Char} (hpeek : t.zones.buffer.peek = .ok (some (.char c)))
    (hsharp : ∀ active, t.recognising.role c = .sharp →
      t.zones.callStart t.session.chars ≠ .ok (some active))
    (hclosing : ∀ f outer, t.recognising.role c = .closing → t.completed? = some (f, outer) →
      maxEntries < f.args.length) : t.Quiet := by
  constructor
  · refine Option.eq_none_iff_forall_ne_some.mpr fun active hahead => ?_
    obtain ⟨-, c', hpeek', hrole, hstart⟩ := callAhead?_eq_some_iff.mp hahead
    obtain rfl : c = c' := by simpa using hpeek.symm.trans hpeek'
    exact hsharp active hrole hstart
  · refine Option.eq_none_iff_forall_ne_some.mpr fun f hdue => ?_
    obtain ⟨-, c', outer, hpeek', hrole, hcompleted, hfew⟩ := callDue?_eq_some_iff.mp hdue
    obtain rfl : c = c' := by simpa using hpeek.symm.trans hpeek'
    exact Nat.not_lt.mpr hfew (hclosing f outer hrole hcompleted)

/-- Nothing starts or ends at a character of another role. -/
theorem quiet_of_role {c : Char} (hpeek : t.zones.buffer.peek = .ok (some (.char c)))
    (hsharp : t.recognising.role c ≠ .sharp) (hclosing : t.recognising.role c ≠ .closing) :
    t.Quiet :=
  quiet_of_char hpeek (fun _ hrole => absurd hrole hsharp) fun _ _ hrole => absurd hrole hclosing

/-- Nothing starts or ends where there is no character, or when the program has asked to stop. -/
theorem quiet_of_no_char (h : t.session.halt ≠ none ∨
    ∀ c, t.zones.buffer.peek ≠ .ok (some (.char c))) : t.Quiet := by
  constructor
  · refine Option.eq_none_iff_forall_ne_some.mpr fun active hahead => ?_
    obtain ⟨hhalt, c, hpeek, -⟩ := callAhead?_eq_some_iff.mp hahead
    exact h.elim (fun hne => hne hhalt) fun hne => hne c hpeek
  · refine Option.eq_none_iff_forall_ne_some.mpr fun f hdue => ?_
    obtain ⟨hhalt, c, -, hpeek, -⟩ := callDue?_eq_some_iff.mp hdue
    exact h.elim (fun hne => hne hhalt) fun hne => hne c hpeek

/-! ## Kinds of steps -/

/-- A movement in the text uses some of it up or fails in it. -/
theorem stepped_move (hquiet : t.Quiet) {movement : Zones → Progress}
    (hmoved : ∀ z, movement t.zones = .moved z → z.ahead < t.zones.ahead)
    (hfailed : ∀ e z, movement t.zones = .failed e z → e.ofScanner = false) :
    t.Stepped (t.move movement) := by
  rw [move_eq]
  cases hmove : movement t.zones with
  | moved zones => exact .passed hquiet rfl rfl rfl (hmoved zones hmove)
  | failed e zones => exact .inText hquiet (hfailed e zones hmove) rfl rfl rfl
  | fault => trivial

/-- A call that starts needs room in the budget first, and then on the stack. -/
theorem stepped_beginCall {active : Bool} (hahead : t.callAhead? = some active) :
    t.Stepped (t.beginCall t.session.chars active) := by
  rw [beginCall_eq]
  split
  · rename_i hspent
    exact .spent hahead hspent rfl rfl
  · rename_i hbudget
    have hbudget := Nat.lt_of_not_le hbudget
    split
    · rename_i hfull
      exact .tooDeep hahead hbudget hfull rfl rfl rfl rfl
    · rename_i hroom
      exact .begun hahead hbudget (Nat.lt_of_not_le hroom) rfl rfl rfl rfl

/-- Completing a call carries it out, or it fails. -/
theorem stepped_finishCall {zones : Zones} {f frame : Frame} {frames : List Frame} {active : Bool}
    {list : ArgumentList} {outer : List ArgumentList} (hahead : t.callAhead? = none)
    (hdue : t.callDue? = some f) (hcalls : t.calls.items = frame :: frames)
    (hlists : t.lists = list :: outer) :
    t.Stepped (finishCall ⟨t.session, zones, ⟨f :: frames⟩, t.lists⟩ active outer) := by
  rw [finishCall_eq]
  dsimp only
  cases hinvoke : Action.invoke (frames.length + 1) f t.session with
  | error e s' => exact .inCall hahead hdue hinvoke hcalls rfl (by simp [hlists]) rfl
  | ok result s' =>
    obtain ⟨disposition, text⟩ := result
    dsimp only
    split
    · exact .carriedOut hahead hdue hinvoke hcalls hlists
    · split
      · trivial
      · exact .carriedOut hahead hdue hinvoke hcalls hlists

/-- The calls around one that is completed. -/
theorem calls_of_completed? {f : Frame} {outer : List Frame}
    (h : t.completed? = some (f, outer)) : ∃ frame, t.calls.items = frame :: outer := by
  unfold completed? at h
  split at h
  · rename_i list lists frame frames hlists hcalls
    split at h
    · simp at h
    · split at h
      · simp at h
      · obtain ⟨-, rfl⟩ : _ = f ∧ frames = outer := by simpa using h
        exact ⟨frame, hcalls⟩
  · simp at h

/-- No call is completed where none is on the stack. -/
theorem completed?_of_nil (hcalls : t.calls.items = []) : t.completed? = none := by
  unfold completed?
  rw [hcalls]
  cases t.lists with
  | nil => rfl
  | cons list outer => rfl

/-- An argument ends at the cursor, and with it the call if its closing bracket stands there. -/
theorem stepped_finishArgument {c : Char} {list : ArgumentList} {outer : List ArgumentList}
    {width : Nat} {closes : Bool} (hhalt : t.session.halt = none)
    (hpeek : t.zones.buffer.peek = .ok (some (.char c))) (hlists : t.lists = list :: outer)
    (hrole : t.recognising.role c = if closes then .closing else .semi) (hwidth : 0 < width) :
    t.Stepped (t.finishArgument list outer width closes) := by
  have hinside : t.lists ≠ [] := by simp [hlists]
  have hsharp : t.recognising.role c ≠ .sharp := by
    rw [hrole]
    cases closes <;> decide
  -- Where the call cannot be completed, nothing ends.
  have hquiet : (∀ f outer, t.completed? = some (f, outer) → maxEntries < f.args.length) →
      t.Quiet := fun hcompleted =>
    quiet_of_char hpeek (fun _ hrole => absurd hrole hsharp) fun f outer _ => hcompleted f outer
  rw [finishArgument_eq]
  cases hdone : t.zones.doneFrom? list.start with
  | none => trivial
  | some bytes =>
    dsimp only
    cases htext : TextUnit.toText bytes list.start with
    | error e =>
      have hnone : t.completed? = none := by
        unfold completed?
        rw [hlists]
        cases t.calls.items with
        | nil => rfl
        | cons frame frames =>
          dsimp only
          rw [hdone]
          dsimp only
          rw [htext]
      have hspared : e.ofScanner = false := by
        unfold TextUnit.toText at htext
        split at htext
        · simp at htext
        · obtain rfl : _ = e := by simpa using htext
          rfl
      refine .inText (hquiet fun f outer hsome => ?_) hspared rfl rfl rfl
      simp [hnone] at hsome
    | ok text =>
      cases hcalls : t.calls.items with
      | nil =>
        refine .missed (hquiet fun f outer hsome => ?_) hinside hcalls rfl rfl rfl rfl
        simp [completed?_of_nil hcalls] at hsome
      | cons frame frames =>
        have hcompleted := completed?_eq hlists hcalls hdone htext
        have hpushed : (frame.push text).args.length = frame.args.length + 1 := by
          simp [Frame.push]
        dsimp only
        split
        · -- The argument is one too many, so that the call is not carried out.
          rename_i hmany
          refine .inText (hquiet fun f outer hsome => ?_) rfl rfl rfl rfl
          obtain ⟨rfl, -⟩ : frame.push text = f ∧ _ := by simpa [hcompleted] using hsome
          omega
        · rename_i hfew
          cases closes with
          | true =>
            have hdue : t.callDue? = some (frame.push text) :=
              callDue?_eq_some_iff.mpr ⟨hhalt, c, frames, hpeek, hrole, hcompleted, by omega⟩
            have hahead : t.callAhead? = none := by
              refine Option.eq_none_iff_forall_ne_some.mpr fun active hahead => ?_
              obtain ⟨-, c', hpeek', hrole', -⟩ := callAhead?_eq_some_iff.mp hahead
              obtain rfl : c = c' := by simpa using hpeek.symm.trans hpeek'
              exact hsharp hrole'
            exact stepped_finishCall hahead hdue hcalls hlists
          | false =>
            have hsemi : t.recognising.role c = .semi := hrole
            have hquiet : t.Quiet := quiet_of_role hpeek hsharp (by simp [hsemi])
            have hlt := TextUnit.lt_size_of_decodeAt hpeek
            exact .collected hquiet rfl hcalls rfl hinside rfl
              (Zones.ahead_skip_lt (z := { t.zones with passive := list.start }) hwidth hlt)

/-- A program that has asked to stop gives up its calls. -/
theorem stepped_giveUp {list : ArgumentList} {outer : List ArgumentList}
    (hhalt : t.session.halt ≠ none) (hlists : t.lists = list :: outer) :
    t.Stepped (t.giveUp list outer) := by
  have hquiet : t.Quiet := quiet_of_no_char (.inl hhalt)
  rw [giveUp_eq]
  cases hcalls : t.calls.items with
  | nil => exact .missed hquiet (by simp [hlists]) hcalls rfl rfl rfl rfl
  | cons frame frames => exact .givenUp hquiet hhalt rfl hcalls hlists

/-- The unit under the cursor is scanned. -/
theorem stepped_scanUnit {u : TextUnit} (hhalt : t.session.halt = none)
    (hpeek : t.zones.buffer.peek = .ok (some u)) :
    t.Stepped (t.scanUnit t.recognising t.session.chars u) := by
  have hlt : t.zones.buffer.index < t.zones.buffer.content.size :=
    TextUnit.lt_size_of_decodeAt hpeek
  have htransfer : t.Quiet → t.Stepped (t.move (·.transfer u.width)) := fun hquiet =>
    stepped_move hquiet (fun _ hz => Zones.ahead_transfer_lt hz u.width_pos hlt)
      fun _ _ => Zones.ofScanner_eq_false_of_transfer
  unfold scanUnit
  split
  · rename_i c
    split
    · rename_i hrole
      have hquiet : t.Quiet := quiet_of_role hpeek (by simp [hrole]) (by simp [hrole])
      exact stepped_move hquiet (fun _ hz => Zones.ahead_copyEscaped_lt hz hlt)
        fun _ _ => Zones.ofScanner_eq_false_of_copyEscaped
    · rename_i hrole
      have hquiet : t.Quiet := quiet_of_role hpeek (by simp [hrole]) (by simp [hrole])
      exact stepped_move hquiet (fun _ hz => Zones.ahead_copyBracketed_lt hz hlt)
        fun _ _ => Zones.ofScanner_eq_false_of_copyBracketedFrom
    · rename_i hrole hlists
      exact stepped_finishArgument hhalt hpeek hlists hrole (TextUnit.width_pos _)
    · rename_i hrole hlists
      exact stepped_finishArgument hhalt hpeek hlists hrole (TextUnit.width_pos _)
    · -- A sharp begins a call or is copied, which what follows it decides.
      rename_i hrole
      cases hstart : t.zones.callStart t.session.chars with
      | error e =>
        have hquiet : t.Quiet := quiet_of_char hpeek (by simp [hstart]) (by simp [hrole])
        exact .inText hquiet (t.zones.spared_callStart _ e hstart) rfl rfl rfl
      | ok start =>
        cases start with
        | none => exact htransfer (quiet_of_char hpeek (by simp [hstart]) (by simp [hrole]))
        | some active =>
          exact stepped_beginCall (callAhead?_eq_some_iff.mpr ⟨hhalt, c, hpeek, hrole, hstart⟩)
    · -- A closing bracket outside all calls is a character like any other.
      rename_i hsharp _ hclosing
      refine htransfer (quiet_of_char hpeek (fun _ hrole => (hsharp hrole).elim) ?_)
      intro f outer hrole hcompleted
      cases hlists : t.lists with
      | nil => simp [completed?, hlists] at hcompleted
      | cons list outer => exact (hclosing list outer hrole hlists).elim
  · rename_i hmark
    refine htransfer (quiet_of_no_char (.inr fun c hc => ?_))
    rw [hpeek] at hc
    exact hmark c (by simpa using hc)

/-- Every step begins the call ahead, carries out the call that is due, or leaves the session as it
is. -/
theorem stepped_step (t : Interpreter) : t.Stepped t.step := by
  cases hhalt : t.session.halt with
  | some status =>
    -- A program that has asked to stop gives up its calls and scans nothing.
    have hhalted : t.session.halt ≠ none := by simp [hhalt]
    unfold step
    rw [hhalt]
    cases hlists : t.lists with
    | nil => exact ⟨quiet_of_no_char (.inl hhalted), hlists, rfl⟩
    | cons list outer => exact stepped_giveUp hhalted hlists
  | none =>
    cases hpeek : t.zones.buffer.peek with
    | error e =>
      have hquiet : t.Quiet := quiet_of_no_char (.inr (by simp [hpeek]))
      have hspared := TextUnit.spared_decodeAt _ _ e hpeek
      unfold step
      rw [hhalt, hpeek]
      cases t.lists with
      | nil => exact .inText hquiet hspared rfl rfl rfl
      | cons list outer => exact .inText hquiet hspared rfl rfl rfl
    | ok next =>
      cases next with
      | none =>
        have hquiet : t.Quiet := quiet_of_no_char (.inr (by simp [hpeek]))
        unfold step
        rw [hhalt, hpeek]
        cases hlists : t.lists with
        | nil => exact ⟨hquiet, hlists, rfl⟩
        | cons list outer => exact .inText hquiet rfl rfl rfl rfl
      | some u =>
        rw [step_eq_scanUnit hhalt hpeek]
        exact stepped_scanUnit hhalt hpeek

/-- What a step that goes on does. -/
theorem goesOn_of_step {u : Interpreter} (hstep : t.step = .next u) : t.GoesOn u := by
  have hstepped := t.stepped_step
  rw [hstep] at hstepped
  exact hstepped

/-- How a step fails. -/
theorem fails_of_step {e : Error} {u : Interpreter} (hstep : t.step = .raised e u) :
    t.Fails e u := by
  have hstepped := t.stepped_step
  rw [hstep] at hstepped
  exact hstepped

/-- A program ends where it stands, outside all argument lists. -/
theorem finished_of_step {u : Interpreter} (hstep : t.step = .finished u) :
    t.Quiet ∧ t.lists = [] ∧ u = t := by
  have hstepped := t.stepped_step
  rw [hstep] at hstepped
  exact hstepped

/-! ## What is read off -/

/-- The ways in which a step changes the session: not at all, by counting a call, or by carrying one
out. -/
inductive Follows (s : Session) : Session → Prop
  | same : Follows s s
  /-- A call is counted that would be nested too deep. -/
  | counted : Follows s { s with execs := s.execs + 1 }
  | begun (depth : Nat) (active : Bool) :
    Follows s ({ s with execs := s.execs + 1 }.report (.callStarted depth active))
  | invoked {depth : Nat} {f : Frame} {result : Disposition × String} {s' : Session} :
    Action.invoke depth f s = .ok result s' → Follows s s'
  | failed {depth : Nat} {f : Frame} {e : Error} {s' : Session} :
    Action.invoke depth f s = .error e s' → Follows s s'

/-- What a step that goes on does to the session. -/
theorem GoesOn.follows {u : Interpreter} (h : t.GoesOn u) : Follows t.session u.session := by
  cases h with
  | passed _ hsession => exact hsession ▸ .same
  | collected _ hsession => exact hsession ▸ .same
  | givenUp _ _ hsession => exact hsession ▸ .same
  | begun _ _ _ hsession => exact hsession ▸ .begun _ _
  | carriedOut _ _ hinvoke => exact .invoked hinvoke

/-- What a step that fails does to the session. -/
theorem Fails.follows {e : Error} {u : Interpreter} (h : t.Fails e u) :
    Follows t.session u.session := by
  cases h with
  | inText _ _ hsession => exact hsession ▸ .same
  | spent _ _ _ hsame => exact hsame ▸ .same
  | tooDeep _ _ _ _ hsession => exact hsession ▸ .counted
  | missed _ _ _ _ hsession => exact hsession ▸ .same
  | inCall _ _ hinvoke => exact .failed hinvoke

/-- Where a call starts, a step begins it. -/
theorem step_of_callAhead {active : Bool} (h : t.callAhead? = some active) :
    t.step = t.beginCall t.session.chars active := by
  obtain ⟨hhalt, c, hpeek, hrole, hstart⟩ := callAhead?_eq_some_iff.mp h
  rw [step_eq_scanUnit hhalt hpeek]
  unfold scanUnit
  dsimp only
  rw [hrole, hstart]

/-- A program leaves what a step leaves of a state that it has reached, or is given up there. What
reaches outside the buffer is given up from the start. -/
theorem left_of_evaluate (fuel : Nat) (t : Interpreter) (text : String) :
    (t.evaluate fuel text).2 = t.clear ∨
      ∃ v, (t.load text).Reaches v ∧
        (v.step.left? t.calls.depth = some (t.evaluate fuel text).2 ∨
          (t.evaluate fuel text).2 = (v.unwind t.calls.depth).clear) := by
  have hends := run_ends fuel (t.load text)
  rw [evaluate_eq]
  cases hrun : run fuel (t.load text) with
  | finished u =>
    rw [hrun] at hends
    obtain ⟨v, hv, hstep⟩ := hends
    refine .inr ⟨v, hv, .inl ?_⟩
    rw [hstep]
    dsimp only
    split
    · rfl
    · rfl
  | raised e u =>
    rw [hrun] at hends
    obtain ⟨v, hv, hstep⟩ := hends
    refine .inr ⟨v, hv, .inl ?_⟩
    rw [hstep]
    dsimp only
    split
    · rfl
    · rfl
  | fault => exact .inl rfl
  | unfinished u =>
    rw [hrun] at hends
    exact .inr ⟨u, hends, .inr rfl⟩

end Interpreter

end TextMacro
