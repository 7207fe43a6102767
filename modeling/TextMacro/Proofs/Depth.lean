import TextMacro.Proofs.Changes

/-!
# How deep calls are nested

Only beginning a call makes the stack deeper, and only below the depth allowed at that moment, so
that the stack is never deeper than the greatest depth that was allowed (`Reaches.depth_le`). Since
there is a frame for each argument list (`Reaches.standsOn`), a frame is never missed on the stack
(`Reaches.ne_stackUnderflow`). A program that is scanned to its end has taken off all its calls, and
those of one that fails are unwound, so that what it leaves has neither text nor calls
(`evaluate_unwinds`): the next program starts from the session alone.
-/

namespace TextMacro

/-- Every property has a value in its range. -/
def Properties.InRange (ps : Properties) : Prop :=
  ∀ p : Property, p.allows (ps.value p) = true

namespace Properties

variable {ps : Properties}

/-- The initial values of the properties are in their ranges. -/
theorem inRange_initial : initial.InRange := by
  intro p
  cases p <;> decide

/-- A value in its range is put in place of another. -/
theorem InRange.put (h : ps.InRange) {p : Property} {value : Int} (hvalue : p.allows value = true) :
    (ps.put p value).InRange := by
  intro other
  by_cases hother : other = p
  · subst hother
    cases other <;> exact hvalue
  · have hkept : (ps.put p value).value other = ps.value other := by
      cases p <;> cases other <;> first | rfl | exact absurd rfl hother
    rw [hkept]
    exact h other

/-- No more than 4096 calls may be open. -/
theorem InRange.stackSize_le (h : ps.InRange) : ps.stackSize ≤ 4096 := by
  have hallowed := Bool.and_eq_true_iff.mp (h .stackSize)
  have hgreatest : ps.stackSizeValue ≤ 4096 := of_decide_eq_true hallowed.2
  exact Int.toNat_le.mpr hgreatest

end Properties

/-- The properties stay in their ranges, whatever is done. -/
theorem Session.invariant_inRange : Session.Invariant fun s => s.props.InRange where
  start _ _ _ _ := Properties.inRange_initial
  change hchange hs := by
    cases hchange with
    | setProp hset =>
      obtain ⟨p, -, hallows, rfl⟩ := eq_of_setProp hset
      exact hs.put hallows
    | reset => exact Properties.inRange_initial
    | _ => exact hs
  counted hs := hs
  surroundings _ _ _ _ _ _ hs := hs

namespace Interpreter

variable {t u : Interpreter}

/-! ## Runs -/

/-- The stack is never deeper than the greatest depth that is allowed along the way. -/
theorem Reaches.depth_le {bound : Nat} (h : t.Reaches u) (ht : t.calls.items = [])
    (hbound : ∀ v, t.Reaches v → v.session.props.stackSize ≤ bound) :
    u.calls.items.length ≤ bound := by
  induction h with
  | refl =>
    rw [ht]
    exact Nat.zero_le bound
  | @next v w hv hstep ih =>
    have hallowed := hbound v hv
    cases goesOn_of_step hstep with
    | passed _ _ hcalls => rwa [hcalls]
    | collected _ _ hcalls hadded =>
      rw [hcalls] at ih
      rwa [hadded]
    | givenUp _ _ _ hcalls =>
      rw [hcalls, List.length_cons] at ih
      omega
    | begun _ _ hroom _ hcalls =>
      rw [hcalls, List.length_cons]
      omega
    | carriedOut _ _ _ hcalls =>
      rw [hcalls, List.length_cons] at ih
      omega

/-- Where there is a frame for each argument list, the errors about the stack and the budget are
raised where a call starts: the budget is used up and nothing is touched, or the stack is full. -/
theorem Fails.of_ofScanner {e : Error} {below : List Frame} (hstands : t.StandsOn below)
    (h : t.Fails e u) (he : e.ofScanner = true) :
    (e = .execsExhausted t.session.props.execCount ∧
      t.session.props.execCount ≤ t.session.execs ∧ u = t) ∨
    (e = .stackOverflow t.session.props.stackSize ∧
      t.session.props.stackSize ≤ t.calls.items.length ∧ u.calls = t.calls) := by
  cases h with
  | inText _ hspared => exact absurd he (Bool.eq_false_iff.mp hspared)
  | spent _ hspent herror hsame => exact .inl ⟨herror, hspent, hsame⟩
  | tooDeep _ _ hfull herror _ hcalls => exact .inr ⟨herror, hfull, hcalls⟩
  | missed _ hinside hmissed =>
    -- The frame of the innermost call would be on the stack.
    obtain ⟨list, outer, hlists⟩ := List.exists_cons_of_ne_nil hinside
    obtain ⟨frame, frames, hcalls, -⟩ := hstands.exists_cons hlists
    simp [hmissed] at hcalls
  | inCall _ _ hinvoke =>
    -- A call that fails does so for reasons of its own.
    have hspared := (Action.changes_of_invoke_error hinvoke).2.spared
    exact absurd he (Bool.eq_false_iff.mp hspared)

/-- No frame is missed on the stack in a state that a program reaches. -/
theorem Reaches.ne_stackUnderflow {below : List Frame} {e : Error} {v : Interpreter}
    (hu : t.Reaches u) (ht : t.StandsOn below) (hstep : u.step = .raised e v) :
    e ≠ .stackUnderflow := by
  rintro rfl
  rcases (fails_of_step hstep).of_ofScanner (hu.standsOn ht) rfl with ⟨he, -⟩ | ⟨he, -⟩
  · simp at he
  · simp at he

/-- At a depth as great as is allowed, a call that starts is refused, and no call is touched. -/
theorem refused_of_callAhead {active : Bool} (hahead : t.callAhead? = some active)
    (hdeep : t.session.props.stackSize ≤ t.calls.items.length) :
    ∃ e v, t.step = .raised e v ∧ v.calls = t.calls ∧
      e = if t.session.props.execCount ≤ t.session.execs
        then .execsExhausted t.session.props.execCount
        else .stackOverflow t.session.props.stackSize := by
  rw [step_of_callAhead hahead, beginCall_eq, if_pos hdeep]
  by_cases hspent : t.session.props.execCount ≤ t.session.execs
  · rw [if_pos hspent, if_pos hspent]
    exact ⟨_, _, rfl, rfl, rfl⟩
  · rw [if_neg hspent, if_neg hspent]
    exact ⟨_, _, rfl, rfl, rfl⟩

/-- A failure is what a step has raised, and shows the calls that were in progress. -/
theorem raised_of_evaluate {fuel : Nat} {text : String} {failure : Failure}
    (h : (t.evaluate fuel text).1 = .error failure) :
    ∃ v u, (t.load text).Reaches v ∧ v.step = .raised failure.error u ∧
      failure.frames.length = u.calls.items.length := by
  have hends := run_ends fuel (t.load text)
  rw [evaluate_eq] at h
  cases hrun : run fuel (t.load text) with
  | finished u =>
    rw [hrun] at h
    cases hdone : u.doneText? <;> simp [hdone] at h
  | fault => simp [hrun] at h
  | unfinished u => simp [hrun] at h
  | raised e u =>
    rw [hrun] at h hends
    obtain ⟨v, hv, hstep⟩ := hends
    dsimp only at h
    cases hfailure : u.failure? e with
    | none => simp [hfailure] at h
    | some shown =>
      rw [hfailure] at h
      obtain rfl : shown = failure := by simpa using h
      unfold failure? at hfailure
      cases hdone : u.doneText? with
      | none => simp [hdone] at hfailure
      | some done =>
        rw [hdone] at hfailure
        obtain rfl := Option.some.inj hfailure
        refine ⟨v, u, hv, hstep, ?_⟩
        simp [Stack.describe]

/-! ## Programs -/

/-- An interpreter between programs: it has no text, no calls and no argument lists, and is not asked
to stop. -/
structure Idle (t : Interpreter) : Prop where
  zones : t.zones = .empty
  calls : t.calls = .empty
  lists : t.lists = []
  halt : t.session.halt = none

/-- However a program ends, the interpreter is left idle if no call was in progress before. -/
theorem idle_evaluate (ht : t.calls = .empty) (fuel : Nat) (text : String) :
    (t.evaluate fuel text).2.Idle := by
  obtain ⟨s, hs, -⟩ := session_of_evaluate fuel t text
  rw [hs]
  exact ⟨rfl, ht, rfl, rfl⟩

/-- A program is evaluated in the same way from the same session and the same calls, whatever else is
in the interpreter and whether or not it was asked to stop. -/
theorem evaluate_of_session_eq (fuel : Nat) (text : String) (hcalls : t.calls = u.calls)
    (h : { t.session with halt := none } = { u.session with halt := none }) :
    t.evaluate fuel text = u.evaluate fuel text := by
  have hload : t.load text = u.load text := by
    unfold load
    rw [h, hcalls]
  have hclear : t.clear = u.clear := by
    unfold clear
    rw [h, hcalls]
  rw [evaluate_eq, evaluate_eq, hload, hclear, hcalls]

/-- No program fails because a call is missed on the stack. -/
theorem error_ne_stackUnderflow {fuel : Nat} {text : String} {failure : Failure}
    (h : (t.evaluate fuel text).1 = .error failure) : failure.error ≠ .stackUnderflow := by
  obtain ⟨v, u, hv, hstep, -⟩ := raised_of_evaluate h
  exact hv.ne_stackUnderflow (t.standsOn_load text) hstep

/-- A program that fails because its calls are too deep names the depth that was allowed when it
failed, and shows the calls of a stack that is as deep. -/
theorem stackOverflow_of_evaluate {fuel n : Nat} {text : String} {failure : Failure}
    (h : (t.evaluate fuel text).1 = .error failure) (herror : failure.error = .stackOverflow n) :
    ∃ v, (t.load text).Reaches v ∧ v.session.props.stackSize = n ∧ n ≤ v.calls.items.length ∧
      failure.frames.length = v.calls.items.length := by
  obtain ⟨v, u, hv, hstep, hframes⟩ := raised_of_evaluate h
  have hstands := hv.standsOn (t.standsOn_load text)
  rw [herror] at hstep
  rcases (fails_of_step hstep).of_ofScanner hstands rfl with ⟨he, -⟩ | ⟨he, hdeep, hcalls⟩
  · simp at he
  · obtain rfl : n = v.session.props.stackSize := by simpa using he
    rw [hcalls] at hframes
    exact ⟨v, hv, rfl, hdeep, hframes⟩

/-- In all states of a program that begins with no call in progress the stack is as deep as argument
lists are being collected, never deeper than any property allows, and no frame is missed on it. -/
theorem Reaches.disciplined {text : String} (hu : (t.load text).Reaches u) (ht : t.calls = .empty)
    (hrange : t.session.props.InRange) :
    u.calls.depth = u.lists.length ∧ u.calls.depth ≤ 4096 ∧
      ∀ e v, u.step = .raised e v → e ≠ .stackUnderflow := by
  have hload := t.standsOn_load text
  rw [ht] at hload
  refine ⟨(hu.standsOn hload).depth_eq, ?_, fun e v => hu.ne_stackUnderflow hload⟩
  refine hu.depth_le (congrArg Stack.items ht) fun v hv => ?_
  exact (Session.invariant_inRange.reaches hv hrange).stackSize_le

/-- A program that begins with no call in progress leaves the interpreter idle, on success and on
failure alike, so that the next one depends on the session only. A program that is scanned to its
end has by itself taken off every call that it has put on the stack; no unwinding is needed for
that. While a program runs, the stack is as deep as argument lists are being collected, never deeper
than 4096, since the properties have values in their ranges, as they do in every session
(`Session.invariant_inRange`), and no frame is ever missed on it, so that no program fails for that
reason. If the depth allowed stays the same throughout, the calls are never nested deeper, a call
that would be is refused, and a failure for that reason names the depth and shows as many calls. -/
theorem evaluate_unwinds (t : Interpreter) (ht : t.calls = .empty)
    (hrange : t.session.props.InRange) (fuel : Nat) (text : String) :
    (t.evaluate fuel text).2.Idle ∧
    (∀ t' : Interpreter, t'.calls = .empty →
      { t'.session with halt := none } = (t.evaluate fuel text).2.session →
      ∀ fuel' text', t'.evaluate fuel' text' = (t.evaluate fuel text).2.evaluate fuel' text') ∧
    (∀ u, run fuel (t.load text) = .finished u → u.calls.depth = 0) ∧
    (∀ u, (t.load text).Reaches u →
      u.calls.depth = u.lists.length ∧ u.calls.depth ≤ 4096 ∧
        ∀ e v, u.step = .raised e v → e ≠ .stackUnderflow) ∧
    (∀ failure, (t.evaluate fuel text).1 = .error failure → failure.error ≠ .stackUnderflow) ∧
    ∀ limit, (∀ u, (t.load text).Reaches u → u.session.props.stackSize = limit) →
      (∀ u, (t.load text).Reaches u → u.calls.depth ≤ limit ∧
        ∀ active, u.callAhead? = some active → u.calls.depth = limit →
          ∃ e v, u.step = .raised e v ∧ v.calls = u.calls ∧
            e = if u.session.props.execCount ≤ u.session.execs
              then .execsExhausted u.session.props.execCount else .stackOverflow limit) ∧
      ∀ failure n, (t.evaluate fuel text).1 = .error failure → failure.error = .stackOverflow n →
        n = limit ∧ failure.frames.length = limit := by
  have hidle := idle_evaluate ht fuel text
  refine ⟨hidle, ?_, ?_, fun u hu => hu.disciplined ht hrange,
    fun _ hfailure => error_ne_stackUnderflow hfailure, ?_⟩
  · intro t' ht' hsession fuel' text'
    refine evaluate_of_session_eq fuel' text' (ht'.trans hidle.calls.symm) (hsession.trans ?_)
    rw [← hidle.halt]
  · intro u hrun
    have hleft := standsOn_run (t.standsOn_load text) fuel
    rw [hrun, ht] at hleft
    exact congrArg List.length hleft
  · intro limit hlimit
    have hdepth : ∀ u, (t.load text).Reaches u → u.calls.items.length ≤ limit :=
      fun u hu => hu.depth_le (congrArg Stack.items ht) fun v hv => Nat.le_of_eq (hlimit v hv)
    constructor
    · intro u hu
      refine ⟨hdepth u hu, fun active hahead hdeep => ?_⟩
      have hallowed : u.session.props.stackSize ≤ u.calls.items.length := by
        rw [hlimit u hu]
        exact Nat.le_of_eq hdeep.symm
      rw [← hlimit u hu]
      exact refused_of_callAhead hahead hallowed
    · intro failure n hfailure herror
      obtain ⟨v, hv, hallowed, hdeep, hframes⟩ := stackOverflow_of_evaluate hfailure herror
      -- The stack is as deep as is allowed, and never deeper.
      have hn : n = limit := hallowed.symm.trans (hlimit v hv)
      have hle := hdepth v hv
      exact ⟨hn, by omega⟩

/-- An interpreter in which two calls may be open at a time. -/
def shallow : Interpreter :=
  ofSession { fresh.session with props := fresh.session.props.put .stackSize 2 }

/-- There the third of three calls, each inside the one before, is refused. -/
theorem evaluate_unwinds_shallow :
    ∃ failure, (shallow.evaluate 20 "#<a;#<b;#<c>>>").1 = .error failure ∧
      failure.error = .stackOverflow 2 ∧ failure.frames.length = 2 := by
  have hrange : shallow.session.props.InRange := Properties.inRange_initial.put rfl
  obtain ⟨-, -, -, -, -, hlimited⟩ := evaluate_unwinds shallow rfl hrange 20 "#<a;#<b;#<c>>>"
  have halways : always (fun u => u.session.props.stackSize == 2) 20
      (shallow.load "#<a;#<b;#<c>>>") = true := by
    decide +kernel
  have hframes := (hlimited 2 fun u hu => beq_iff_eq.mp (hu.of_always halways)).2
  have hcases : ∀ ending : Ending Failure Outcome,
      (match ending with | .error e => decide (e.error = .stackOverflow 2) | _ => false) = true →
        ∃ failure, ending = .error failure ∧ failure.error = .stackOverflow 2 := by
    intro ending h
    cases ending with
    | error e => exact ⟨e, rfl, of_decide_eq_true h⟩
    | ok o => simp at h
    | fault => simp at h
    | unfinished => simp at h
  obtain ⟨failure, hfailure, herror⟩ := hcases (shallow.evaluate 20 "#<a;#<b;#<c>>>").1 (by
    decide +kernel)
  exact ⟨failure, hfailure, herror, (hframes failure 2 hfailure herror).2⟩

end Interpreter

end TextMacro
