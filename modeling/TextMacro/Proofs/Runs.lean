import TextMacro.Session.Evaluate

/-!
# Runs of the scanner

The states that steps of the scanner lead to, and the states of an interpreter between programs.
What holds of all states reached from the start of a program holds wherever a run of it ends
(`run_ends`).
-/

namespace TextMacro

/-! ## The stack -/

namespace Stack

variable {α : Type} {item : α} {rest : List α}

/-- Changing what is on top leaves the rest of the stack. -/
@[simp]
theorem modifyTop_cons (f : α → α) :
    (⟨item :: rest⟩ : Stack α).modifyTop f = .ok ⟨f item :: rest⟩ := rfl

/-- An entry is added to the call on top of the stack, if there is one and it has room. -/
theorem addEntry_eq (s : Stack Frame) (text : String) :
    s.addEntry text = match s.items with
      | [] => .error .stackUnderflow
      | frame :: frames =>
        if maxEntries ≤ frame.args.length then .error (.tooManyArgs maxEntries)
        else .ok ⟨frame.push text :: frames⟩ := by
  obtain ⟨items⟩ := s
  cases items with
  | nil => rfl
  | cons frame frames =>
    unfold addEntry top
    simp only [bind, Except.bind]
    split
    · rfl
    · rfl

/-- Unwinding to the depth of what is at the bottom leaves just that. -/
theorem unwind_of_suffix {s below : Stack α} (h : below.items <:+ s.items) :
    s.unwind below.depth = below := by
  obtain ⟨items⟩ := s
  obtain ⟨bottom⟩ := below
  exact congrArg Stack.mk (List.suffix_iff_eq_drop.mp h).symm

/-- Nothing is left of a stack that is unwound to depth zero. -/
theorem unwind_zero (s : Stack α) : s.unwind 0 = .empty := by
  have hbottom : (empty : Stack α).items <:+ s.items := List.nil_suffix
  exact unwind_of_suffix hbottom

end Stack

/-! ## Endings -/

/-- The value of an ending that has one. -/
def Ending.value? {ε α : Type} : Ending ε α → Option α
  | ok value => some value
  | _ => none

/-- Only an ending with success has a value. -/
theorem Ending.eq_ok_of_value? {ε α : Type} {ending : Ending ε α} {value : α}
    (h : ending.value? = some value) : ending = .ok value := by
  cases ending with
  | ok found => rw [Option.some.inj h]
  | _ => cases h

namespace Interpreter

/-! ## Parts of a step -/

/-- A movement changes the zones only. -/
theorem move_eq (t : Interpreter) (movement : Zones → Progress) :
    t.move movement = match movement t.zones with
      | .moved zones => .next { t with zones }
      | .failed e zones => .raised e { t with zones }
      | .fault => .fault := rfl

/-- A call is begun in three ways: the budget is used up, the calls are too deep, or there is one
call more. -/
theorem beginCall_eq (t : Interpreter) (current : MetaChars) (active : Bool) :
    t.beginCall current active =
      if t.session.props.execCount ≤ t.session.execs then
        .raised (.execsExhausted t.session.props.execCount) t
      else if t.session.props.stackSize ≤ t.calls.items.length then
        .raised (.stackOverflow t.session.props.stackSize)
          ⟨{ t.session with execs := t.session.execs + 1 },
            t.zones.skip (Zones.callStartWidth current active), t.calls, t.lists⟩
      else
        .next ⟨{ t.session with execs := t.session.execs + 1 }.report
            (.callStarted (t.calls.items.length + 1) active),
          t.zones.skip (Zones.callStartWidth current active),
          ⟨.start active :: t.calls.items⟩,
          ⟨(t.zones.skip (Zones.callStartWidth current active)).passive, t.session.chars, active⟩
            :: t.lists⟩ := by
  unfold beginCall Stack.push Stack.depth
  dsimp only
  split
  · rfl
  · by_cases hdepth : t.session.props.stackSize ≤ t.calls.items.length
    · rw [if_pos hdepth, if_pos hdepth]
    · rw [if_neg hdepth, if_neg hdepth]
      rfl

/-- However a call ends, its frame is back on the stack. -/
theorem invoke_eq (session : Session) (calls : Stack Frame) :
    invoke session calls = match calls.items with
      | [] => .error .stackUnderflow (session, calls)
      | frame :: frames =>
        match Action.invoke (frames.length + 1) frame session with
        | .ok result session => .ok result (session, calls)
        | .error e session => .error e (session, calls) := by
  obtain ⟨items⟩ := calls
  cases items with
  | nil => rfl
  | cons frame frames =>
    have hdepth : (⟨frame :: frames⟩ : Stack Frame).depth = frames.length + 1 := rfl
    have htop : (⟨frame :: frames⟩ : Stack Frame).top = .ok frame := rfl
    cases hinvoke : Action.invoke (frames.length + 1) frame session with
    | ok result session' => simp only [invoke, htop, hdepth, hinvoke, Stack.modifyTop_cons]
    | error e session' => simp only [invoke, htop, hdepth, hinvoke, Stack.modifyTop_cons]

/-- The innermost call is carried out and taken off, if there is one on the stack. -/
theorem finishCall_eq (t : Interpreter) (active : Bool) (outer : List ArgumentList) :
    t.finishCall active outer = match t.calls.items with
      | [] => .raised .stackUnderflow t
      | frame :: frames =>
        match Action.invoke (frames.length + 1) frame t.session with
        | .error e session => .raised e { t with session }
        | .ok (disposition, text) session =>
          if disposition = .sideEffect || text.isEmpty then
            .next ⟨session, t.zones, ⟨frames⟩, outer⟩
          else
            match t.zones.splice? text.toUTF8 active with
            | none => .fault
            | some zones => .next ⟨session, zones, ⟨frames⟩, outer⟩ := by
  obtain ⟨session, zones, ⟨items⟩, lists⟩ := t
  unfold finishCall
  dsimp only
  rw [invoke_eq]
  cases items with
  | nil => rfl
  | cons frame frames =>
    dsimp only
    cases Action.invoke (frames.length + 1) frame session with
    | ok result session => rfl
    | error e session => rfl

/-- An argument is completed where it is a text and the innermost call has room for it. -/
theorem finishArgument_eq (t : Interpreter) (list : ArgumentList) (outer : List ArgumentList)
    (width : Nat) (closes : Bool) :
    t.finishArgument list outer width closes = match t.zones.doneFrom? list.start with
      | none => .fault
      | some bytes =>
        match TextUnit.toText bytes list.start, t.calls.items with
        | .error e, _ => .raised e t
        | .ok _, [] => .raised .stackUnderflow t
        | .ok text, frame :: frames =>
          if maxEntries ≤ frame.args.length then .raised (.tooManyArgs maxEntries) t
          else
            let u := ⟨t.session, { t.zones with passive := list.start }.skip width,
              ⟨frame.push text :: frames⟩, t.lists⟩
            if closes then finishCall u list.active outer else .next u := by
  obtain ⟨session, zones, ⟨items⟩, lists⟩ := t
  unfold finishArgument
  dsimp only
  cases zones.doneFrom? list.start with
  | none => rfl
  | some bytes =>
    dsimp only
    cases TextUnit.toText bytes list.start with
    | error e => rfl
    | ok text =>
      dsimp only
      rw [Stack.addEntry_eq]
      cases items with
      | nil => rfl
      | cons frame frames =>
        dsimp only
        by_cases hmany : maxEntries ≤ frame.args.length
        · rw [if_pos hmany, if_pos hmany]
        · rw [if_neg hmany, if_neg hmany]

/-- The innermost call is taken off, if there is one on the stack. -/
theorem giveUp_eq (t : Interpreter) (list : ArgumentList) (outer : List ArgumentList) :
    t.giveUp list outer = match t.calls.items with
      | [] => .raised .stackUnderflow
          ⟨t.session, { t.zones with passive := list.start }, t.calls, t.lists⟩
      | _ :: frames => .next ⟨t.session, { t.zones with passive := list.start }, ⟨frames⟩, outer⟩ := by
  obtain ⟨session, zones, ⟨items⟩, lists⟩ := t
  cases items with
  | nil => rfl
  | cons frame frames => rfl

/-- The meta characters by which the character under the cursor is recognised. -/
def recognising (t : Interpreter) : MetaChars :=
  match t.lists with
  | [] => t.session.chars
  | list :: _ => list.chars

/-- With a unit under the cursor a step scans that unit. -/
theorem step_eq_scanUnit {t : Interpreter} {u : TextUnit} (hhalt : t.session.halt = none)
    (hpeek : t.zones.buffer.peek = .ok (some u)) :
    t.step = t.scanUnit t.recognising t.session.chars u := by
  unfold step recognising
  rw [hhalt, hpeek]
  cases t.lists with
  | nil => rfl
  | cons list outer => rfl

/-! ## Runs -/

/-- The states that steps lead to. -/
inductive Reaches (t : Interpreter) : Interpreter → Prop
  | refl : Reaches t t
  | next {u v : Interpreter} : Reaches t u → u.step = .next v → Reaches t v

/-- The states behind the first step. -/
theorem Reaches.of_step {t u v : Interpreter} (hstep : t.step = .next u) (h : u.Reaches v) :
    t.Reaches v := by
  induction h with
  | refl => exact .next .refl hstep
  | next _ hnext ih => exact .next ih hnext

/-- Steps can follow steps. -/
theorem Reaches.trans {t u v : Interpreter} (h : t.Reaches u) (h' : u.Reaches v) : t.Reaches v := by
  induction h' with
  | refl => exact h
  | next _ hstep ih => exact .next ih hstep

/-- A run ends with a step of a state that is reached, or in such a state. -/
theorem run_ends (fuel : Nat) (t : Interpreter) :
    match run fuel t with
    | .finished u => ∃ v, t.Reaches v ∧ v.step = .finished u
    | .raised e u => ∃ v, t.Reaches v ∧ v.step = .raised e u
    | .fault => ∃ v, t.Reaches v ∧ v.step = .fault
    | .unfinished u => t.Reaches u := by
  induction fuel generalizing t with
  | zero => exact .refl
  | succ fuel ih =>
    unfold run
    cases hstep : t.step with
    | next u =>
      have hrest := ih u
      dsimp only
      cases hrun : run fuel u with
      | finished w =>
        rw [hrun] at hrest
        obtain ⟨v, hv, hend⟩ := hrest
        exact ⟨v, hv.of_step hstep, hend⟩
      | raised e w =>
        rw [hrun] at hrest
        obtain ⟨v, hv, hend⟩ := hrest
        exact ⟨v, hv.of_step hstep, hend⟩
      | fault =>
        rw [hrun] at hrest
        obtain ⟨v, hv, hend⟩ := hrest
        exact ⟨v, hv.of_step hstep, hend⟩
      | unfinished w =>
        rw [hrun] at hrest
        exact hrest.of_step hstep
    | finished u => exact ⟨t, .refl, hstep⟩
    | raised e u => exact ⟨t, .refl, hstep⟩
    | fault => exact ⟨t, .refl, hstep⟩

/-- A run goes on from a state that is reached after some steps. -/
theorem Reaches.run_eq {t u : Interpreter} (h : t.Reaches u) :
    ∃ steps, ∀ fuel, run (steps + fuel) t = run fuel u := by
  induction h with
  | refl => exact ⟨0, fun fuel => by rw [Nat.zero_add]⟩
  | @next v w _ hstep ih =>
    obtain ⟨steps, hrun⟩ := ih
    refine ⟨steps + 1, fun fuel => ?_⟩
    rw [Nat.add_assoc, Nat.add_comm 1, hrun, run, hstep]

/-- Whether a test holds in all states of a run, which has to end within a number of steps. -/
def always (test : Interpreter → Bool) : (fuel : Nat) → Interpreter → Bool
  | 0, _ => false
  | fuel + 1, t =>
    test t && match t.step with
      | .next u => always test fuel u
      | _ => true

/-- A state is reached by no step or from the state behind the first. -/
theorem Reaches.eq_or_step {t u : Interpreter} (h : t.Reaches u) :
    u = t ∨ ∃ v, t.step = .next v ∧ v.Reaches u := by
  induction h with
  | refl => exact .inl rfl
  | @next v w _ hstep ih =>
    right
    rcases ih with rfl | ⟨x, hx, hxv⟩
    · exact ⟨w, hstep, .refl⟩
    · exact ⟨x, hx, .next hxv hstep⟩

/-- Of two states that are reached, one comes before the other. -/
theorem Reaches.total {t u v : Interpreter} (hu : t.Reaches u) (hv : t.Reaches v) :
    u.Reaches v ∨ v.Reaches u := by
  induction hu with
  | refl => exact .inl hv
  | @next x u _ hstep ih =>
    rcases ih with hxv | hvx
    · rcases hxv.eq_or_step with rfl | ⟨y, hy, hyv⟩
      · exact .inr (.next .refl hstep)
      · obtain rfl : u = y := Step.next.inj (hstep.symm.trans hy)
        exact .inl hyv
    · exact .inr (.next hvx hstep)

/-- Every state that is reached comes before the last. -/
theorem Reaches.reaches_last {t u last : Interpreter} (hu : t.Reaches u) (hlast : t.Reaches last)
    (hends : ∀ v, last.step ≠ .next v) : u.Reaches last := by
  rcases hu.total hlast with h | h
  · exact h
  · rcases h.eq_or_step with rfl | ⟨v, hv, -⟩
    · exact .refl
    · exact absurd hv (hends v)

/-- A test that holds in all states of a run that ends holds in all states that are reached. -/
theorem Reaches.of_always {test : Interpreter → Bool} {fuel : Nat} {t u : Interpreter}
    (h : always test fuel t = true) (hu : t.Reaches u) : test u = true := by
  induction fuel generalizing t with
  | zero => simp [always] at h
  | succ fuel ih =>
    rw [always, Bool.and_eq_true] at h
    rcases hu.eq_or_step with rfl | ⟨v, hstep, hv⟩
    · exact h.1
    · rw [hstep] at h
      exact ih h.2 hv

/-- A program is loaded, scanned, and read off where the scanner has stopped. -/
theorem evaluate_eq (fuel : Nat) (t : Interpreter) (text : String) :
    t.evaluate fuel text = match run fuel (t.load text) with
      | .finished u =>
        match u.doneText? with
        | some output => (.ok ⟨output, u.session.halt⟩, u.clear)
        | none => (.fault, u.clear)
      | .raised e u =>
        match u.failure? e with
        | some failure => (.error failure, (u.unwind t.calls.depth).clear)
        | none => (.fault, (u.unwind t.calls.depth).clear)
      | .fault => (.fault, t.clear)
      | .unfinished u => (.unfinished, (u.unwind t.calls.depth).clear) := rfl

/-- Unwinding to the depth that there is changes nothing. -/
theorem unwind_depth (t : Interpreter) : t.unwind t.calls.depth = t :=
  congrArg (fun calls => { t with calls }) (Stack.unwind_of_suffix List.suffix_rfl)

/-- Without calls only the session is left of an interpreter that is cleared. -/
theorem clear_eq_ofSession {t : Interpreter} (ht : t.calls = .empty) :
    t.clear = ofSession { t.session with halt := none } := by
  rw [clear, ht]
  rfl

/-- If no call was in progress before a program, only the session is left behind it. -/
theorem clear_unwind {t : Interpreter} (ht : t.calls = .empty) (u : Interpreter) :
    (u.unwind t.calls.depth).clear = ofSession { u.session with halt := none } := by
  have hnone : (u.unwind t.calls.depth).calls = .empty := by
    rw [ht]
    exact u.calls.unwind_zero
  exact clear_eq_ofSession hnone

/-- An interpreter with which nothing has been done, in surroundings in which there is nothing. -/
def fresh : Interpreter := ofSession (.start (.ofInput ByteArray.empty) .empty ⟨0, 0⟩ default)

/-- The states of an interpreter between programs: it has evaluated any programs, with any outcome,
and between them the surroundings may have changed, properties may have been set and other meta
characters chosen. -/
inductive Reachable : Interpreter → Prop
  | start (streams : Streams) (files : Files) (clock : Clock) (log : Log) :
    Reachable (ofSession (.start streams files clock log))
  | evaluate {t : Interpreter} (fuel : Nat) (text : String) : Reachable t →
    Reachable (t.evaluate fuel text).2
  | surroundings {t : Interpreter} (streams : Streams) (files : Files) (clock : Clock) (log : Log)
    (args : List String) (traceAll : Bool) : Reachable t →
    Reachable { t with session := { t.session with streams, files, clock, log, args, traceAll } }
  | setProp {t : Interpreter} {session : Session} (name : String) (value : Int) : Reachable t →
    t.session.setProp name value = .ok session → Reachable { t with session }
  | resetProps {t : Interpreter} : Reachable t →
    Reachable { t with session := t.session.resetProps }
  | rebind {t : Interpreter} {m : MetaChars} (chars : String) : Reachable t →
    t.session.chars.rebind chars = .ok m →
    Reachable { t with session := { t.session with chars := m } }

/-- Nothing has to be done to reach an interpreter with which nothing has been done. -/
theorem reachable_fresh : fresh.Reachable := by
  unfold fresh
  exact .start _ _ _ _

end Interpreter

end TextMacro
