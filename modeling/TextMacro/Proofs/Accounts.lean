import TextMacro.Proofs.Budget
import TextMacro.Proofs.DefinedStrings
import TextMacro.Proofs.Depth

/-!
# The budget of calls is exact

`Spends` follows a whole session, between programs and inside them, and counts the calls that are
started from the moment the budget was last loaded. The interpreter's own counter is this count in
all states, however programs end and whatever they are in the middle of, and it never exceeds the
budget (`spends_budget`). A call that starts when the budget is used up fails before anything is
touched.
-/

namespace TextMacro

/-! ## Calls that load a fresh budget -/

namespace Builtins

open TextMacro.Action

variable {f : Frame}

/-- Giving a property a value fails where the number cannot be read or the value is refused. -/
theorem controlProp_run (called name text : String) (rest : List String) (active : Bool)
    (s : Session) :
    control ⟨called :: "prop" :: name :: text :: rest, active⟩ s =
      match Decimal.read text >>= s.setProp name with
      | .ok s' => .ok "" s'
      | .error e => .error e s := by
  show (lift (Decimal.read text) >>= fun value => get >>= fun s => lift (s.setProp name value) >>=
    fun s => set s >>= fun _ => pure "" : Action String) s = _
  cases Decimal.read text with
  | error e => rfl
  | ok value =>
    show (lift (s.setProp name value) >>= fun s => set s >>= fun _ => pure "" : Action String) s
      = match s.setProp name value with
        | .ok s' => .ok "" s'
        | .error e => .error e s
    cases s.setProp name value with
    | error e => rfl
    | ok s' => rfl

/-- A call of the control builtin that asks for a fresh budget loads it, or fails and changes
nothing. -/
theorem control_of_reloads (h : f.reloads = true) (s : Session) :
    (∃ e, control f s = .error e s) ∨ ∃ text s', control f s = .ok text s' ∧ s'.execs = 0 := by
  obtain ⟨args, active⟩ := f
  unfold Frame.reloads at h
  split at h
  · rename_i rest hrest
    obtain ⟨called, rfl⟩ : ∃ called, args = called :: "reset" :: rest := by
      cases args with
      | nil => simp [Frame.rest] at hrest
      | cons called tail => exact ⟨called, by rw [← hrest]; rfl⟩
    exact .inr ⟨"", s.resetProps, rfl, rfl⟩
  · rename_i name text rest hrest
    obtain ⟨called, rfl⟩ : ∃ called, args = called :: "prop" :: name :: text :: rest := by
      cases args with
      | nil => simp [Frame.rest] at hrest
      | cons called tail => exact ⟨called, by rw [← hrest]; rfl⟩
    -- The value may be no number, or one that the property does not allow.
    rw [controlProp_run]
    cases hset : Decimal.read text >>= s.setProp name with
    | error e => exact .inl ⟨e, rfl⟩
    | ok s' =>
      refine .inr ⟨"", s', rfl, ?_⟩
      obtain ⟨value, hvalue⟩ : ∃ value, s.setProp name value = .ok s' := by
        cases hread : Decimal.read text with
        | error e =>
          rw [hread] at hset
          cases hset
        | ok value =>
          rw [hread] at hset
          exact ⟨value, hset⟩
      obtain ⟨p, -, -, rfl⟩ := Session.eq_of_setProp hvalue
      exact if_pos h
  · simp at h

end Builtins

/-- A call that asks for a fresh budget is one of the control builtin. -/
theorem Dictionary.function?_of_reloads {d : Dictionary} {f : Frame} (h : d.reloads f = true) :
    ∃ function, d.function? f.name = some function ∧ function.meaning = .builtin .control ∧
      f.reloads = true := by
  unfold Dictionary.reloads at h
  split at h
  · rename_i name code traced locked minArgs maxArgs disposition hfunction
    unfold Builtin.reloads at h
    obtain ⟨hcode, hreloads⟩ := Bool.and_eq_true_iff.mp h
    refine ⟨_, hfunction, ?_, hreloads⟩
    rw [of_decide_eq_true hcode]
  · simp at h

namespace Action

variable {s s' : Session} {f : Frame} {depth : Nat}

/-- A call that asks for a fresh budget loads it, or fails and keeps the old one. -/
theorem invoke_of_reloads (depth : Nat) (h : s.dict.reloads f = true) :
    (∃ e s', invoke depth f s = .error e s' ∧ s'.execs = s.execs ∧
      s'.props.execCount = s.props.execCount) ∨
    ∃ result s', invoke depth f s = .ok result s' ∧ s'.execs = 0 := by
  obtain ⟨function, hfunction, hmeaning, hreloads⟩ := Dictionary.function?_of_reloads h
  by_cases hfew : f.argc < function.minArgs
  · exact .inl ⟨_, s, invoke_few depth hfunction hfew, rfl, rfl⟩
  · rw [invoke_eq depth hfunction (Nat.le_of_not_lt hfew), hmeaning]
    dsimp only
    -- What is reported before the call changes the log only.
    generalize hentered : (if (s.traceAll || function.traced) = true
      then s.report (.callEntered depth (f.render s.chars)) else s) = entered
    have hkept : entered.execs = s.execs ∧ entered.props.execCount = s.props.execCount := by
      rw [← hentered]
      split
      · exact ⟨rfl, rfl⟩
      · exact ⟨rfl, rfl⟩
    have hperform : perform (.builtin .control) f entered = Builtins.control f entered := rfl
    rw [hperform]
    rcases Builtins.control_of_reloads hreloads entered
      with ⟨e, hcontrol⟩ | ⟨text, s', hcontrol, hs'⟩
    · rw [hcontrol]
      exact .inl ⟨e, entered, rfl, hkept⟩
    · rw [hcontrol]
      refine .inr ⟨_, _, rfl, ?_⟩
      split
      · exact hs'
      · exact hs'

/-- A call that fails keeps the budget and what is counted. -/
theorem budget_of_invoke_error {e : Error} (h : invoke depth f s = .error e s') :
    s'.execs = s.execs ∧ s'.props.execCount = s.props.execCount := by
  cases hreloads : s.dict.reloads f with
  | true =>
    rcases invoke_of_reloads depth hreloads
      with ⟨e', s'', hinvoke, hkept⟩ | ⟨result, s'', hinvoke, -⟩
    · obtain ⟨-, rfl⟩ : e' = e ∧ s'' = s' := by simpa [h, eq_comm] using hinvoke
      exact hkept
    · simp [h] at hinvoke
  | false =>
    rw [← Dictionary.reloads_permits] at hreloads
    exact (changes_of_invoke_error h).1.budget_eq hreloads

/-- A call that succeeds loads a fresh budget if it asks for it, and keeps the old one if not. -/
theorem budget_of_invoke {result : Disposition × String} (h : invoke depth f s = .ok result s') :
    if s.dict.reloads f then s'.execs = 0
      else s'.execs = s.execs ∧ s'.props.execCount = s.props.execCount := by
  cases hreloads : s.dict.reloads f with
  | true =>
    rcases invoke_of_reloads depth hreloads
      with ⟨e, s'', hinvoke, -⟩ | ⟨result', s'', hinvoke, hfresh⟩
    · simp [h] at hinvoke
    · obtain ⟨-, rfl⟩ : result' = result ∧ s'' = s' := by simpa [h, eq_comm] using hinvoke
      exact hfresh
  | false =>
    rw [← Dictionary.reloads_permits] at hreloads
    exact (changes_of_invoke h).budget_eq hreloads

end Action

namespace Interpreter

variable {t u : Interpreter} {n : Nat}

/-! ## Counting the calls that are started -/

/-- The next step starts a call: one stands at the cursor, and the budget does not refuse it. -/
def Starts (t : Interpreter) : Prop :=
  (∃ active, t.callAhead? = some active) ∧
    ∀ limit u, t.step ≠ .raised (.execsExhausted limit) u

/-- The states of a session, between programs and inside them, with the number of calls that have
been started since the budget was last loaded. When a program ends before it is scanned, its calls are
taken off the stack. -/
inductive Spends : Interpreter → Nat → Prop
  | start (streams : Streams) (files : Files) (clock : Clock) (log : Log) :
    Spends (ofSession (.start streams files clock log)) 0
  | load {t : Interpreter} {n : Nat} (text : String) : Spends t n → Spends (t.load text) n
  /-- A call is started. It counts also if it fails at once or later. -/
  | started {t u : Interpreter} {n depth : Nat} : Spends t n → t.Starts →
    t.step.left? depth = some u → Spends u (n + 1)
  /-- A call loads a fresh budget. -/
  | reloaded {t u : Interpreter} {n depth : Nat} : Spends t n → t.Reloads →
    t.step.left? depth = some u → Spends u 0
  | passed {t u : Interpreter} {n depth : Nat} : Spends t n → ¬ t.Starts → ¬ t.Reloads →
    t.step.left? depth = some u → Spends u n
  /-- A program is given up where it stands. -/
  | stopped {t : Interpreter} {n : Nat} (depth : Nat) : Spends t n →
    Spends (t.unwind depth).clear n
  | surroundings {t : Interpreter} {n : Nat} (streams : Streams) (files : Files) (clock : Clock)
    (log : Log) (args : List String) (traceAll : Bool) : Spends t n →
    Spends { t with session := { t.session with streams, files, clock, log, args, traceAll } } n
  | setProp {t : Interpreter} {n : Nat} {session : Session} (name : String) (value : Int) :
    Spends t n → t.session.setProp name value = .ok session →
    Spends { t with session } (if name = Property.execCount.name then 0 else n)
  | resetProps {t : Interpreter} {n : Nat} : Spends t n →
    Spends { t with session := t.session.resetProps } 0
  | rebind {t : Interpreter} {n : Nat} {m : MetaChars} (chars : String) : Spends t n →
    t.session.chars.rebind chars = .ok m →
    Spends { t with session := { t.session with chars := m } } n

/-- A call that is started is within the budget, and is counted. -/
theorem execs_of_starts {depth : Nat} (h : t.Starts) (hleft : t.step.left? depth = some u) :
    t.session.execs < t.session.props.execCount ∧ u.session.execs = t.session.execs + 1 ∧
      u.session.props = t.session.props := by
  obtain ⟨⟨active, hahead⟩, hnever⟩ := h
  have hstep := step_of_callAhead hahead
  rw [beginCall_eq] at hstep
  split at hstep
  · exact absurd hstep (hnever _ _)
  · rename_i hbudget
    have hbudget := Nat.lt_of_not_le hbudget
    split at hstep
    · rw [hstep] at hleft
      obtain rfl := Option.some.inj hleft
      exact ⟨hbudget, rfl, rfl⟩
    · rw [hstep] at hleft
      obtain rfl := Option.some.inj hleft
      exact ⟨hbudget, rfl, rfl⟩

/-- A call that loads a fresh budget clears what is counted. -/
theorem execs_of_reloads {depth : Nat} (h : t.Reloads) (hleft : t.step.left? depth = some u) :
    u.session.execs = 0 := by
  obtain ⟨f, outer, v, hhalt, hcompleted, hreloads, hstep, hcalls⟩ := h
  obtain ⟨call, hopen⟩ := calls_of_completed? hcompleted
  rw [hstep] at hleft
  obtain rfl := Option.some.inj hleft
  -- Of all that a step can do, only carrying out a call leaves one call less.
  cases goesOn_of_step hstep with
  | passed _ _ hsame =>
    have hlength := congrArg (·.items.length) hsame
    simp [hopen, hcalls] at hlength
  | collected _ _ hbefore hadded =>
    have hlength := congrArg List.length (hopen.symm.trans hbefore)
    rw [← hcalls, hadded] at hlength
    simp at hlength
  | givenUp _ hasked => exact absurd hhalt hasked
  | begun _ _ _ _ hpushed =>
    have hlength := congrArg List.length hpushed
    simp only [hopen, hcalls, List.length_cons] at hlength
    omega
  | carriedOut _ hdue hinvoke =>
    obtain ⟨-, c, around, -, -, hdone, -⟩ := callDue?_eq_some_iff.mp hdue
    obtain ⟨rfl, -⟩ := Prod.mk.inj (Option.some.inj (hcompleted.symm.trans hdone))
    have hbudget := Action.budget_of_invoke hinvoke
    rw [if_pos hreloads] at hbudget
    exact hbudget

/-- Any other step keeps the budget and what is counted. -/
theorem execs_of_passed {depth : Nat} (hstarts : ¬ t.Starts) (hreloads : ¬ t.Reloads)
    (hleft : t.step.left? depth = some u) :
    u.session.execs = t.session.execs ∧
      u.session.props.execCount = t.session.props.execCount := by
  cases hstep : t.step with
  | next v =>
    rw [hstep] at hleft
    obtain rfl := Option.some.inj hleft
    cases goesOn_of_step hstep with
    | passed _ hsession => exact ⟨congrArg _ hsession, congrArg (·.props.execCount) hsession⟩
    | collected _ hsession => exact ⟨congrArg _ hsession, congrArg (·.props.execCount) hsession⟩
    | givenUp _ _ hsession => exact ⟨congrArg _ hsession, congrArg (·.props.execCount) hsession⟩
    | begun hahead => exact absurd ⟨⟨_, hahead⟩, by simp [hstep]⟩ hstarts
    | carriedOut _ hdue hinvoke hcalls =>
      -- A call that asks for a fresh budget and goes on would be a reload.
      have hbudget := Action.budget_of_invoke hinvoke
      rw [if_neg fun hfresh => hreloads (reloads_of_due hstep hdue hcalls hfresh)] at hbudget
      exact hbudget
  | finished v =>
    obtain ⟨-, -, rfl⟩ := finished_of_step hstep
    rw [hstep] at hleft
    obtain rfl := Option.some.inj hleft
    exact ⟨rfl, rfl⟩
  | raised e v =>
    rw [hstep] at hleft
    obtain rfl := Option.some.inj hleft
    show v.session.execs = _ ∧ v.session.props.execCount = _
    cases fails_of_step hstep with
    | inText _ _ hsession => exact ⟨congrArg _ hsession, congrArg (·.props.execCount) hsession⟩
    | spent _ _ _ hsame =>
      rw [hsame]
      exact ⟨rfl, rfl⟩
    | tooDeep hahead _ _ he => exact absurd ⟨⟨_, hahead⟩, by simp [hstep, he]⟩ hstarts
    | missed _ _ _ _ hsession =>
      exact ⟨congrArg _ hsession, congrArg (·.props.execCount) hsession⟩
    | inCall _ _ hinvoke => exact Action.budget_of_invoke_error hinvoke
  | fault =>
    rw [hstep] at hleft
    cases hleft

/-! ## The counter -/

/-- The counter holds the number of calls, which the budget allows, and the budget is in its range.
-/
structure Balanced (t : Interpreter) (n : Nat) : Prop where
  counted : t.session.execs = n
  within : n ≤ t.session.props.execCount
  inRange : t.session.props.InRange

/-- A step keeps the properties in their ranges. -/
theorem inRange_of_left {depth : Nat} (h : t.session.props.InRange)
    (hleft : t.step.left? depth = some u) : u.session.props.InRange := by
  have hkeeps : ∀ {v : Interpreter}, Follows t.session v.session → v.session.props.InRange :=
    fun hfollows => Session.invariant_inRange.follows hfollows h
  cases hstep : t.step with
  | next v =>
    rw [hstep] at hleft
    obtain rfl := Option.some.inj hleft
    exact hkeeps (goesOn_of_step hstep).follows
  | finished v =>
    obtain ⟨-, -, rfl⟩ := finished_of_step hstep
    rw [hstep] at hleft
    obtain rfl := Option.some.inj hleft
    exact h
  | raised e v =>
    rw [hstep] at hleft
    obtain rfl := Option.some.inj hleft
    exact hkeeps (v := v) (fails_of_step hstep).follows
  | fault =>
    rw [hstep] at hleft
    cases hleft

/-- The counter is the number of calls that have been started since the budget was last loaded. -/
theorem Spends.balanced (h : t.Spends n) : t.Balanced n := by
  induction h with
  | start streams files clock log => exact ⟨rfl, Nat.zero_le _, Properties.inRange_initial⟩
  | load text _ ih => exact ⟨ih.counted, ih.within, ih.inRange⟩
  | started _ hstarts hleft ih =>
    obtain ⟨hbudget, hexecs, hprops⟩ := execs_of_starts hstarts hleft
    have hcounted := ih.counted
    refine ⟨by omega, ?_, inRange_of_left ih.inRange hleft⟩
    rw [hprops]
    omega
  | reloaded _ hreloads hleft ih =>
    exact ⟨execs_of_reloads hreloads hleft, Nat.zero_le _, inRange_of_left ih.inRange hleft⟩
  | passed _ hstarts hreloads hleft ih =>
    obtain ⟨hexecs, hcount⟩ := execs_of_passed hstarts hreloads hleft
    refine ⟨hexecs.trans ih.counted, ?_, inRange_of_left ih.inRange hleft⟩
    rw [hcount]
    exact ih.within
  | stopped depth _ ih => exact ⟨ih.counted, ih.within, ih.inRange⟩
  | surroundings streams files clock log args traceAll _ ih =>
    exact ⟨ih.counted, ih.within, ih.inRange⟩
  | @setProp t n session name value _ hset ih =>
    obtain ⟨p, rfl, hallows, rfl⟩ := Session.eq_of_setProp hset
    -- Only the property that is the budget loads a fresh one.
    by_cases hbudget : p.name = Property.execCount.name
    · rw [if_pos hbudget]
      exact ⟨if_pos (beq_iff_eq.mpr hbudget), Nat.zero_le _, ih.inRange.put hallows⟩
    · have hcount : (t.session.props.put p value).execCount = t.session.props.execCount := by
        cases p with
        | execCount => exact absurd rfl hbudget
        | _ => rfl
      rw [if_neg hbudget]
      refine ⟨(if_neg ?_).trans ih.counted, ?_, ih.inRange.put hallows⟩
      · simpa using hbudget
      · show n ≤ (t.session.props.put p value).execCount
        rw [hcount]
        exact ih.within
  | resetProps _ _ => exact ⟨rfl, Nat.zero_le _, Properties.inRange_initial⟩
  | rebind chars _ _ ih => exact ⟨ih.counted, ih.within, ih.inRange⟩

/-! ## Whole sessions -/

namespace Spends

/-- Whatever a step does, the calls can be counted on. -/
theorem left {depth : Nat} (h : t.Spends n) (hleft : t.step.left? depth = some u) : ∃ m, u.Spends m := by
  by_cases hstarts : t.Starts
  · exact ⟨n + 1, h.started hstarts hleft⟩
  · by_cases hreloads : t.Reloads
    · exact ⟨0, h.reloaded hreloads hleft⟩
    · exact ⟨n, h.passed hstarts hreloads hleft⟩

/-- Along a run every state has its number of calls. -/
theorem reaches (h : t.Spends n) (hu : t.Reaches u) : ∃ m, u.Spends m := by
  induction hu with
  | refl => exact ⟨n, h⟩
  | next _ hstep ih =>
    obtain ⟨m, hm⟩ := ih
    have hleft : Step.left? 0 _ = some _ := congrArg (Step.left? 0) hstep
    exact hm.left hleft

/-- A program is evaluated, with any ending. -/
theorem evaluate (h : t.Spends n) (fuel : Nat) (text : String) :
    ∃ m, (t.evaluate fuel text).2.Spends m := by
  rcases left_of_evaluate fuel t text with hleft | ⟨v, hv, hleft | hleft⟩
  · rw [hleft, ← t.unwind_depth]
    exact ⟨n, h.stopped _⟩
  · obtain ⟨m, hm⟩ := (h.load text).reaches hv
    exact hm.left hleft
  · obtain ⟨m, hm⟩ := (h.load text).reaches hv
    rw [hleft]
    exact ⟨m, hm.stopped _⟩

/-- A text is printed between programs. -/
theorem act_print (h : t.Spends n) (output : Output) (text : String) :
    (t.act (Action.print output text)).2.Spends n := by
  unfold act Action.print
  cases (t.session.streams.get output).writable with
  | error e => exact h
  | ok _ => exact h.surroundings _ _ t.session.clock t.session.log t.session.args t.session.traceAll

/-- A program is read. -/
theorem act_readStdin {α : Type} (h : t.Spends n) (reader : Files → Stream.Reader α) :
    (t.act (Action.readStdin reader)).2.Spends n := by
  unfold act Action.readStdin
  cases reader t.session.files t.session.streams.stdin with
  | error e stdin =>
    exact h.surroundings _ t.session.files t.session.clock t.session.log t.session.args
      t.session.traceAll
  | ok a stdin =>
    exact h.surroundings _ t.session.files t.session.clock t.session.log t.session.args
      t.session.traceAll

/-- A program is run and its output printed. -/
theorem runProgram (h : t.Spends n) (fuel : Nat) (text : String) :
    ∃ m, (t.runProgram fuel text).2.Spends m := by
  obtain ⟨m, hm⟩ := h.evaluate fuel text
  unfold Interpreter.runProgram
  split
  · rename_i outcome left heval
    rw [heval] at hm
    split
    · have hprinted := hm.act_print .stdout outcome.output
      split
      · rename_i hact
        rw [hact] at hprinted
        exact ⟨m, hprinted⟩
      · rename_i hact
        rw [hact] at hprinted
        split
        · exact ⟨m, hprinted⟩
        · exact ⟨m, hprinted⟩
    · exact ⟨m, hm⟩
  · rename_i heval
    rw [heval] at hm
    exact ⟨m, hm⟩
  · rename_i heval
    rw [heval] at hm
    exact ⟨m, hm⟩
  · rename_i heval
    rw [heval] at hm
    exact ⟨m, hm⟩

/-- Programs are read and evaluated one after another. -/
theorem interactFor (h : t.Spends n) (fuel programs : Nat) :
    ∃ m, (t.interactFor fuel programs).2.Spends m := by
  -- The number is generalised, since each program goes on with the count of those before it.
  induction programs generalizing t n with
  | zero => exact ⟨n, h⟩
  | succ programs ih =>
    have hread := h.act_readStdin (Stream.readUntil · t.session.chars.readEnd)
    unfold Interpreter.interactFor
    split
    · rename_i hact
      rw [hact] at hread
      exact ⟨n, hread⟩
    · rename_i hact
      rw [hact] at hread
      exact ⟨n, hread⟩
    · rename_i program u hact
      rw [hact] at hread
      obtain ⟨m, hm⟩ := hread.runProgram fuel program
      split
      · rename_i hrun
        rw [hrun] at hm
        exact ⟨m, hm⟩
      · rename_i hrun
        rw [hrun] at hm
        exact ih hm
      · rename_i failure v hrun
        rw [hrun] at hm
        have hreported := hm.act_print .stderr (failure.report ++ "\n")
        split
        · rename_i hprint
          rw [hprint] at hreported
          exact ih hreported
        · rename_i hprint
          rw [hprint] at hreported
          exact ⟨m, hreported⟩
      · rename_i hrun
        rw [hrun] at hm
        exact ⟨m, hm⟩
      · rename_i hrun
        rw [hrun] at hm
        exact ⟨m, hm⟩

end Spends

/-- The budget is exact. At every moment of a session the counter is the number of calls that have
been started since the budget was last loaded, over all programs since then; it is within the budget
and fits a word. A call that starts is started as long as there is budget left, and else fails with
the budget as its limit while nothing at all is changed. Programs may be evaluated, run or read one
after another at any time, and are counted on. -/
theorem spends_budget (h : t.Spends n) :
    t.session.execs = n ∧ n ≤ t.session.props.execCount ∧ t.session.execs < UInt64.size ∧
    (∀ active, t.callAhead? = some active →
      (n < t.session.props.execCount → t.Starts) ∧
      (t.session.props.execCount ≤ n →
        t.step = .raised (.execsExhausted t.session.props.execCount) t)) ∧
    ∀ fuel, (∀ text, ∃ m, (t.evaluate fuel text).2.Spends m) ∧
      (∀ text, ∃ m, (t.runProgram fuel text).2.Spends m) ∧
      ∃ m, (t.interact fuel).2.Spends m := by
  have hcounted := h.balanced.counted
  have hwithin := h.balanced.within
  refine ⟨hcounted, hwithin, ?_, ?_, ?_⟩
  · have hallowed := Bool.and_eq_true_iff.mp (h.balanced.inRange .execCount)
    have hgreatest : t.session.props.execCountValue ≤ 9223372036854775807 :=
      of_decide_eq_true hallowed.2
    have hcount : t.session.props.execCount ≤ 9223372036854775807 := Int.toNat_le.mpr hgreatest
    have hsize : 9223372036854775807 < UInt64.size := by decide
    omega
  · intro active hahead
    have hstep := step_of_callAhead hahead
    rw [beginCall_eq] at hstep
    constructor
    · intro hleft
      rw [if_neg (by omega)] at hstep
      refine ⟨⟨active, hahead⟩, fun limit u hraised => ?_⟩
      rw [hraised] at hstep
      split at hstep
      · simp at hstep
      · simp at hstep
    · intro hspent
      rw [if_pos (by omega)] at hstep
      exact hstep
  · intro fuel
    exact ⟨h.evaluate fuel, h.runProgram fuel, h.interactFor fuel _⟩

/-- An interpreter that may make two calls. -/
def thrifty : Interpreter :=
  { fresh with session := { fresh.session with props := fresh.session.props.put .execCount 2 } }

/-- It makes one in a first program and one in a second, where the third is refused. -/
theorem spends_budget_thrifty :
    let t := (thrifty.evaluate 20 "#<names>").2.load "#<#<"
    t.Spends 1 ∧ ∃ u, t.step = .next u ∧ u.Spends 2 ∧ u.step = .raised (.execsExhausted 2) u := by
  have hfresh : fresh.Spends 0 := .start _ _ _ _
  have hset : fresh.session.setProp Property.execCount.name 2 = .ok thrifty.session := rfl
  have hthrifty : thrifty.Spends 0 := hfresh.setProp Property.execCount.name 2 hset
  obtain ⟨m, hevaluated⟩ := ((spends_budget hthrifty).2.2.2.2 20).1 "#<names>"
  have hexecs : (thrifty.evaluate 20 "#<names>").2.session.execs = 1 := by decide +kernel
  obtain rfl : m = 1 := (spends_budget hevaluated).1.symm.trans hexecs
  refine ⟨hevaluated.load "#<#<", ?_⟩
  have hloaded := hevaluated.load "#<#<"
  generalize hstate : (thrifty.evaluate 20 "#<names>").2.load "#<#<" = t at hloaded
  have hfacts : t.calls.items.length < t.session.props.stackSize ∧
      always (fun u => u.callAhead? == some true && u.session.props.execCount == 2) 2 t = true := by
    rw [← hstate]
    decide +kernel
  obtain ⟨hroom, halways⟩ := hfacts
  have hboth : ∀ u, t.Reaches u → u.callAhead? = some true ∧ u.session.props.execCount = 2 := by
    intro u hu
    simpa using hu.of_always halways
  obtain ⟨hahead, hcount⟩ := hboth t .refl
  have hstarts : t.Starts :=
    ((spends_budget hloaded).2.2.2.1 true hahead).1 (by rw [hcount]; decide)
  -- The second call is begun, and the third is met next.
  have hexecs' : t.session.execs = 1 := (spends_budget hloaded).1
  have hstep := step_of_callAhead hahead
  rw [beginCall_eq, if_neg (by omega), if_neg (by omega)] at hstep
  obtain ⟨hahead', hcount'⟩ := hboth _ (.next .refl hstep)
  have hspent := hloaded.started hstarts (congrArg (Step.left? 0) hstep)
  have hrefused := ((spends_budget hspent).2.2.2.1 true hahead').2 (Nat.le_of_eq hcount')
  rw [hcount'] at hrefused
  exact ⟨_, hstep, hspent, hrefused⟩

end Interpreter

end TextMacro
