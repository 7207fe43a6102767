import TextMacro.Proofs.DefinedStrings
import TextMacro.Proofs.Steps

/-!
# Tracing does not change what programs do

Two interpreters are alike when they are the same with the tracing taken out (`Interpreter.Alike`).
Carrying out a call reads whether it is traced, but only reports more or less because of it
(`Action.silenced_invoke`). So a step leads from alike states to alike ones (`Alike.step`), a run does
(`Alike.run`), and a program comes to the same outcome or failure. A call that succeeds is reported by
no message or by two, one behind the other, so the traces of a program that succeeds are pairs
(`Reaches.paired`). The theorem is `tracing_is_invisible`.
-/

namespace TextMacro

/-! ## Pairs of messages -/

/-- A call that was traced. -/
structure TracedCall where
  /-- The number of calls in progress. -/
  depth : Nat
  frame : Frame
  /-- The meta characters by which the call is shown. -/
  chars : MetaChars
  /-- The text that the call yielded. -/
  text : String

/-- The traces of a call: one when it is carried out, and one behind it with what it yielded. -/
def TracedCall.messages (call : TracedCall) : List Event :=
  [.callEntered call.depth (call.frame.render call.chars),
    .callLeft call.depth call.frame.name call.text]

/-- The traces that were added to a log are pairs of messages, each of one call. -/
def Log.Paired (log log' : Log) : Prop :=
  log'.filter = log.filter ∧
    ∃ calls : List TracedCall, log'.traces = log.traces ++ calls.flatMap TracedCall.messages

/-- A filter chooses both messages of a call or neither. -/
theorem Filter.allows_callLeft (filter : Filter) (depth : Nat) (call name text : String) :
    filter.allows (.callLeft depth name text) = filter.allows (.callEntered depth call) := by
  -- Both have the same topic, no fields and the same severity.
  have hrank : ∀ (directives : List Directive) (best : Option Best),
      rankFrom (.callLeft depth name text) best directives
        = rankFrom (.callEntered depth call) best directives := by
    intro directives
    induction directives with
    | nil => exact fun _ => rfl
    | cons directive directives ih =>
      intro best
      cases directive with
      | inert => exact ih best
      | upTo topic field rank => exact ih _
  exact congrArg (fun rank => decide (3 ≤ rank)) (hrank filter.directives none)

namespace Log

variable {log log' log'' : Log}

/-- Where no traces are added, there are pairs of none. -/
theorem SameTraces.paired (h : log.SameTraces log') : log.Paired log' :=
  ⟨h.1, [], by rw [h.2, List.flatMap_nil, List.append_nil]⟩

/-- Pairs can follow pairs. -/
theorem Paired.trans (h : log.Paired log') (h' : log'.Paired log'') : log.Paired log'' := by
  obtain ⟨hfilter, calls, htraces⟩ := h
  obtain ⟨hfilter', calls', htraces'⟩ := h'
  refine ⟨hfilter'.trans hfilter, calls ++ calls', ?_⟩
  rw [htraces', htraces, List.flatMap_append, List.append_assoc]

/-- A call is reported before and behind something that reports no traces itself. -/
theorem Paired.of_call (call : TracedCall) (printed printed' : Nat)
    (h : (log.record printed (.callEntered call.depth (call.frame.render call.chars))).SameTraces
      log') :
    log.Paired (log'.record printed' (.callLeft call.depth call.frame.name call.text)) := by
  have hfilter : log'.filter = log.filter := h.1.trans (log.filter_record _ _)
  refine ⟨(log'.filter_record _ _).trans hfilter, ?_⟩
  rw [log'.traces_record_of_trace printed' rfl, h.2, log.traces_record_of_trace printed rfl,
    hfilter, log.filter.allows_callLeft _ (call.frame.render call.chars), List.append_assoc]
  cases log.filter.allows (.callEntered call.depth (call.frame.render call.chars)) with
  | false => exact ⟨[], rfl⟩
  | true => exact ⟨[call], rfl⟩

end Log

/-! ## Calls -/

namespace Action

variable {s s' : Session} {f : Frame} {depth : Nat}

/-- Actions that come to the same up to tracing, and are followed by actions that do. -/
theorem silenced_bind {α β : Type} {a b : Action α} {g g' : α → Action β}
    (h : silenced (a s) = silenced (b s'))
    (hnext : ∀ x t t', t.silent = t'.silent → silenced (g x t) = silenced (g' x t')) :
    silenced ((a >>= g) s) = silenced ((b >>= g') s') := by
  show silenced (EStateM.bind a g s) = silenced (EStateM.bind b g' s')
  unfold EStateM.bind
  cases ha : a s with
  | ok x t =>
    cases hb : b s' with
    | ok y t' =>
      rw [ha, hb] at h
      obtain ⟨rfl, ht⟩ : x = y ∧ t.silent = t'.silent := by simpa [silenced] using h
      exact hnext x t t' ht
    | error e t' =>
      rw [ha, hb] at h
      cases h
  | error e t =>
    cases hb : b s' with
    | ok y t' =>
      rw [ha, hb] at h
      cases h
    | error e' t' =>
      -- What follows is left out on both sides.
      rw [ha, hb] at h
      obtain ⟨rfl, ht⟩ : e = e' ∧ t.silent = t'.silent := by simpa [silenced] using h
      exact congrArg (EStateM.Result.error e) ht

/-- Behind what a function means comes the second report. -/
theorem invoke_eq_bind {function : Function} (depth : Nat)
    (hfunction : s.dict.function? f.name = some function) (hmany : function.minArgs ≤ f.argc) :
    invoke depth f s =
      (perform function.meaning f >>= fun text t => .ok (function.disposition, text)
        (if s.traceAll || function.traced then t.report (.callLeft depth f.name text) else t))
      (if s.traceAll || function.traced then s.report (.callEntered depth (f.render s.chars))
        else s) := by
  rw [invoke_eq depth hfunction hmany]
  show _ = EStateM.bind _ _ _
  unfold EStateM.bind
  dsimp only
  split
  · rename_i hperform
    rw [hperform]
  · rename_i hperform
    rw [hperform]

/-- A call comes to the same from a session and from the silent one, up to tracing. -/
theorem silenced_invoke (depth : Nat) (f : Frame) (s : Session) :
    silenced (invoke depth f s.silent) = silenced (invoke depth f s) := by
  have hsilent : s.silent.dict.function? f.name = (s.dict.function? f.name).map Function.silent :=
    s.dict.function?_silent f.name
  cases hfunction : s.dict.function? f.name with
  | none =>
    rw [hfunction] at hsilent
    rw [invoke_unbound depth hfunction, invoke_unbound depth hsilent]
    exact congrArg (EStateM.Result.error _) s.silent_silent
  | some function =>
    rw [hfunction] at hsilent
    by_cases hfew : f.argc < function.minArgs
    · rw [invoke_few depth hfunction hfew, invoke_few depth hsilent hfew]
      exact congrArg (EStateM.Result.error _) s.silent_silent
    · have hmany := Nat.le_of_not_lt hfew
      rw [invoke_eq_bind depth hfunction hmany, invoke_eq_bind depth hsilent hmany]
      -- The silent session reports nothing, and what the other reports is taken out again.
      have hentered : (if s.traceAll || function.traced
          then s.report (.callEntered depth (f.render s.chars)) else s).silent = s.silent :=
        s.silent_report_if _ rfl
      have hperform := (within_perform hsilent f).silenced_eq (s.silent_silent.trans hentered.symm)
      refine silenced_bind hperform fun text t t' ht => ?_
      refine congrArg (EStateM.Result.ok (function.disposition, text)) ?_
      exact ht.trans (t'.silent_report_if _ rfl).symm

/-- A call that succeeds adds a pair of messages to the traces, or none. -/
theorem paired_of_invoke {result : Disposition × String} (h : invoke depth f s = .ok result s') :
    s.log.Paired s'.log := by
  obtain ⟨function, text, left, hfunction, hperform, -, rfl⟩ := exists_of_invoke h
  rw [← dict_report_if (s.traceAll || function.traced) (.callEntered depth (f.render s.chars))]
    at hfunction
  have hsame := (within_perform hfunction f).sameTraces
  rw [hperform] at hsame
  cases htraced : s.traceAll || function.traced with
  | false =>
    rw [htraced] at hsame
    exact hsame.paired
  | true =>
    rw [htraced] at hsame
    exact .of_call ⟨depth, f, s.chars, text⟩ _ _ hsame

end Action

/-! ## Steps -/

/-- The interpreter in whose session nothing is traced and nothing was. -/
def Interpreter.silent (t : Interpreter) : Interpreter := { t with session := t.session.silent }

/-- The outcome of a step, with the tracing taken out. -/
def Step.silent : Step → Step
  | .next t => .next t.silent
  | .finished t => .finished t.silent
  | .raised e t => .raised e t.silent
  | .fault => .fault

namespace Interpreter

variable {t u : Interpreter}

/-- Two interpreters are the same but for what is traced and the traces in their logs: their
programs, calls, streams, files, properties and all other messages are the same, and so are their
dictionaries up to which entries are traced. -/
def Alike (t u : Interpreter) : Prop := t.silent = u.silent

/-- The tracing can be taken out only once. -/
@[simp]
theorem silent_silent (t : Interpreter) : t.silent.silent = t.silent := by
  unfold silent
  dsimp only
  rw [Session.silent_silent]

/-- A movement in the text is the same without the tracing. -/
theorem silent_move (t : Interpreter) (movement : Zones → Progress) :
    (t.silent.move movement).silent = (t.move movement).silent := by
  have hzones : t.silent.zones = t.zones := rfl
  rw [move_eq, move_eq, hzones]
  cases movement t.zones with
  | moved zones => exact congrArg Step.next (silent_silent { t with zones })
  | failed e zones => exact congrArg (Step.raised e) (silent_silent { t with zones })
  | fault => rfl

/-- A call begins in the same way without the tracing. -/
theorem silent_beginCall (t : Interpreter) (current : MetaChars) (active : Bool) :
    (t.silent.beginCall current active).silent = (t.beginCall current active).silent := by
  obtain ⟨session, zones, calls, lists⟩ := t
  rw [beginCall_eq, beginCall_eq]
  dsimp only [silent]
  show Step.silent (if session.props.execCount ≤ session.execs then _
    else if session.props.stackSize ≤ calls.items.length then _ else _) = _
  split
  · exact congrArg (Step.raised _) (silent_silent ⟨session, zones, calls, lists⟩)
  · split
    · exact congrArg (Step.raised _) (silent_silent ⟨{ session with execs := _ }, _, calls, lists⟩)
    · have hreport : ∀ e : Event, e.isTrace = false →
          ({ session.silent with execs := session.execs + 1 }.report e).silent
            = ({ session with execs := session.execs + 1 }.report e).silent := by
        intro e he
        rw [Session.silent_report _ he, Session.silent_report _ he]
        exact congrArg (Session.report · e)
          (Session.silent_silent { session with execs := session.execs + 1 })
      exact congrArg (fun session => Step.next ⟨session, _, _, _⟩) (hreport _ rfl)

/-- The step that a call ends with, by what the call has come to. Behind it the calls of `frames` are
in progress. -/
def placed (t : Interpreter) (frames : List Frame) (active : Bool) (outer : List ArgumentList) :
    EStateM.Result Error Session (Disposition × String) → Step
  | .error e session => .raised e { t with session }
  | .ok (disposition, text) session =>
    if disposition = .sideEffect || text.isEmpty then .next ⟨session, t.zones, ⟨frames⟩, outer⟩
    else
      match t.zones.splice? text.toUTF8 active with
      | none => .fault
      | some zones => .next ⟨session, zones, ⟨frames⟩, outer⟩

/-- A completed call is carried out, and its result placed. -/
theorem finishCall_eq_placed {frame : Frame} {frames : List Frame}
    (hcalls : t.calls.items = frame :: frames) (active : Bool) (outer : List ArgumentList) :
    t.finishCall active outer
      = t.placed frames active outer (Action.invoke (frames.length + 1) frame t.session) := by
  rw [finishCall_eq, hcalls]
  rfl

/-- Where the text of a call is placed does not depend on the session that it has left. -/
theorem silent_placed (t : Interpreter) (frames : List Frame) (active : Bool)
    (outer : List ArgumentList) (result : EStateM.Result Error Session (Disposition × String)) :
    (t.placed frames active outer (Action.silenced result)).silent
      = (t.placed frames active outer result).silent := by
  cases result with
  | error e left => exact congrArg (Step.raised e) (silent_silent { t with session := left })
  | ok result left =>
    unfold placed Action.silenced
    dsimp only
    split
    · exact congrArg Step.next (silent_silent ⟨left, t.zones, ⟨frames⟩, outer⟩)
    · split
      · rfl
      · exact congrArg Step.next (silent_silent ⟨left, _, ⟨frames⟩, outer⟩)

/-- A completed call comes to the same without the tracing. -/
theorem silent_finishCall (t : Interpreter) (active : Bool) (outer : List ArgumentList) :
    (t.silent.finishCall active outer).silent = (t.finishCall active outer).silent := by
  cases hcalls : t.calls.items with
  | nil =>
    have hsilent : t.silent.calls.items = [] := hcalls
    rw [finishCall_eq, finishCall_eq, hcalls, hsilent]
    exact congrArg (Step.raised _) t.silent_silent
  | cons frame frames =>
    have hsilent : t.silent.calls.items = frame :: frames := hcalls
    rw [finishCall_eq_placed hcalls, finishCall_eq_placed hsilent, ← silent_placed t.silent]
    rw [show t.silent.session = t.session.silent from rfl, Action.silenced_invoke]
    exact silent_placed t frames active outer _

/-- A completed argument comes to the same without the tracing. -/
theorem silent_finishArgument (t : Interpreter) (list : ArgumentList) (outer : List ArgumentList)
    (width : Nat) (closes : Bool) :
    (t.silent.finishArgument list outer width closes).silent
      = (t.finishArgument list outer width closes).silent := by
  have hcalls : t.silent.calls = t.calls := rfl
  have hzones : t.silent.zones = t.zones := rfl
  rw [finishArgument_eq, finishArgument_eq, hcalls, hzones]
  split
  · rfl
  · split
    · exact congrArg (Step.raised _) t.silent_silent
    · exact congrArg (Step.raised _) t.silent_silent
    · rename_i text frame frames _ _
      split
      · exact congrArg (Step.raised _) t.silent_silent
      · -- The interpreter whose call has the argument, silent or not.
        let added : Interpreter := ⟨t.session, { t.zones with passive := list.start }.skip width,
          ⟨frame.push text :: frames⟩, t.lists⟩
        dsimp only
        split
        · exact silent_finishCall added list.active outer
        · exact congrArg Step.next added.silent_silent

/-- A call is given up in the same way without the tracing. -/
theorem silent_giveUp (t : Interpreter) (list : ArgumentList) (outer : List ArgumentList) :
    (t.silent.giveUp list outer).silent = (t.giveUp list outer).silent := by
  have hcalls : t.silent.calls = t.calls := rfl
  have hzones : t.silent.zones = t.zones := rfl
  rw [giveUp_eq, giveUp_eq, hcalls, hzones]
  split
  · exact congrArg (Step.raised _)
      (silent_silent { t with zones := { t.zones with passive := list.start } })
  · exact congrArg Step.next
      (silent_silent ⟨t.session, { t.zones with passive := list.start }, ⟨_⟩, outer⟩)

/-- Whatever the next unit is, it is scanned in the same way without the tracing. -/
theorem silent_scanUnit (t : Interpreter) (m current : MetaChars) (u : TextUnit) :
    (t.silent.scanUnit m current u).silent = (t.scanUnit m current u).silent := by
  have hlists : t.silent.lists = t.lists := rfl
  have hzones : t.silent.zones = t.zones := rfl
  unfold scanUnit
  rw [hlists, hzones]
  split
  · split
    · exact silent_move t _
    · exact silent_move t _
    · exact silent_finishArgument t _ _ _ _
    · exact silent_finishArgument t _ _ _ _
    · split
      · exact congrArg (Step.raised _) t.silent_silent
      · exact silent_beginCall t _ _
      · exact silent_move t _
    · exact silent_move t _
  · exact silent_move t _

/-- A step comes to the same from an interpreter and from the silent one, up to tracing. -/
theorem silent_step (t : Interpreter) : t.silent.step.silent = t.step.silent := by
  have hlists : t.silent.lists = t.lists := rfl
  have hzones : t.silent.zones = t.zones := rfl
  have hhalt : t.silent.session.halt = t.session.halt := rfl
  have hchars : t.silent.session.chars = t.session.chars := rfl
  unfold step
  rw [hlists, hzones, hhalt, hchars]
  split
  · split
    · exact congrArg Step.finished t.silent_silent
    · split
      · exact congrArg (Step.raised _) t.silent_silent
      · exact congrArg Step.finished t.silent_silent
      · exact silent_scanUnit t _ _ _
  · split
    · exact silent_giveUp t _ _
    · split
      · exact congrArg (Step.raised _) t.silent_silent
      · exact congrArg (Step.raised _) t.silent_silent
      · exact silent_scanUnit t _ _ _

/-- Steps of interpreters that are alike come to the same, up to tracing. -/
theorem Alike.step (h : t.Alike u) : t.step.silent = u.step.silent :=
  calc t.step.silent = t.silent.step.silent := t.silent_step.symm
    _ = u.silent.step.silent := by rw [show t.silent = u.silent from h]
    _ = u.step.silent := u.silent_step

/-! ## Runs -/

/-- The end of a number of steps, with the tracing taken out. -/
def Rest.silent : Rest → Rest
  | .finished t => .finished t.silent
  | .raised e t => .raised e t.silent
  | .fault => .fault
  | .unfinished t => .unfinished t.silent

/-- How a run goes on behind a step. -/
def Rest.after (fuel : Nat) : Step → Rest
  | .next t => Interpreter.run fuel t
  | .finished t => .finished t
  | .raised e t => .raised e t
  | .fault => .fault

/-- A run begins with a step. -/
theorem run_succ (fuel : Nat) (t : Interpreter) : run (fuel + 1) t = .after fuel t.step := by
  unfold Interpreter.run
  cases t.step with
  | next u => rfl
  | finished u => rfl
  | raised e u => rfl
  | fault => rfl

/-- Runs of interpreters that are alike come to the same, up to tracing. -/
theorem Alike.run (h : t.Alike u) (fuel : Nat) : (run fuel t).silent = (run fuel u).silent := by
  induction fuel generalizing t u with
  | zero => exact congrArg Rest.unfinished h
  | succ fuel ih =>
    have hafter : ∀ step : Step, (Rest.after fuel step.silent).silent
        = (Rest.after fuel step).silent := by
      intro step
      cases step with
      | next v => exact ih v.silent_silent
      | finished v => exact congrArg Rest.finished v.silent_silent
      | raised e v => exact congrArg (Rest.raised e) v.silent_silent
      | fault => rfl
    -- What comes behind a step depends on the step only up to tracing, so the steps may be
    -- exchanged for each other.
    rw [run_succ, run_succ]
    calc (Rest.after fuel t.step).silent = (Rest.after fuel t.step.silent).silent :=
          (hafter t.step).symm
      _ = (Rest.after fuel u.step.silent).silent := by rw [h.step]
      _ = (Rest.after fuel u.step).silent := hafter u.step

/-- The traces of steps that lead from one state to another are pairs. -/
theorem Reaches.paired (h : t.Reaches u) : t.session.log.Paired u.session.log := by
  induction h with
  | refl => exact (Log.SameTraces.refl _).paired
  | @next v w _ hstep ih =>
    refine ih.trans ?_
    cases goesOn_of_step hstep with
    | passed _ hsession =>
      rw [hsession]
      exact (Log.SameTraces.refl _).paired
    | collected _ hsession =>
      rw [hsession]
      exact (Log.SameTraces.refl _).paired
    | givenUp _ _ hsession =>
      rw [hsession]
      exact (Log.SameTraces.refl _).paired
    | begun _ _ _ hsession =>
      rw [hsession]
      exact (v.session.log.sameTraces_record _ rfl).paired
    | carriedOut _ _ hinvoke => exact Action.paired_of_invoke hinvoke

/-! ## Programs -/

/-- What a program that was started from `t` comes to where its run has ended. -/
def concluded (t : Interpreter) : Rest → Ending Failure Outcome × Interpreter
  | .finished u =>
    match u.doneText? with
    | some output => (.ok ⟨output, u.session.halt⟩, u.clear)
    | none => (.fault, u.clear)
  | .raised e u =>
    match u.failure? e with
    | some failure => (.error failure, (u.unwind t.calls.depth).clear)
    | none => (.fault, (u.unwind t.calls.depth).clear)
  | .fault => (.fault, t.clear)
  | .unfinished u => (.unfinished, (u.unwind t.calls.depth).clear)

/-- A program comes to what its run is concluded with. -/
theorem evaluate_eq_concluded (fuel : Nat) (t : Interpreter) (text : String) :
    t.evaluate fuel text = t.concluded (run fuel (t.load text)) := rfl

/-- What is read off where a run has ended is not the tracing. -/
theorem concluded_silent (t : Interpreter) (rest : Rest) :
    (t.silent.concluded rest.silent).1 = (t.concluded rest).1 ∧
      (t.silent.concluded rest.silent).2 = (t.concluded rest).2.silent := by
  have hclear : ∀ u : Interpreter, u.silent.clear = u.clear.silent := fun _ => rfl
  unfold concluded
  cases rest with
  | finished u =>
    have hdone : u.silent.doneText? = u.doneText? := rfl
    dsimp only [Rest.silent]
    rw [hdone]
    cases u.doneText? with
    | some output => exact ⟨rfl, hclear u⟩
    | none => exact ⟨rfl, hclear u⟩
  | raised e u =>
    have hfailure : u.silent.failure? e = u.failure? e := rfl
    dsimp only [Rest.silent]
    rw [hfailure]
    cases u.failure? e with
    | some failure => exact ⟨rfl, hclear (u.unwind t.calls.depth)⟩
    | none => exact ⟨rfl, hclear (u.unwind t.calls.depth)⟩
  | fault => exact ⟨rfl, hclear t⟩
  | unfinished u => exact ⟨rfl, hclear (u.unwind t.calls.depth)⟩

/-- A program comes to the same in interpreters that are alike, and leaves them alike. -/
theorem Alike.evaluate (h : t.Alike u) (fuel : Nat) (text : String) :
    (t.evaluate fuel text).1 = (u.evaluate fuel text).1 ∧
      (t.evaluate fuel text).2.Alike (u.evaluate fuel text).2 := by
  have hload : (t.load text).Alike (u.load text) := congrArg (load · text) h
  have hrun := hload.run fuel
  obtain ⟨hending, hleft⟩ := t.concluded_silent (Interpreter.run fuel (t.load text))
  obtain ⟨hending', hleft'⟩ := u.concluded_silent (Interpreter.run fuel (u.load text))
  rw [hrun, show t.silent = u.silent from h] at hending hleft
  exact ⟨hending.symm.trans hending', hleft.symm.trans hleft'⟩

/-- The traces of a program that succeeds are pairs. -/
theorem paired_of_evaluate {fuel : Nat} {text : String} {outcome : Outcome}
    (h : (t.evaluate fuel text).1 = .ok outcome) :
    t.session.log.Paired (t.evaluate fuel text).2.session.log := by
  have hends := run_ends fuel (t.load text)
  rw [evaluate_eq_concluded] at h ⊢
  unfold concluded at h ⊢
  cases hrun : run fuel (t.load text) with
  | finished u =>
    -- A program ends where it stands, in a state that steps have led to.
    rw [hrun] at hends
    obtain ⟨v, hv, hstep⟩ := hends
    obtain ⟨-, -, rfl⟩ := finished_of_step hstep
    dsimp only
    split
    · exact hv.paired
    · exact hv.paired
  | raised e u =>
    rw [hrun] at h
    dsimp only at h
    split at h
    · cases h
    · cases h
  | fault =>
    rw [hrun] at h
    cases h
  | unfinished u =>
    rw [hrun] at h
    cases h

/-- The interpreter in which all calls are traced or not, and otherwise those of certain names. -/
def retraced (t : Interpreter) (all : Bool) (names : String → Bool) : Interpreter :=
  { t with session := { t.session with
      dict := t.session.dict.onFunctions
        (·.mapEntries fun name f => { f with traced := names name })
      traceAll := all } }

/-- Other things are traced, and nothing else is different. -/
theorem alike_retraced (t : Interpreter) (all : Bool) (names : String → Bool) :
    t.Alike (t.retraced all names) := by
  have hfunctions : (t.session.dict.functions.mapEntries fun name f =>
      { f with traced := names name }).map Function.silent
        = t.session.dict.functions.map Function.silent :=
    SymbolTable.map_mapEntries _ fun _ _ => rfl
  have hdict : (t.session.dict.onFunctions
      (·.mapEntries fun name f => { f with traced := names name })).silent
        = t.session.dict.silent :=
    congrArg (Dictionary.mk · t.session.dict.classes) hfunctions
  unfold Alike silent retraced Session.silent
  dsimp only
  rw [hdict]

/-- Tracing does not change what programs do. In interpreters that differ in nothing but what is
traced, and in the traces so far, every program comes to the same outcome or the same failure,
writes the same to the streams and the files and reads as much from them, and leaves interpreters
that again differ in nothing else. The traces of a program that succeeds are pairs of messages, in
each of which a call is followed directly by the end of the same call. -/
theorem tracing_is_invisible :
    (∀ t u : Interpreter, t.Alike u → ∀ (fuel : Nat) (text : String),
      (t.evaluate fuel text).1 = (u.evaluate fuel text).1 ∧
      (t.evaluate fuel text).2.session.streams = (u.evaluate fuel text).2.session.streams ∧
      (t.evaluate fuel text).2.session.files = (u.evaluate fuel text).2.session.files ∧
      (t.evaluate fuel text).2.Alike (u.evaluate fuel text).2) ∧
    ∀ (t : Interpreter) (fuel : Nat) (text : String) (outcome : Outcome),
      (t.evaluate fuel text).1 = .ok outcome →
        t.session.log.Paired (t.evaluate fuel text).2.session.log := by
  constructor
  · intro t u h fuel text
    obtain ⟨hending, hleft⟩ := h.evaluate fuel text
    have hstreams := congrArg (fun v : Interpreter => v.session.streams) hleft
    have hfiles := congrArg (fun v : Interpreter => v.session.files) hleft
    exact ⟨hending, hstreams, hfiles, hleft⟩
  · intro t fuel text outcome h
    exact paired_of_evaluate h

/-- An interpreter that reports traces, with which nothing has been done. -/
def listening : Interpreter :=
  ofSession (.start (.ofInput ByteArray.empty) .empty ⟨0, 0⟩ (.start ⟨[.upTo none none 3]⟩))

/-- The same where additions are traced. -/
def listeningToSums : Interpreter := listening.retraced false (· == "ad")

/-- An addition inside another. -/
def nestedSum : String := "#<ad;1;#<ad;2;3>>"

/-- The sum is the same whether additions are traced or not; where they are, the inner one is
reported first, and each by two messages. -/
theorem tracing_is_invisible_nestedSum :
    (listening.evaluate 25 nestedSum).1 = (listeningToSums.evaluate 25 nestedSum).1 ∧
    (listening.evaluate 25 nestedSum).2.Alike (listeningToSums.evaluate 25 nestedSum).2 ∧
    listeningToSums.session.log.Paired
      (listeningToSums.evaluate 25 nestedSum).2.session.log ∧
    (listeningToSums.evaluate 25 nestedSum).2.session.log.traces
      = [.callEntered 2 "#<ad;2;3>", .callLeft 2 "ad" "5", .callEntered 1 "#<ad;1;5>",
        .callLeft 1 "ad" "6"] := by
  obtain ⟨halike, hpaired⟩ := tracing_is_invisible
  obtain ⟨hending, -, -, hleft⟩ :=
    halike listening listeningToSums (alike_retraced _ _ _) 25 nestedSum
  have hruns : (listeningToSums.evaluate 25 nestedSum).1.value?.map (·.output) = some "6" ∧
      (listeningToSums.evaluate 25 nestedSum).2.session.log.traces
        = [.callEntered 2 "#<ad;2;3>", .callLeft 2 "ad" "5", .callEntered 1 "#<ad;1;5>",
          .callLeft 1 "ad" "6"] := by
    decide +kernel
  obtain ⟨houtput, htraces⟩ := hruns
  obtain ⟨outcome, houtcome, -⟩ := Option.map_eq_some_iff.mp houtput
  exact ⟨hending, hleft,
    hpaired listeningToSums 25 nestedSum outcome (Ending.eq_ok_of_value? houtcome), htraces⟩

end Interpreter

end TextMacro
