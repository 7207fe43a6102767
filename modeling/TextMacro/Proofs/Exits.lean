import TextMacro.Proofs.Depth
import TextMacro.Proofs.Sequences
import TextMacro.Proofs.Steps

/-!
# Programs that ask to stop

When a program asks to stop, nothing behind that matters (`exit_is_final`). The calls in progress
are given up one after another without being carried out, so that nothing is called and nothing
changes any more (`Reaches.of_halted`). What an open call has collected is not part of the output,
which is the text that was done with when the outermost call in progress began
(`Rewriter.output_of_step`). Text behind a program makes a difference only to one that comes to its
end, which a program that stops does not (`Represents.run_halted`).

So the status in the outcome of a program tells whether a call of the builtin was carried out, and
with which argument (`exit_eq_some_iff`); in a program that fails none was (`not_exits_of_error`).
-/

namespace TextMacro

/-! ## The builtin that asks to stop -/

/-- Where it is not permitted, the program is neither asked to stop nor to go on. -/
theorem Session.Changes.halt_eq {permits : Permits} {s s' : Session} (h : s.Changes permits s')
    (hkeeps : permits.halts = false) : s'.halt = s.halt :=
  h.part_eq (·.halt) fun hchange => by
    cases hchange with
    | setProp hset =>
      obtain ⟨p, -, -, rfl⟩ := eq_of_setProp hset
      rfl
    | halt _ hhalts => exact absurd (hhalts.symm.trans hkeeps) (by decide)
    | _ => rfl

namespace Action

variable {s s' : Session} {f : Frame} {result : Disposition × String} {depth : Nat}

/-- Asking the program to stop sets the status, if there is one, and nothing else. -/
theorem perform_halt (f : Frame) (s : Session) :
    Builtin.halt.perform f s = match Builtins.readStatus (f.arg 1) with
      | .ok status => .ok "" { s with halt := some status }
      | .error e => .error e s := by
  show (lift (Builtins.readStatus (f.arg 1)) >>= _) s = _
  cases Builtins.readStatus (f.arg 1) with
  | ok status => rfl
  | error e => rfl

/-- A program is asked to stop by one builtin alone. -/
theorem halt_invoke (depth : Nat) (h : ∀ function, s.dict.function? f.name = some function →
    function.meaning ≠ .builtin .halt) : (left (invoke depth f s)).halt = s.halt := by
  have hpermits : (s.dict.permits f).halts = false := by
    unfold Dictionary.permits
    cases hfunction : s.dict.function? f.name with
    | none => rfl
    | some function =>
      dsimp only
      cases hmeaning : function.meaning with
      | builtin code =>
        have hcode : code ≠ .halt := fun heq => h function hfunction (heq ▸ hmeaning)
        exact decide_eq_false hcode
      | defined body => rfl
  exact (leaves_invoke depth f s).changes.halt_eq hpermits

/-- A call of the builtin that asks to stop sets the status that its argument stands for, changes
nothing else but the log, and yields no text. -/
theorem of_invoke_halt {function : Function} (h : invoke depth f s = .ok result s')
    (hfunction : s.dict.function? f.name = some function)
    (hmeaning : function.meaning = .builtin .halt) :
    ∃ status log, Builtins.readStatus (f.arg 1) = .ok status ∧
      s' = { s with halt := some status, log } ∧ result.2 = "" := by
  obtain ⟨found, text, left, hfound, hperform, rfl, hleft⟩ := exists_of_invoke h
  obtain rfl : function = found := Option.some.inj (hfunction.symm.trans hfound)
  rw [hmeaning] at hperform
  have hstatus : Builtin.halt.perform f _ = .ok text left := hperform
  rw [perform_halt] at hstatus
  split at hstatus
  · rename_i status hread
    cases hstatus
    subst hleft
    split
    · exact ⟨status, _, hread, rfl, rfl⟩
    · exact ⟨status, _, hread, rfl, rfl⟩
  · cases hstatus

/-- A call that makes the program stop is one of the builtin for it. It sets the status, changes
nothing else but the log, and yields no text. -/
theorem of_halting_invoke (h : invoke depth f s = .ok result s') (hhalt : s.halt = none)
    (hhalt' : s'.halt ≠ none) :
    (∃ function, s.dict.function? f.name = some function ∧ function.meaning = .builtin .halt) ∧
      (∃ log, s' = { s with halt := s'.halt, log }) ∧ result.2 = "" := by
  obtain ⟨function, -, -, hfunction, -, -, -⟩ := exists_of_invoke h
  -- Any other function leaves the request as it was.
  have hmeaning : function.meaning = .builtin .halt := by
    refine Classical.not_not.mp fun hother => ?_
    have hkept : (Action.left (invoke depth f s)).halt = s.halt :=
      halt_invoke depth fun found hfound => by
        obtain rfl := Option.some.inj (hfunction.symm.trans hfound)
        exact hother
    rw [h, hhalt] at hkept
    exact hhalt' hkept
  obtain ⟨status, log, -, rfl, htext⟩ := of_invoke_halt h hfunction hmeaning
  exact ⟨⟨function, hfunction, hmeaning⟩, ⟨log, rfl⟩, htext⟩

end Action

/-! ## Output -/

namespace Rewriter

variable {r r' last : Rewriter}

/-- Inside a call, characters are added to the argument that is being collected. -/
theorem output_emit (cs : List Char) (hcalls : r.calls ≠ []) : (r.emit cs).output = r.output := by
  obtain ⟨session, output, text, calls⟩ := r
  cases calls with
  | nil => exact absurd rfl hcalls
  | cons call outer => rfl

/-- The result of a call is output only outside calls, and changes neither the calls nor the
session. -/
theorem of_place {active : Bool} {disposition : Disposition} {result : String}
    (hplace : r.place active disposition result = .next r') :
    r'.session = r.session ∧ (r'.calls = [] ↔ r.calls = []) ∧
      (r.calls ≠ [] ∨ result = "" → r'.output = r.output) := by
  unfold place at hplace
  split at hplace
  · cases hplace
  · split at hplace
    · cases hplace
      exact ⟨rfl, Iff.rfl, fun _ => rfl⟩
    · rename_i hsome
      split at hplace
      · cases hplace
        exact ⟨rfl, Iff.rfl, fun _ => rfl⟩
      · cases hplace
        refine ⟨r.session_emit _, calls_emitThen _ r.text r, fun hquiet => ?_⟩
        have hcalls : r.calls ≠ [] := hquiet.resolve_right fun hnone => by simp [hnone] at hsome
        exact output_emit _ hcalls

/-- A call that is carried out outputs nothing if another is open behind it, or if it makes the
program stop. -/
theorem output_of_finishCall {call : OpenCall} (hhalt : r.session.halt = none)
    (hfinish : r.finishCall call = .next r') (h : r'.calls ≠ [] ∨ r'.session.halt.isSome) :
    r'.output = r.output := by
  unfold finishCall at hfinish
  split at hfinish
  · cases hfinish
  · rename_i disposition result session hinvoke
    obtain ⟨hsession, hcalls, houtput⟩ := of_place hfinish
    refine houtput (h.imp (fun hopen hnone => hopen (hcalls.mpr hnone)) fun hstops => ?_)
    -- The builtin that makes the program stop yields no text.
    have hhalt' : session.halt ≠ none := by
      rw [hsession] at hstops
      exact Option.isSome_iff_ne_none.mp hstops
    exact (Action.of_halting_invoke hinvoke hhalt hhalt').2.2

/-- An argument that ends is not output, and neither is the result of the call that it completes. -/
theorem output_of_finishArgument {call : OpenCall} {outer : List OpenCall} {rest : List Char}
    {closes : Bool} (hhalt : r.session.halt = none)
    (hfinish : r.finishArgument call outer rest closes = .next r')
    (h : r'.calls ≠ [] ∨ r'.session.halt.isSome) : r'.output = r.output := by
  unfold finishArgument at hfinish
  split at hfinish
  · cases hfinish
  · dsimp only at hfinish
    split at hfinish
    · exact output_of_finishCall (r := { r with text := rest, calls := outer }) hhalt hfinish h
    · rw [← Step.next.inj hfinish]

/-- While a call is open, or the program is being stopped, nothing is output. -/
theorem output_of_step (hstep : r.step = .next r')
    (h : r'.calls ≠ [] ∨ r'.session.halt.isSome) : r'.output = r.output := by
  by_cases hhalt : r.session.halt.isSome
  · rw [step_halted hhalt] at hstep
    cases hcalls : r.calls with
    | nil => simp [hcalls] at hstep
    | cons call outer =>
      rw [hcalls] at hstep
      rw [← Step.next.inj hstep]
  · -- Where characters are added, a call is open.
    have hemit : ∀ cs rest, .next (r.emitThen cs rest) = Step.next r' → r'.output = r.output := by
      intro cs rest heq
      obtain rfl := Step.next.inj heq
      have hsession : (r.emitThen cs rest).session = r.session := r.session_emit cs
      have hcalls := h.resolve_right (hsession ▸ hhalt)
      exact output_emit cs fun hnone => hcalls ((calls_emitThen cs rest r).mpr hnone)
    have hnone : r.session.halt = none := by simpa using hhalt
    cases htext : r.text with
    | nil =>
      rw [step_nil hhalt htext] at hstep
      split at hstep <;> simp at hstep
    | cons c rest =>
      rw [step_cons hhalt htext] at hstep
      unfold scanChar at hstep
      split at hstep
      · unfold copyEscaped at hstep
        split at hstep
        · exact hemit _ _ hstep
        · exact hemit _ _ hstep
      · unfold copyBracketed at hstep
        split at hstep
        · exact hemit _ _ hstep
        · cases hstep
      · exact output_of_finishArgument hnone hstep h
      · exact output_of_finishArgument hnone hstep h
      · unfold sharp at hstep
        split at hstep
        · unfold beginCall at hstep
          dsimp only at hstep
          split at hstep
          · cases hstep
          · split at hstep
            · cases hstep
            · rw [← Step.next.inj hstep]
        · exact hemit _ _ hstep
      · exact hemit _ _ hstep

/-- A sharp or an escape that is all that is left is the last that a program comes to: it does not
ask to stop then. -/
theorem Lone.halt_of_run (h : r.Lone) (hhalt : ¬ r.session.halt.isSome) {fuel : Nat}
    (hrun : r.run fuel = .finished last) : ¬ last.session.halt.isSome := by
  obtain ⟨c, hstep⟩ := h.step hhalt
  have hsession : (r.emitThen [c] []).session = r.session := r.session_emit [c]
  have hnext : (r.emitThen [c] []).step = if (r.emitThen [c] []).calls = []
      then .finished (r.emitThen [c] []) else .raised .unterminatedCall (r.emitThen [c] []) :=
    step_nil (hsession ▸ hhalt) rfl
  match fuel with
  | 0 => simp [run] at hrun
  | 1 => simp [run, hstep] at hrun
  | fuel + 2 =>
    rw [run, hstep] at hrun
    dsimp only at hrun
    rw [run, hnext] at hrun
    by_cases hcalls : (r.emitThen [c] []).calls = []
    · rw [if_pos hcalls] at hrun
      rw [← Rest.finished.inj hrun, hsession]
      exact hhalt
    · rw [if_neg hcalls] at hrun
      cases hrun

end Rewriter

/-! ## Runs -/

namespace Interpreter

variable {t u v w : Interpreter} {r last : Rewriter}

/-- A step of the scanner that goes on is one of the rewriting. -/
theorem Represents.next (h : t.Represents r) (hkeeps : t.KeepsSyntax) (hkeeps' : u.KeepsWidths)
    (hstep : t.step = .next u) : ∃ r', r.step = .next r' ∧ u.Represents r' := by
  have hmirrors := h.step_of_keepsWidths (h.keepsWidths_eq_true hkeeps)
  rw [hstep] at hmirrors
  cases hr : r.step with
  | next r' =>
    rw [hr] at hmirrors
    obtain ⟨v, hv, hrep⟩ := hmirrors
    cases hv
    exact ⟨r', rfl, hrep⟩
  | finished r' =>
    rw [hr] at hmirrors
    obtain ⟨v, hv, -⟩ := hmirrors
    cases hv
  | raised e r' =>
    rw [hr] at hmirrors
    obtain ⟨v, hv, -⟩ := hmirrors
    cases hv
  | widthsChanged =>
    rw [hr] at hmirrors
    obtain ⟨v, r', hv, -, hwidths⟩ := hmirrors
    cases hv
    exact absurd hkeeps' hwidths

/-- A program that stops does the same with more text behind it. -/
theorem Represents.run_halted {fuel : Nat} (more : List Char) (h : t.Represents r)
    (hkeeps : t.KeepsSyntax) (hrebinds : t.RebindsOutside) (hrun : r.run fuel = .finished last)
    (hhalt : last.session.halt.isSome) :
    (r.beside [] more).run fuel = .finished (last.beside [] more) := by
  induction fuel generalizing t r with
  | zero => simp [Rewriter.run] at hrun
  | succ fuel ih =>
    have hwhole := hrun
    unfold Rewriter.run at hrun ⊢
    cases hstep : r.step with
    | raised e r' => simp [hstep] at hrun
    | widthsChanged => simp [hstep] at hrun
    | finished r' =>
      obtain ⟨rfl, -, -⟩ := Rewriter.eq_of_finished hstep
      obtain rfl : r' = last := by simpa [hstep] using hrun
      rw [Rewriter.step_beside [] r' (.inl (.inl hhalt)), hstep]
      rfl
    | next r' =>
      have hmirrors := h.step_of_keepsWidths (h.keepsWidths_eq_true hkeeps)
      rw [hstep] at hmirrors hrun
      obtain ⟨t', ht', h'⟩ := hmirrors
      -- A step that looks past the end would be among the last of a program that does not stop.
      have hdecided : r.Decided := by
        refine Classical.not_not.mp fun hnot => ?_
        have hgoes : ¬ r.session.halt.isSome := fun hhalted => hnot (.inl hhalted)
        rcases Rewriter.lone_of_not_decided (h.structuring_eq hkeeps) hgoes hstep hnot with
          hlone | ⟨c, heq, hlone⟩
        · exact hlone.halt_of_run hgoes hwhole hhalt
        · have hsession : r'.session = r.session := heq ▸ r.session_emit [c]
          exact hlone.halt_of_run (hsession ▸ hgoes) hrun hhalt
      rw [Rewriter.step_beside [] r (.inl hdecided), hstep]
      exact ih h' (hrebinds.keepsSyntax hkeeps (.next .refl ht')) (hrebinds.of_step ht') hrun

/-- Text behind a program that stops makes no difference to what it is evaluated to. -/
theorem evaluate_halted {fuel : Nat} {text output : String} {status : Int} (rest : String)
    (ht : t.calls = .empty) (hexit : t.evaluate fuel text = (.ok ⟨output, some status⟩, u))
    (hrebinds : (t.load text).RebindsOutside) :
    t.evaluate fuel (text ++ rest) = (.ok ⟨output, some status⟩, u) := by
  have hgoes := run_ne_widthsChanged ht fuel fun u => keepsWidths_of_rebindsOutside hrebinds
  have hevaluated := evaluate_of_mirrors ht (run_mirrors ht hgoes)
  rw [hexit] at hevaluated
  cases hrun : (Rewriter.start t.session text).run fuel with
  | finished last =>
    rw [hrun] at hevaluated
    obtain ⟨⟨rfl, hstatus⟩, rfl⟩ : (String.ofList last.output = output ∧
        last.session.halt = some status) ∧ ofSession { last.session with halt := none } = u := by
      simpa [Rewriter.Rest.result?] using hevaluated
    have hhalt : last.session.halt.isSome := by rw [hstatus]; rfl
    have hlonger := (represents_load ht text).run_halted rest.toList (keepsSyntax_load t text)
      hrebinds hrun hhalt
    -- The longer program is the shorter one with more text behind it.
    have hjoined : Rewriter.start t.session (text ++ rest)
        = (Rewriter.start t.session text).beside [] rest.toList := by
      simp [Rewriter.start, Rewriter.beside]
    refine evaluate_of_rewriting ht ?_
    unfold Rewriter.evaluate?
    rw [hjoined, hlonger, ← hstatus]
    rfl
  | raised e last => simp [hrun, Rewriter.Rest.result?] at hevaluated
  | unfinished last => simp [hrun, Rewriter.Rest.result?] at hevaluated
  | widthsChanged => exact absurd hrun hgoes

/-! ## After the request to stop -/

/-- Nothing starts or ends in a program that is being stopped, and its session stays as it is. -/
theorem Reaches.of_halted (hhalt : t.session.halt ≠ none) (h : t.Reaches u) :
    u.Quiet ∧ u.session = t.session := by
  induction h with
  | refl => exact ⟨quiet_of_no_char (.inl hhalt), rfl⟩
  | @next v w _ hstep ih =>
    obtain ⟨hquiet, hsession⟩ := ih
    have hsame : w.session = v.session := by
      cases goesOn_of_step hstep with
      | passed _ hsame => exact hsame
      | collected _ hsame => exact hsame
      | givenUp _ _ hsame => exact hsame
      | begun hahead => exact absurd (hquiet.ahead.symm.trans hahead) (Option.some_ne_none _).symm
      | carriedOut _ hdue => exact absurd (hquiet.due.symm.trans hdue) (Option.some_ne_none _).symm
    have hsession' := hsame.trans hsession
    exact ⟨quiet_of_no_char (.inl (hsession' ▸ hhalt)), hsession'⟩

/-- A program that is being stopped has come to that by a step. -/
theorem Reaches.exists_halting (hhalt : t.session.halt = none) (h : t.Reaches u)
    (hhalt' : u.session.halt ≠ none) :
    ∃ v w, t.Reaches v ∧ v.session.halt = none ∧ v.step = .next w ∧ w.session.halt ≠ none ∧
      w.Reaches u := by
  induction h with
  | refl => exact absurd hhalt hhalt'
  | @next v w hv hstep ih =>
    by_cases hstopped : v.session.halt = none
    · exact ⟨v, w, hv, hstopped, hstep, hhalt', .refl⟩
    · obtain ⟨x, y, hx, hgoes, hxy, hstops, hyv⟩ := ih hstopped
      exact ⟨x, y, hx, hgoes, hxy, hstops, .next hyv hstep⟩

/-- The step by which a program comes to be stopped carries out a call of the builtin for it. -/
theorem of_halting_step (hhalt : t.session.halt = none) (hstep : t.step = .next u)
    (hhalt' : u.session.halt ≠ none) :
    (∃ f function, t.callDue? = some f ∧ t.session.dict.function? f.name = some function ∧
      function.meaning = .builtin .halt) ∧
    (∃ log, u.session = { t.session with halt := u.session.halt, log }) ∧
    t.calls.items ≠ [] := by
  cases goesOn_of_step hstep with
  | passed _ hsession => exact absurd (hsession ▸ hhalt) hhalt'
  | collected _ hsession => exact absurd (hsession ▸ hhalt) hhalt'
  | givenUp _ hstopped => exact absurd hhalt hstopped
  | begun _ _ _ hsession =>
    rw [hsession] at hhalt'
    exact absurd hhalt hhalt'
  | @carriedOut f _ _ _ _ _ hdue hinvoke hcalls =>
    obtain ⟨⟨function, hfunction, hmeaning⟩, hsession, -⟩ :=
      Action.of_halting_invoke hinvoke hhalt hhalt'
    exact ⟨⟨f, function, hdue, hfunction, hmeaning⟩, hsession, by simp [hcalls]⟩

/-! ## The outermost call in progress -/

/-- The states of a call that begins outside other calls at `w`, up to the last in which it is
open. -/
inductive Inside (w : Interpreter) : Interpreter → Prop
  | begun {active : Bool} {u : Interpreter} : w.calls.items = [] → w.callAhead? = some active →
    w.step = .next u → Inside w u
  | next {u v : Interpreter} : Inside w u → u.step = .next v → v.calls.items ≠ [] → Inside w v

/-- Every state with an open call belongs to a call that has begun outside others. -/
theorem Reaches.inside (hidle : t.calls.items = []) (h : t.Reaches u) (hopen : u.calls.items ≠ []) :
    ∃ w, t.Reaches w ∧ w.Inside u := by
  induction h with
  | refl => exact absurd hidle hopen
  | @next v u hv hstep ih =>
    by_cases houtside : v.calls.items = []
    -- Of the steps from outside calls only the one that begins a call leads into one.
    · refine ⟨v, hv, ?_⟩
      cases goesOn_of_step hstep with
      | passed _ _ hcalls => exact absurd (hcalls ▸ houtside) hopen
      | collected _ _ hcalls =>
        rw [houtside] at hcalls
        cases hcalls
      | givenUp _ _ _ hcalls =>
        rw [houtside] at hcalls
        cases hcalls
      | begun hahead => exact .begun houtside hahead hstep
      | carriedOut _ _ _ hcalls =>
        rw [houtside] at hcalls
        cases hcalls
    · obtain ⟨w, hw, hinside⟩ := ih houtside
      exact ⟨w, hw, .next hinside hstep hopen⟩

/-- No other call is in progress where the call begins. -/
theorem Inside.idle (h : w.Inside u) : w.calls.items = [] := by
  induction h with
  | begun houtside => exact houtside
  | next _ _ _ ih => exact ih

/-- A state inside a call is reached by steps. -/
theorem Inside.reaches (h : w.Inside u) : w.Reaches u := by
  induction h with
  | begun _ _ hstep => exact .next .refl hstep
  | next _ hstep _ ih => exact .next ih hstep

/-- Inside a call the stack is not empty. -/
theorem Inside.calls_ne_nil (h : w.Inside u) : u.calls.items ≠ [] := by
  cases h with
  | next _ _ hopen => exact hopen
  | begun _ hahead hstep =>
    rw [step_of_callAhead hahead, beginCall_eq] at hstep
    split at hstep
    · cases hstep
    · split at hstep
      · cases hstep
      · rw [← Step.next.inj hstep]
        exact List.cons_ne_nil _ _

/-- A state with no open call is one of a program with none. -/
theorem Represents.calls_eq_nil_iff (h : t.Represents r) : r.calls = [] ↔ t.calls.items = [] := by
  rw [h.calls_eq, List.map_eq_nil_iff]

/-- A step outputs nothing if a call is open behind it, or if the program is then being stopped. -/
theorem Represents.next_output (h : t.Represents r) (hkeeps : t.KeepsSyntax)
    (hkeeps' : u.KeepsSyntax) (hstep : t.step = .next u)
    (hquiet : u.calls.items ≠ [] ∨ u.session.halt ≠ none) :
    ∃ r', u.Represents r' ∧ r'.output = r.output := by
  obtain ⟨r', hr', hrep⟩ := h.next hkeeps hkeeps'.keepsWidths hstep
  refine ⟨r', hrep, Rewriter.output_of_step hr' ?_⟩
  rw [← hrep.session_eq, Option.isSome_iff_ne_none, Ne, hrep.calls_eq_nil_iff]
  exact hquiet

/-- The rewriting goes through all states. -/
theorem Reaches.exists_represents (hchars : ∀ x, t.Reaches x → x.KeepsSyntax)
    (ht : t.Represents r) (h : t.Reaches u) : ∃ r', u.Represents r' := by
  induction h with
  | refl => exact ⟨r, ht⟩
  | @next v w hv hstep ih =>
    obtain ⟨r₁, hrep⟩ := ih
    obtain ⟨r₂, -, hrep'⟩ :=
      hrep.next (hchars v hv) (hchars w (.next hv hstep)).keepsWidths hstep
    exact ⟨r₂, hrep'⟩

/-- While a call is open, nothing is output. -/
theorem Inside.output_eq (hchars : ∀ x, w.Reaches x → x.KeepsSyntax) (hw : w.Represents r)
    (h : w.Inside u) : ∃ r', u.Represents r' ∧ r'.output = r.output := by
  induction h with
  | begun houtside hahead hstep =>
    have hinside := Inside.begun houtside hahead hstep
    exact hw.next_output (hchars w .refl) (hchars _ hinside.reaches) hstep
      (.inl hinside.calls_ne_nil)
  | @next u v hinside hstep hopen ih =>
    obtain ⟨r₁, hrep, houtput⟩ := ih
    have hu := hinside.reaches
    obtain ⟨r₂, hrep', houtput'⟩ :=
      hrep.next_output (hchars u hu) (hchars v (.next hu hstep)) hstep (.inl hopen)
    exact ⟨r₂, hrep', houtput'.trans houtput⟩

/-- While a program is being stopped, nothing is output. -/
theorem Reaches.output_of_halted (hchars : ∀ x, t.Reaches x → x.KeepsSyntax)
    (hhalt : t.session.halt ≠ none) (ht : t.Represents r) (h : t.Reaches u) :
    ∃ r', u.Represents r' ∧ r'.output = r.output := by
  induction h with
  | refl => exact ⟨r, ht, rfl⟩
  | @next v w hv hstep ih =>
    obtain ⟨r₁, hrep, houtput⟩ := ih
    have hw : t.Reaches w := .next hv hstep
    have hstopped : w.session.halt ≠ none := (hw.of_halted hhalt).2 ▸ hhalt
    obtain ⟨r₂, hrep', houtput'⟩ :=
      hrep.next_output (hchars v hv) (hchars w hw) hstep (.inr hstopped)
    exact ⟨r₂, hrep', houtput'.trans houtput⟩

/-- Nothing is output from where a call begins to where the program ends, if it is asked to stop
inside the call. -/
theorem Inside.output_of_halting {last : Interpreter} (hchars : ∀ x, w.Reaches x → x.KeepsSyntax)
    (hw : w.Represents r) (h : w.Inside u) (hstep : u.step = .next v)
    (hhalt : v.session.halt ≠ none) (hlast : v.Reaches last) :
    ∃ r', last.Represents r' ∧ r'.output = r.output := by
  have hv : w.Reaches v := .next h.reaches hstep
  obtain ⟨r₁, hr₁, hopen⟩ := h.output_eq hchars hw
  obtain ⟨r₂, hr₂, hstopped⟩ :=
    hr₁.next_output (hchars u h.reaches) (hchars v hv) hstep (.inr hhalt)
  obtain ⟨r₃, hr₃, hgivenUp⟩ :=
    hlast.output_of_halted (fun x hx => hchars x (hv.trans hx)) hhalt hr₂
  refine ⟨r₃, hr₃, ?_⟩
  calc r₃.output
    _ = r₂.output := hgivenUp
    _ = r₁.output := hstopped
    _ = r.output := hopen

/-- Outside calls, the text that is done with is the output. -/
theorem Represents.done_of_idle (h : t.Represents r) (hidle : t.calls.items = []) :
    r.done = r.output := by
  rw [Rewriter.done, h.calls_eq_nil_iff.mpr hidle]
  rfl

/-- A program that succeeds comes to a state where it ends, from which its outcome is read. -/
theorem exists_last_of_evaluate {fuel : Nat} {text : String} {outcome : Outcome}
    (h : t.evaluate fuel text = (.ok outcome, u)) :
    ∃ x, (t.load text).Reaches x ∧ x.step = .finished x ∧ x.doneText? = some outcome.output ∧
      x.session.halt = outcome.exit ∧ u = x.clear := by
  have hends := run_ends fuel (t.load text)
  rw [evaluate_eq] at h
  cases hrun : run fuel (t.load text) with
  | finished x =>
    rw [hrun] at h hends
    obtain ⟨y, hy, hstep⟩ := hends
    obtain ⟨-, -, rfl⟩ := finished_of_step hstep
    cases hdone : x.doneText? with
    | none => simp [hdone] at h
    | some output =>
      obtain ⟨rfl, rfl⟩ : ⟨output, x.session.halt⟩ = outcome ∧ x.clear = u := by
        simpa [hdone] using h
      exact ⟨x, hy, hstep, hdone, rfl, rfl⟩
  | raised e x =>
    rw [hrun] at h
    cases hfailure : x.failure? e <;> simp [hfailure] at h
  | fault => simp [hrun] at h
  | unfinished x => simp [hrun] at h

/-- A program stops: inside the call that begins at `w` it carries out, at `u`, a call of the
builtin that asks to stop, which leads to `v`. -/
structure Stops (w u v : Interpreter) (status : Int) : Prop where
  inside : w.Inside u
  /-- The call that is carried out is one of the builtin. -/
  due : ∃ f function, u.callDue? = some f ∧ u.session.dict.function? f.name = some function ∧
    function.meaning = .builtin .halt
  step : u.step = .next v
  /-- It sets the status; only the log may tell of it besides. -/
  session : ∃ log, v.session = { u.session with halt := some status, log }
  /-- From then on nothing is called and nothing changes. -/
  final : ∀ x, v.Reaches x → x.Quiet ∧ x.session = v.session

/-- After a request to stop nothing else matters. With no call in progress, let a program succeed
after asking to stop, and let no call choose other characters to give a program its structure while
the arguments of another call are being collected. Then it is evaluated to the same outcome and to
the same interpreter with any text behind it. After the call of the builtin no call begins or is carried out and nothing in
the session changes, and the output is the text that was done with when the outermost of the calls
then in progress began. -/
theorem exit_is_final {t t' : Interpreter} {fuel : Nat} {text output : String} {status : Int}
    (ht : t.calls = .empty) (hexit : t.evaluate fuel text = (.ok ⟨output, some status⟩, t'))
    (hrebinds : (t.load text).RebindsOutside) :
    (∀ rest, t.evaluate fuel (text ++ rest) = (.ok ⟨output, some status⟩, t')) ∧
    ∃ w u v, (t.load text).Reaches w ∧ w.Stops u v status ∧
      t' = ofSession { v.session with halt := none } ∧
      w.zones.doneFrom? 0 = some output.toUTF8 := by
  refine ⟨fun rest => evaluate_halted rest ht hexit hrebinds, ?_⟩
  have hchars : ∀ x, (t.load text).Reaches x → x.KeepsSyntax := fun x =>
    hrebinds.keepsSyntax (keepsSyntax_load t text)
  obtain ⟨x, hx, hfinished, houtput, hstatus, rfl⟩ := exists_last_of_evaluate hexit
  have hidle : (t.load text).calls.items = [] := congrArg Stack.items ht
  have hidle' : x.calls.items = [] := by
    rw [(hx.standsOn (t.standsOn_load text)).items_eq (finished_of_step hfinished).2.1]
    exact hidle
  -- The call that asks to stop, and the outermost of the calls in progress then.
  have hhalted : x.session.halt ≠ none := by simp [hstatus]
  obtain ⟨u, v, hu, hgoes, hstep, hstops, hvx⟩ := hx.exists_halting rfl hhalted
  obtain ⟨hdue, hsession, hopen⟩ := of_halting_step hgoes hstep hstops
  obtain ⟨w, hw, hinside⟩ := hu.inside hidle hopen
  have hsame := (hvx.of_halted hstops).2
  rw [← hsame, hstatus] at hsession
  have hlast : x.clear = ofSession { v.session with halt := none } := by
    rw [clear_eq_ofSession (congrArg Stack.mk hidle'), hsame]
  refine ⟨w, u, v, hw, ⟨hinside, hdue, hstep, hsame ▸ hsession, fun y => (·.of_halted hstops)⟩,
    hlast, ?_⟩
  -- The text that is done with at the end is the one that was done with where that call began.
  obtain ⟨r, hr⟩ := hw.exists_represents hchars (represents_load ht text)
  obtain ⟨r', hr', hkept⟩ :=
    hinside.output_of_halting (fun y hy => hchars y (hw.trans hy)) hr hstep hstops hvx
  have hdone : r'.done = r.done := by
    rw [hr'.done_of_idle hidle', hkept, hr.done_of_idle hinside.idle]
  rw [hr'.doneText, hdone] at houtput
  obtain rfl : String.ofList r.done = output := Option.some.inj houtput
  have hz : w.zones.Holds ([] ++ r.done) r.text := hr.zones
  rw [hz.doneFrom (n := 0) (by simp)]
  simp

/-- A program that asks to stop among the arguments of a call, which it leaves open. -/
def stopping : String := "ab#<ds;x;c#<exit;3>"

/-- The argument that was being collected is not in the output, whatever follows. -/
theorem exit_is_final_stopping :
    (∀ rest, (fresh.evaluate 30 (stopping ++ rest)).1 = .ok ⟨"ab", some 3⟩) ∧
    ∃ w u v, (fresh.load stopping).Reaches w ∧ w.Stops u v 3 ∧
      (fresh.evaluate 30 stopping).2 = ofSession { v.session with halt := none } ∧
      w.zones.doneFrom? 0 = some "ab".toUTF8 := by
  have hending : (Rewriter.evaluate? 30 fresh.session stopping).map (·.1)
      = some (.ok ⟨"ab", some 3⟩) := by
    decide +kernel
  have hkeeps : always stepKeepsStructuring 30 (fresh.load stopping) = true := by
    decide +kernel
  obtain ⟨⟨ending, session⟩, hresult, rfl⟩ := Option.map_eq_some_iff.mp hending
  have hevaluate := evaluate_of_rewriting rfl hresult
  obtain ⟨hsame, hstops⟩ := exit_is_final rfl hevaluate (rebindsOutside_of_always hkeeps)
  refine ⟨fun rest => by rw [hsame rest], ?_⟩
  rw [hevaluate]
  exact hstops

/-! ## What the status tells -/

/-- A call of the builtin that asks to stop sets the status that its argument stands for. -/
theorem halt_of_due {f : Frame} {function : Function} (hdue : t.callDue? = some f)
    (hfunction : t.session.dict.function? f.name = some function)
    (hmeaning : function.meaning = .builtin .halt) (hstep : t.step = .next u) :
    ∃ status, Builtins.readStatus (f.arg 1) = .ok status ∧ u.session.halt = some status := by
  cases goesOn_of_step hstep with
  | passed hquiet => exact absurd (hquiet.due.symm.trans hdue) (Option.some_ne_none _).symm
  | collected hquiet => exact absurd (hquiet.due.symm.trans hdue) (Option.some_ne_none _).symm
  | givenUp hquiet => exact absurd (hquiet.due.symm.trans hdue) (Option.some_ne_none _).symm
  | begun hahead =>
    -- No call starts where one ends.
    obtain ⟨-, c, hpeek, hsharp, -⟩ := callAhead?_eq_some_iff.mp hahead
    obtain ⟨-, c', outer, hpeek', hclosing, -⟩ := callDue?_eq_some_iff.mp hdue
    obtain rfl : c = c' := by simpa using hpeek.symm.trans hpeek'
    simp [hsharp] at hclosing
  | carriedOut _ hdue' hinvoke =>
    obtain rfl := Option.some.inj (hdue'.symm.trans hdue)
    obtain ⟨status, log, hread, hsession, -⟩ := Action.of_invoke_halt hinvoke hfunction hmeaning
    exact ⟨status, hread, by rw [hsession]⟩

/-- A program exits with a status: it comes to a call of the builtin that asks to stop, and the call
is carried out, with an argument that stands for the status. -/
def Exits (t : Interpreter) (program : String) (status : Int) : Prop :=
  ∃ v w f function, (t.load program).Reaches v ∧ v.callDue? = some f ∧
    v.session.dict.function? f.name = some function ∧ function.meaning = .builtin .halt ∧
    Builtins.readStatus (f.arg 1) = .ok status ∧ v.step = .next w

variable {program : String} {status : Int}

/-- A program exits with a status if it is ever being stopped with that status. -/
theorem exits_iff : t.Exits program status ↔
    ∃ w, (t.load program).Reaches w ∧ w.session.halt = some status := by
  constructor
  · rintro ⟨v, w, f, function, hv, hdue, hfunction, hmeaning, hread, hstep⟩
    obtain ⟨status', hread', hset⟩ := halt_of_due hdue hfunction hmeaning hstep
    obtain rfl : status = status' := by simpa using hread.symm.trans hread'
    exact ⟨w, .next hv hstep, hset⟩
  · rintro ⟨x, hx, hset⟩
    have hhalted : x.session.halt ≠ none := by simp [hset]
    obtain ⟨v, w, hv, hgoes, hstep, hstops, hwx⟩ := hx.exists_halting rfl hhalted
    obtain ⟨⟨f, function, hdue, hfunction, hmeaning⟩, -, -⟩ := of_halting_step hgoes hstep hstops
    obtain ⟨status', hread, hset'⟩ := halt_of_due hdue hfunction hmeaning hstep
    -- From then on the status stays.
    have hsame := (hwx.of_halted hstops).2
    obtain rfl : status' = status := by
      rw [hsame, hset'] at hset
      exact Option.some.inj hset
    exact ⟨v, w, f, function, hv, hdue, hfunction, hmeaning, hread, hstep⟩

/-- The status of a program that succeeds is the one that it exits with. -/
theorem exit_eq_some_iff {fuel : Nat} {outcome : Outcome}
    (h : t.evaluate fuel program = (.ok outcome, u)) :
    outcome.exit = some status ↔ t.Exits program status := by
  obtain ⟨last, hlast, hfinished, -, hexit, -⟩ := exists_last_of_evaluate h
  rw [exits_iff, ← hexit]
  constructor
  · exact fun hset => ⟨last, hlast, hset⟩
  · rintro ⟨w, hw, hset⟩
    have hwlast : w.Reaches last := hw.reaches_last hlast fun v => by simp [hfinished]
    rw [(hwlast.of_halted (by simp [hset])).2, hset]

/-- A program that fails does not exit. -/
theorem not_exits_of_error {fuel : Nat} {failure : Failure}
    (h : (t.evaluate fuel program).1 = .error failure) : ¬ t.Exits program status := by
  rw [exits_iff]
  rintro ⟨w, hw, hset⟩
  obtain ⟨last, u, hlast, hraised, -⟩ := raised_of_evaluate h
  have hwlast : w.Reaches last := hw.reaches_last hlast fun v => by simp [hraised]
  have hhalted : last.session.halt.isSome := by
    rw [(hwlast.of_halted (by simp [hset])).2, hset]
    rfl
  -- Where a program is being stopped, calls are given up until it ends.
  unfold step at hraised
  split at hraised
  · simp [hhalted] at hraised
  · rename_i hlists
    obtain ⟨frame, frames, hcalls, -⟩ :=
      (hlast.standsOn (t.standsOn_load program)).exists_cons hlists
    simp [hhalted, giveUp_eq, hcalls] at hraised

end Interpreter

end TextMacro
