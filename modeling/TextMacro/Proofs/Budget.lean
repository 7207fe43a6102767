import TextMacro.Proofs.Changes
import TextMacro.Proofs.Safety

/-!
# The budget of calls bounds every program

The result of an active call is scanned again, so that neither the text nor the depth of the calls
has to get smaller from step to step. What does get smaller is `rank`: the calls left in the budget,
then the open calls, then the bytes still to be scanned. Every step that goes on lowers the rank
unless it carries out a call that loads a fresh budget (`rank_lt_of_step`). So a program comes to an
end or to such a call (`reloads_or_run_ends`).
-/

namespace TextMacro

/-! ## The budget -/

namespace Session

variable {s s' : Session}

/-- The calls left in the budget. -/
def callsLeft (s : Session) : Nat := s.props.execCount - s.execs

/-- An elementary change that loads no fresh budget keeps the one there is, and what is counted. -/
theorem Change.budget_eq {permits : Permits} (h : s.Change permits s')
    (hkeeps : permits.reloads = false) :
    s'.execs = s.execs ∧ s'.props.execCount = s.props.execCount := by
  cases h with
  | setProp hset hreloads =>
    obtain ⟨p, hname, -, rfl⟩ := eq_of_setProp hset
    cases p with
    | execCount => exact absurd (hreloads hname.symm) (Bool.eq_false_iff.mp hkeeps)
    | stackSize =>
      rw [← hname]
      exact ⟨rfl, rfl⟩
    | showFinal =>
      rw [← hname]
      exact ⟨rfl, rfl⟩
    | echo =>
      rw [← hname]
      exact ⟨rfl, rfl⟩
  | reset hreloads => exact absurd hreloads (Bool.eq_false_iff.mp hkeeps)
  | _ => exact ⟨rfl, rfl⟩

/-- Changes that load no fresh budget keep the one there is, and what is counted. -/
theorem Changes.budget_eq {permits : Permits} (h : s.Changes permits s')
    (hkeeps : permits.reloads = false) :
    s'.execs = s.execs ∧ s'.props.execCount = s.props.execCount := by
  induction h with
  | refl => exact ⟨rfl, rfl⟩
  | tail _ hchange ih =>
    obtain ⟨hexecs, hcount⟩ := hchange.budget_eq hkeeps
    exact ⟨hexecs.trans ih.1, hcount.trans ih.2⟩

/-- Changes that load no fresh budget keep the number of calls left. -/
theorem Changes.callsLeft_eq {permits : Permits} (h : s.Changes permits s')
    (hkeeps : permits.reloads = false) : s'.callsLeft = s.callsLeft := by
  obtain ⟨hexecs, hcount⟩ := h.budget_eq hkeeps
  unfold callsLeft
  rw [hexecs, hcount]

end Session

namespace Interpreter

/-! ## The rank -/

variable {t : Interpreter}

/-- The next step carries out the innermost call with success, and the call loads a fresh budget. -/
def Reloads (t : Interpreter) : Prop :=
  ∃ f outer u, t.session.halt = none ∧ t.completed? = some (f, outer) ∧
    t.session.dict.reloads f = true ∧ t.step = .next u ∧ u.calls.items = outer

/-- A call that is carried out and asks for a fresh budget loads one. -/
theorem reloads_of_due {u : Interpreter} {f frame : Frame} (hstep : t.step = .next u)
    (hdue : t.callDue? = some f) (hcalls : t.calls.items = frame :: u.calls.items)
    (hfresh : t.session.dict.reloads f = true) : t.Reloads := by
  obtain ⟨hhalt, c, outer, -, -, hcompleted, -⟩ := callDue?_eq_some_iff.mp hdue
  obtain ⟨call, hopen⟩ := calls_of_completed? hcompleted
  obtain ⟨-, houter⟩ := List.cons.inj (hcalls.symm.trans hopen)
  exact ⟨f, outer, u, hhalt, hcompleted, hfresh, hstep, houter⟩

/-- The calls left in the budget, the open calls and the bytes still to be scanned. -/
def rank (t : Interpreter) : Nat × Nat × Nat :=
  (t.session.callsLeft, t.calls.items.length, t.zones.ahead)

/-- A step that goes on and loads no fresh budget lowers the rank. -/
theorem rank_lt_of_step {u : Interpreter} (hstep : t.step = .next u) (hreloads : ¬ t.Reloads) :
    Prod.Lex (· < ·) (Prod.Lex (· < ·) (· < ·)) u.rank t.rank := by
  unfold rank
  cases goesOn_of_step hstep with
  | passed _ hsession hcalls _ hahead =>
    rw [hsession, hcalls]
    exact .right _ (.right _ hahead)
  | collected _ hsession hcalls hadded _ _ hahead =>
    rw [hsession, hcalls, hadded]
    exact .right _ (.right _ hahead)
  | givenUp _ _ hsession hcalls =>
    rw [hsession, hcalls]
    exact .right _ (.left _ _ (Nat.lt_succ_self _))
  | begun _ hbudget _ hsession =>
    have hleft : u.session.callsLeft < t.session.callsLeft := by
      rw [hsession]
      show t.session.props.execCount - (t.session.execs + 1) < t.session.callsLeft
      unfold Session.callsLeft
      omega
    exact .left _ _ hleft
  | @carriedOut f _ _ _ _ _ hdue hinvoke hcalls =>
    -- The call that is carried out is no longer open, and the budget is as it was.
    have hkeeps : t.session.dict.reloads f = false :=
      Bool.eq_false_iff.mpr fun hfresh => hreloads (reloads_of_due hstep hdue hcalls hfresh)
    rw [← Dictionary.reloads_permits] at hkeeps
    rw [(Action.changes_of_invoke hinvoke).callsLeft_eq hkeeps, hcalls]
    exact .right _ (.left _ _ (Nat.lt_succ_self _))

/-- From every state, steps lead to a call that loads a fresh budget, or there are only so many of
them. -/
theorem reloads_or_run_ends (t : Interpreter) :
    (∃ u, t.Reaches u ∧ u.Reloads) ∨ ∃ steps, ∀ u, run steps t ≠ .unfinished u := by
  cases hstep : t.step with
  | next u =>
    by_cases hreloads : t.Reloads
    · exact .inl ⟨t, .refl, hreloads⟩
    · have hlt := rank_lt_of_step hstep hreloads
      rcases reloads_or_run_ends u with ⟨v, hv, hreload⟩ | ⟨steps, hends⟩
      · exact .inl ⟨v, hv.of_step hstep, hreload⟩
      · refine .inr ⟨steps + 1, fun v => ?_⟩
        rw [run, hstep]
        exact hends v
  | finished u => exact .inr ⟨1, fun v => by simp [run, hstep]⟩
  | raised e u => exact .inr ⟨1, fun v => by simp [run, hstep]⟩
  | fault => exact .inr ⟨1, fun v => by simp [run, hstep]⟩
termination_by t.rank
decreasing_by exact hlt

/-- More steps than a run takes change nothing. -/
theorem run_of_le {steps fuel : Nat} {t : Interpreter} (hle : steps ≤ fuel)
    (hends : ∀ u, run steps t ≠ .unfinished u) : run fuel t = run steps t := by
  induction steps generalizing t fuel with
  | zero => exact absurd rfl (hends t)
  | succ steps ih =>
    obtain ⟨fuel, rfl⟩ : ∃ n, fuel = n + 1 := ⟨fuel - 1, by omega⟩
    unfold run at hends ⊢
    cases hstep : t.step with
    | next u =>
      rw [hstep] at hends
      exact ih (by omega) hends
    | finished u => rfl
    | raised e u => rfl
    | fault => rfl

/-- A program whose run comes to an end is evaluated to an ending, however many steps more are
allowed. -/
theorem evaluate_of_run_ends {steps : Nat} {t : Interpreter} {text : String}
    (hends : ∀ u, run steps (t.load text) ≠ .unfinished u) :
    (∀ fuel, steps ≤ fuel → t.evaluate fuel text = t.evaluate steps text) ∧
      (t.evaluate steps text).1 ≠ .unfinished := by
  constructor
  · intro fuel hle
    rw [evaluate_eq, evaluate_eq, run_of_le hle hends]
  · rw [evaluate_eq]
    cases hrun : run steps (t.load text) with
    | finished u => cases hdone : u.doneText? <;> simp [hdone]
    | raised e u => cases hfailure : u.failure? e <;> simp [hfailure]
    | fault => simp
    | unfinished u => exact absurd hrun (hends u)

/-- Every program, from every state, comes after some number of steps to a call that loads a fresh
budget, or to an ending that more steps do not change, whatever it defines or expands. The ending is
an outcome or a failure if the scanner is aligned in all states of the program. -/
theorem evaluate_ends_or_reloads (t : Interpreter) (text : String) :
    (∃ u, (t.load text).Reaches u ∧ u.Reloads) ∨
      ∃ steps ending t', (∀ fuel, steps ≤ fuel → t.evaluate fuel text = (ending, t')) ∧
        ending ≠ .unfinished ∧
        (t.Reachable → (∀ u, (t.load text).Reaches u → u.Aligned) →
          (∃ outcome, ending = .ok outcome) ∨ ∃ failure, ending = .error failure) := by
  rcases reloads_or_run_ends (t.load text) with hreloads | ⟨steps, hends⟩
  · exact .inl hreloads
  · obtain ⟨hsame, hended⟩ := evaluate_of_run_ends hends
    refine .inr ⟨steps, (t.evaluate steps text).1, (t.evaluate steps text).2, hsame, hended,
      fun hreachable haligned => ?_⟩
    have hfree := evaluate_ne_fault hreachable.wellFormed hreachable.calls_eq haligned steps
    cases hending : (t.evaluate steps text).1 with
    | ok outcome => exact .inl ⟨outcome, rfl⟩
    | error failure => exact .inr ⟨failure, rfl⟩
    | fault => exact absurd hending hfree
    | unfinished => exact absurd hending hended

end Interpreter

end TextMacro
