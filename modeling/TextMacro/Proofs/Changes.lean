import TextMacro.Proofs.Calls
import TextMacro.Proofs.Frames

/-!
# Invariants of sessions

Whatever a step of a program does to the session is done by carrying out a call, which makes
elementary changes only, or is the counting of a call and the report of it. So what each elementary
change keeps is kept by every step of every program (`Session.Invariant`).
-/

namespace TextMacro

/-- What holds when a session begins and is kept by everything that can happen to it. -/
structure Session.Invariant (I : Session → Prop) : Prop where
  start : ∀ streams files clock log, I (.start streams files clock log)
  change : ∀ {permits : Permits} {s s' : Session}, s.Change permits s' → I s → I s'
  /-- A call is counted. -/
  counted : ∀ {s : Session}, I s → I { s with execs := s.execs + 1 }
  /-- The surroundings change between programs. -/
  surroundings : ∀ {s : Session} streams files clock log args traceAll, I s →
    I { s with streams, files, clock, log, args, traceAll }

namespace Session.Invariant

variable {I : Session → Prop} (h : Session.Invariant I) {s s' : Session} {permits : Permits}
include h

/-- Elementary changes keep an invariant. -/
theorem changes (hchanges : s.Changes permits s') (hs : I s) : I s' :=
  hchanges.keeps h.change hs

/-- What a step does to the session keeps an invariant. -/
theorem follows (hfollows : Interpreter.Follows s s') (hs : I s) : I s' := by
  cases hfollows with
  | same => exact hs
  | counted => exact h.counted hs
  | begun depth active => exact h.change (.report _ : Session.Change {} _ _) (h.counted hs)
  | invoked hinvoke => exact h.changes (Action.changes_of_invoke hinvoke) hs
  | failed hinvoke => exact h.changes (Action.changes_of_invoke_error hinvoke).1 hs

/-- An invariant holds in all states that steps lead to. -/
theorem reaches {t u : Interpreter} (hu : t.Reaches u) (ht : I t.session) : I u.session := by
  induction hu with
  | refl => exact ht
  | next _ hstep ih => exact h.follows (Interpreter.goesOn_of_step hstep).follows ih

/-- An invariant holds between programs. -/
theorem reachable {t : Interpreter} (ht : t.Reachable) : I t.session := by
  induction ht with
  | start streams files clock log => exact h.start streams files clock log
  | @evaluate t fuel text _ ih =>
    have hhalt : ∀ {s : Session}, I s → I { s with halt := none } :=
      h.change (.halt none rfl : Session.Change { halts := true } _ _)
    obtain ⟨s, hs, hsession⟩ := Interpreter.session_of_evaluate fuel t text
    have hinvariant : I s := by
      rcases hsession with rfl | ⟨v, hv, hfollows⟩
      · exact ih
      · exact h.follows hfollows (h.reaches hv (hhalt ih))
    rw [hs]
    exact hhalt hinvariant
  | surroundings streams files clock log args traceAll _ ih =>
    exact h.surroundings streams files clock log args traceAll ih
  | setProp name value _ hset ih =>
    exact h.change (.setProp hset fun _ => rfl : Session.Change { reloads := true } _ _) ih
  | resetProps _ ih => exact h.change (.reset rfl : Session.Change { reloads := true } _ _) ih
  | rebind chars _ hrebind ih => exact h.change (.rebind hrebind : Session.Change {} _ _) ih

end Session.Invariant

end TextMacro
