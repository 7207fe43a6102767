import TextMacro.Proofs.Steps

/-!
# The stack of calls

The frames of the calls in progress and the argument lists that the scanner is in are kept apart,
and each step that begins a call, completes it or gives it up changes both. `StandsOn` says that
there is a frame for each list, on top of the frames that were there before the program. A step
keeps that whether it goes on (`GoesOn.standsOn`) or fails (`Fails.standsOn`), so all states of a
program have it (`Reaches.standsOn`): the stack is never found empty inside a call, a program that
ends by itself has taken off what it has put on, and a program that fails leaves above the old
frames only what unwinding takes off (`calls_evaluate`).
-/

namespace TextMacro.Interpreter

variable {t u : Interpreter} {below : List Frame}

/-- There is a frame for each argument list, and the frames stand on those of `below`. -/
def StandsOn (t : Interpreter) (below : List Frame) : Prop :=
  ∃ frames, frames.length = t.lists.length ∧ t.calls.items = frames ++ below

namespace StandsOn

/-- Inside a call its frame is on top of the stack. -/
theorem exists_cons {list : ArgumentList} {outer : List ArgumentList} (h : t.StandsOn below)
    (hlists : t.lists = list :: outer) :
    ∃ frame frames, t.calls.items = frame :: (frames ++ below) ∧ frames.length = outer.length := by
  obtain ⟨frames, hlength, hcalls⟩ := h
  rw [hlists] at hlength
  cases frames with
  | nil => simp at hlength
  | cons frame frames => exact ⟨frame, frames, hcalls, by simpa using hlength⟩

/-- Outside all calls only the frames from before are on the stack. -/
theorem items_eq (h : t.StandsOn below) (hlists : t.lists = []) : t.calls.items = below := by
  obtain ⟨frames, hlength, hcalls⟩ := h
  rw [hlists, List.length_nil, List.length_eq_zero_iff] at hlength
  rw [hcalls, hlength, List.nil_append]

/-- The depth is that of the lists and of what is below. -/
theorem depth_eq (h : t.StandsOn below) : t.calls.depth = t.lists.length + below.length := by
  obtain ⟨frames, hlength, hcalls⟩ := h
  rw [Stack.depth, hcalls, List.length_append, hlength]

/-- The frames from before are at the bottom of the stack. -/
theorem suffix (h : t.StandsOn below) : below <:+ t.calls.items := by
  obtain ⟨frames, -, hcalls⟩ := h
  rw [hcalls]
  exact List.suffix_append frames below

/-- Where neither the stack nor the lists change, the frames stand as before. -/
theorem congr (h : t.StandsOn below) (hcalls : u.calls = t.calls) (hlists : u.lists = t.lists) :
    u.StandsOn below := by
  obtain ⟨frames, hlength, hitems⟩ := h
  refine ⟨frames, ?_, ?_⟩
  · rw [hlists, hlength]
  · rw [hcalls, hitems]

/-- Another frame may stand in the place of that of the innermost call. -/
theorem replace {frame frame' : Frame} {frames : List Frame} (h : t.StandsOn below)
    (hinside : t.lists ≠ []) (hcalls : t.calls.items = frame :: frames)
    (hadded : u.calls.items = frame' :: frames) (hlists : u.lists = t.lists) :
    u.StandsOn below := by
  obtain ⟨list, outer, hcons⟩ := List.exists_cons_of_ne_nil hinside
  obtain ⟨top, inner, hitems, hlength⟩ := h.exists_cons hcons
  obtain ⟨-, hrest⟩ := List.cons.inj (hcalls.symm.trans hitems)
  refine ⟨frame' :: inner, ?_, ?_⟩
  · rw [hlists, hcons, List.length_cons, List.length_cons, hlength]
  · rw [hadded, hrest, List.cons_append]

/-- A frame may be put on top with a list. -/
theorem push {frame : Frame} {list : ArgumentList} (h : t.StandsOn below)
    (hcalls : u.calls.items = frame :: t.calls.items) (hlists : u.lists = list :: t.lists) :
    u.StandsOn below := by
  obtain ⟨frames, hlength, hitems⟩ := h
  refine ⟨frame :: frames, ?_, ?_⟩
  · rw [hlists, List.length_cons, List.length_cons, hlength]
  · rw [hcalls, hitems, List.cons_append]

/-- The frame on top may be taken off with the innermost list. -/
theorem pop {frame : Frame} {list : ArgumentList} (h : t.StandsOn below)
    (hcalls : t.calls.items = frame :: u.calls.items) (hlists : t.lists = list :: u.lists) :
    u.StandsOn below := by
  obtain ⟨top, frames, hitems, hlength⟩ := h.exists_cons hlists
  obtain ⟨-, hrest⟩ := List.cons.inj (hcalls.symm.trans hitems)
  exact ⟨frames, hlength, hrest⟩

end StandsOn

/-! ## What a step does to the stack -/

/-- A step that goes on keeps a frame for each list, and what is below. -/
theorem GoesOn.standsOn (h : t.GoesOn u) (hstands : t.StandsOn below) : u.StandsOn below := by
  cases h with
  | passed _ _ hcalls hlists => exact hstands.congr hcalls hlists
  | collected _ _ hcalls hadded hinside hlists => exact hstands.replace hinside hcalls hadded hlists
  | givenUp _ _ _ hcalls hlists => exact hstands.pop hcalls hlists
  | begun _ _ _ _ hcalls hlists => exact hstands.push hcalls hlists
  | carriedOut _ _ _ hcalls hlists => exact hstands.pop hcalls hlists

/-- So does a step that fails. -/
theorem Fails.standsOn {e : Error} (h : t.Fails e u) (hstands : t.StandsOn below) :
    u.StandsOn below := by
  cases h with
  | inText _ _ _ hcalls hlists => exact hstands.congr hcalls hlists
  | spent _ _ _ hsame => rwa [hsame]
  | tooDeep _ _ _ _ _ hcalls hlists => exact hstands.congr hcalls hlists
  | missed _ _ _ _ _ hcalls hlists => exact hstands.congr hcalls hlists
  | inCall _ _ _ hcalls hadded hinside hlists =>
    exact hstands.replace hinside hcalls hadded hlists

/-! ## Programs -/

/-- Before the first step no call has begun. -/
theorem standsOn_load (t : Interpreter) (text : String) :
    (t.load text).StandsOn t.calls.items := ⟨[], rfl, rfl⟩

/-- In all states of a run there is a frame for each list. -/
theorem Reaches.standsOn (hu : t.Reaches u) (h : t.StandsOn below) : u.StandsOn below := by
  induction hu with
  | refl => exact h
  | next _ hstep ih => exact (goesOn_of_step hstep).standsOn ih

/-- What is left on the stack when a run has ended. -/
theorem standsOn_run (h : t.StandsOn below) (fuel : Nat) :
    match run fuel t with
    | .finished u => u.calls.items = below
    | .raised _ u => u.StandsOn below
    | .fault => True
    | .unfinished u => u.StandsOn below := by
  have hends := run_ends fuel t
  cases hrun : run fuel t with
  | finished u =>
    rw [hrun] at hends
    obtain ⟨v, hv, hstep⟩ := hends
    obtain ⟨-, hlists, rfl⟩ := finished_of_step hstep
    exact (hv.standsOn h).items_eq hlists
  | raised e u =>
    rw [hrun] at hends
    obtain ⟨v, hv, hstep⟩ := hends
    exact (fails_of_step hstep).standsOn (hv.standsOn h)
  | fault => trivial
  | unfinished u =>
    rw [hrun] at hends
    exact hends.standsOn h

/-- A program leaves the stack as it has found it, however it ends. -/
theorem calls_evaluate (fuel : Nat) (t : Interpreter) (text : String) :
    (t.evaluate fuel text).2.calls = t.calls := by
  have hleft := standsOn_run (t.standsOn_load text) fuel
  rw [evaluate_eq]
  cases hrun : run fuel (t.load text) with
  | finished u =>
    -- Nothing is unwound here: the calls have been taken off one by one.
    rw [hrun] at hleft
    have hcalls : u.calls = t.calls := congrArg Stack.mk hleft
    dsimp only
    split
    · exact hcalls
    · exact hcalls
  | raised e u =>
    rw [hrun] at hleft
    have hcalls := Stack.unwind_of_suffix hleft.suffix
    dsimp only
    split
    · exact hcalls
    · exact hcalls
  | fault => rfl
  | unfinished u =>
    rw [hrun] at hleft
    exact Stack.unwind_of_suffix (StandsOn.suffix hleft)

/-- A program leaves the interpreter cleared, with the calls that were in progress before it and the
session it began with, or one that a step of it leaves. -/
theorem session_of_evaluate (fuel : Nat) (t : Interpreter) (text : String) :
    ∃ s, (t.evaluate fuel text).2 = clear { t with session := s } ∧
      (s = t.session ∨ ∃ v, (t.load text).Reaches v ∧ Follows v.session s) := by
  have hcalls := calls_evaluate fuel t text
  have hends := run_ends fuel (t.load text)
  -- Where a program ends, the calls are those from before.
  have hclears : ∃ u : Interpreter, (t.evaluate fuel text).2 = u.clear ∧
      (u.session = t.session ∨ ∃ v, (t.load text).Reaches v ∧ Follows v.session u.session) := by
    rw [evaluate_eq]
    cases hrun : run fuel (t.load text) with
    | finished u =>
      rw [hrun] at hends
      obtain ⟨v, hv, hstep⟩ := hends
      obtain ⟨-, -, rfl⟩ := finished_of_step hstep
      refine ⟨u, ?_, .inr ⟨u, hv, .same⟩⟩
      dsimp only
      split
      · rfl
      · rfl
    | raised e u =>
      rw [hrun] at hends
      obtain ⟨v, hv, hstep⟩ := hends
      refine ⟨u.unwind t.calls.depth, ?_, .inr ⟨v, hv, (fails_of_step hstep).follows⟩⟩
      dsimp only
      split
      · rfl
      · rfl
    -- Nothing of a program that reaches outside the buffer is kept.
    | fault => exact ⟨t, rfl, .inl rfl⟩
    | unfinished u =>
      rw [hrun] at hends
      exact ⟨u.unwind t.calls.depth, rfl, .inr ⟨u, hends, .same⟩⟩
  obtain ⟨u, hu, hsession⟩ := hclears
  rw [hu] at hcalls
  have hcalls : u.calls = t.calls := hcalls
  refine ⟨u.session, ?_, hsession⟩
  rw [hu, clear, clear, hcalls]

/-- Between programs no call is in progress. -/
theorem Reachable.calls_eq (h : t.Reachable) : t.calls = .empty := by
  induction h with
  | start => rfl
  | evaluate fuel text _ ih => rw [calls_evaluate, ih]
  | surroundings _ _ _ _ _ _ _ ih => exact ih
  | setProp _ _ _ _ ih => exact ih
  | resetProps _ ih => exact ih
  | rebind _ _ _ ih => exact ih

end TextMacro.Interpreter
