import TextMacro.Proofs.Layout

/-!
# The scanner refines the rewriting of plain texts

Each step of the scanner does what the step of the rewriting does (`Represents.step`), as long as
the widths that it steps over are those that the argument lists began with (`Uniform`).
`evaluate_refines` is the same for whole programs.
-/

namespace TextMacro

namespace MetaChars

variable {m n k : MetaChars}

/-- The widths that are compared are those of the characters that are stepped over. -/
theorem sameWidths_iff : m.sameWidths n = true ↔ m.sharp.utf8Size = n.sharp.utf8Size ∧
    m.opening.utf8Size = n.opening.utf8Size ∧ m.escape.utf8Size = n.escape.utf8Size := by
  simp [sameWidths, and_assoc]

/-- Meta characters are as wide as themselves. -/
theorem sameWidths_refl (m : MetaChars) : m.sameWidths m = true := by
  simp [sameWidths]

/-- Characters with the widths of the same others have the same widths. -/
theorem sameWidths_of_common (hm : m.sameWidths k = true) (hn : n.sameWidths k = true) :
    m.sameWidths n = true := by
  rw [sameWidths_iff] at *
  omega

/-- Meta characters that are as wide as others are as wide as those are. -/
theorem sameWidths_trans (hm : m.sameWidths n = true) (hn : n.sameWidths k = true) :
    m.sameWidths k = true := by
  rw [sameWidths_iff] at *
  omega

/-- The character that has a role. -/
theorem eq_of_role {c : Char} :
    (m.role c = .escape → c = m.escape) ∧ (m.role c = .opening → c = m.opening) ∧
      (m.role c = .sharp → c = m.sharp) := by
  unfold role
  refine ⟨fun h => ?_, fun h => ?_, fun h => ?_⟩
  all_goals
    repeat' split at h
    all_goals first | assumption | exact absurd h (by decide)

end MetaChars

namespace Rewriter

/-- The widths that are stepped over are those that all argument lists began with. -/
def Uniform (r : Rewriter) : Prop :=
  ∀ call ∈ r.calls, call.chars.sameWidths r.session.chars = true

/-- Adding characters changes no meta characters that a list began with. -/
theorem Uniform.emit {r : Rewriter} (h : r.Uniform) (cs : List Char) : (r.emit cs).Uniform := by
  obtain ⟨session, output, text, calls⟩ := r
  cases calls with
  | nil => exact h
  | cons call outer =>
    intro c hc
    rcases List.mem_cons.mp hc with rfl | hc
    · exact h call List.mem_cons_self
    · exact h c (List.mem_cons_of_mem _ hc)

/-- Lists that began with the same widths all keep them if the innermost does. -/
theorem Uniform.of_keepsWidths {r : Rewriter} {session : Session} (h : r.Uniform)
    (hkeeps : { r with session }.keepsWidths = true) : { r with session }.Uniform := by
  obtain ⟨old, output, text, calls⟩ := r
  cases calls with
  | nil =>
    intro call hcall
    simp at hcall
  | cons inner outer =>
    intro call hcall
    have hinner : inner.chars.sameWidths session.chars = true := hkeeps
    exact MetaChars.sameWidths_trans
      (MetaChars.sameWidths_of_common (h call hcall) (h inner List.mem_cons_self)) hinner

/-- Where the rewriting goes on, it does so with the widths of all argument lists. -/
def Step.GoesOnUniform : Step → Prop
  | .next r => r.Uniform
  | _ => True

/-- The result of a call is placed with the widths that all lists began with. -/
theorem Uniform.place {r : Rewriter} {session : Session} (h : r.Uniform) (active : Bool)
    (disposition : Disposition) (result : String) :
    ({ r with session }.place active disposition result).GoesOnUniform := by
  unfold Rewriter.place
  cases hkeeps : keepsWidths { r with session } with
  | false => trivial
  | true =>
    have huniform := h.of_keepsWidths hkeeps
    rw [if_neg (by decide)]
    split
    · exact huniform
    · split
      · exact huniform
      · exact huniform.emit _

/-- A call that is carried out leaves the widths that all lists began with, or stops. -/
theorem Uniform.finishCall {r : Rewriter} (h : r.Uniform) (call : OpenCall) :
    (r.finishCall call).GoesOnUniform := by
  unfold Rewriter.finishCall
  split
  · trivial
  · exact h.place _ _ _

/-- A completed argument leaves the widths that all lists began with. -/
theorem Uniform.finishArgument {r : Rewriter} {call : OpenCall} {outer : List OpenCall}
    (h : r.Uniform) (hcalls : r.calls = call :: outer) (rest : List Char) (closes : Bool) :
    (r.finishArgument call outer rest closes).GoesOnUniform := by
  have houter : ∀ inner ∈ outer, inner.chars.sameWidths r.session.chars = true := by
    intro inner hinner
    exact h inner (hcalls ▸ List.mem_cons_of_mem _ hinner)
  have hcall : call.chars.sameWidths r.session.chars = true := h call (hcalls ▸ List.mem_cons_self)
  unfold Rewriter.finishArgument
  split
  · trivial
  · cases closes with
    -- The list that ends is no longer among those that are compared.
    | true => exact Uniform.finishCall (r := { r with text := rest, calls := outer }) houter _
    | false =>
      intro inner hinner
      rcases List.mem_cons.mp hinner with rfl | hinner
      · exact hcall
      · exact houter inner hinner

/-- A list that begins does so with the widths of now. -/
theorem Uniform.beginCall {r : Rewriter} (h : r.Uniform) (active : Bool) (rest : List Char) :
    (r.beginCall active rest).GoesOnUniform := by
  unfold Rewriter.beginCall
  dsimp only
  split
  · trivial
  · split
    · trivial
    · -- The new list begins with the widths of now.
      intro call hcall
      rcases List.mem_cons.mp hcall with rfl | hcall
      · exact MetaChars.sameWidths_refl _
      · exact h call hcall

/-- Whatever the next character is, the widths stay those that all lists began with. -/
theorem Uniform.scanChar {r : Rewriter} (h : r.Uniform) (m : MetaChars) (c : Char)
    (rest : List Char) : (r.scanChar m c rest).GoesOnUniform := by
  unfold Rewriter.scanChar
  split
  · cases rest with
    | nil => exact h.emit _
    | cons d rest => exact h.emit _
  · unfold Rewriter.copyBracketed
    split
    · exact h.emit _
    · trivial
  · rename_i hcalls
    exact h.finishArgument hcalls rest false
  · rename_i hcalls
    exact h.finishArgument hcalls rest true
  · unfold Rewriter.sharp
    split
    · exact h.beginCall _ _
    · exact h.emit _
  · exact h.emit _

/-- A step leaves the widths those of all argument lists, where it does not stop. -/
theorem Uniform.step {r : Rewriter} (h : r.Uniform) : r.step.GoesOnUniform := by
  unfold Rewriter.step
  split
  · split
    · trivial
    · split
      · trivial
      · exact h.scanChar _ _ _
  · rename_i call outer hcalls
    split
    · intro inner hinner
      exact h inner (hcalls ▸ List.mem_cons_of_mem _ hinner)
    · split
      · trivial
      · exact h.scanChar _ _ _

end Rewriter

/-! ## Steps over whole characters -/

namespace Rewriter

/-- Drops the characters that an escape takes up in favour of the one behind them. At the end of the
text they stand for themselves. -/
def copyBehind (r : Rewriter) (cs : List Char) : List Char → Step
  | [] => .next (r.emitThen cs [])
  | d :: rest => .next (r.emitThen [d] rest)

/-- An escaped character is copied without the escape. -/
theorem copyEscaped_eq (r : Rewriter) (c : Char) (rest : List Char) :
    r.copyEscaped c rest = r.copyBehind [c] rest := by
  cases rest with
  | nil => rfl
  | cons d rest => rfl

/-- Begins a call if one starts with what a sharp takes up and `behind` behind it, and otherwise
adds the sharp, which is the character `c` in front of `rest`. -/
def sharpBefore (r : Rewriter) (behind : List Char) (c : Char) (rest : List Char) : Step :=
  match r.session.chars.callStart? behind with
  | some (active, rest) => r.beginCall active rest
  | none => .next (r.emitThen [c] rest)

/-- A character that may start a call is looked at with what stands behind it. -/
theorem sharp_eq (r : Rewriter) (c : Char) (rest : List Char) :
    r.sharp c rest = r.sharpBefore rest c rest := rfl

end Rewriter

namespace Interpreter.Represents

variable {t : Interpreter} {r : Rewriter}

/-- An escape that takes up whole characters. -/
theorem copyBehind {cs rest : List Char} (h : t.Represents r) (htext : r.text = cs ++ rest)
    (hw : t.session.chars.escape.utf8Size = cs.utf8Encode.size) :
    (t.move (·.copyEscaped t.session.chars)).Mirrors (r.copyBehind cs rest) := by
  have hz := h.zones
  rw [htext] at hz
  cases rest with
  | nil =>
    rw [List.append_nil] at hz
    exact h.move_moved (hz.copyEscaped_end hw)
  | cons d rest => exact h.move_moved (hz.copyEscaped_next hw)

/-- A bracketed text behind what the opening bracket takes up. -/
theorem copyBracketed {rest : List Char} (h : t.Represents r)
    (hz : (t.zones.skip t.session.chars.opening.utf8Size).Holds r.done rest) :
    (t.move (·.copyBracketed t.session.chars)).Mirrors (r.copyBracketed rest) := by
  obtain ⟨z', hz'⟩ := hz.copyBracketedFrom_eq (m := t.session.chars) Nat.one_pos
  unfold Rewriter.copyBracketed
  rw [← h.session_eq]
  cases hfound : t.session.chars.bracketed? 1 rest with
  | none =>
    rw [hfound] at hz'
    exact h.move_failed ⟨z', hz'⟩
  | some found =>
    rw [hfound] at hz'
    exact h.move_moved ⟨z', hz'⟩

/-- A sharp that takes up whole characters. -/
theorem sharpBefore {c : Char} {rest cs behind : List Char} (h : t.Represents r)
    (htext : r.text = c :: rest) (hcs : r.text = cs ++ behind)
    (hw : t.session.chars.sharp.utf8Size = cs.utf8Encode.size) :
    (match t.zones.callStart t.session.chars with
      | .error e => .raised e t
      | .ok (some active) => t.beginCall t.session.chars active
      | .ok none => t.move (·.transfer (TextUnit.char c).width) : Step).Mirrors
      (r.sharpBefore behind c rest) := by
  have hz := h.zones
  rw [hcs] at hz
  unfold Rewriter.sharpBefore
  rw [hz.callStart_eq hw, ← h.session_eq]
  cases hstart : t.session.chars.callStart? behind with
  | none => exact h.transfer htext
  | some start => exact h.beginCall (hz.skip_callStart hw hstart)

/-- A character does the same in both, whatever meta characters it is recognised by, if these have
the widths that are stepped over. -/
theorem scanChar {m : MetaChars} {c : Char} {rest : List Char} (h : t.Represents r)
    (htext : r.text = c :: rest) (hwidths : m.sameWidths t.session.chars = true) :
    (t.scanUnit m t.session.chars (.char c)).Mirrors (r.scanChar m c rest) := by
  obtain ⟨hsharp, hopening, hescape⟩ := MetaChars.sameWidths_iff.mp hwidths
  unfold scanUnit Rewriter.scanChar
  dsimp only
  cases hrole : m.role c with
  | escape =>
    rw [← MetaChars.eq_of_role.1 hrole] at hescape
    rw [Rewriter.copyEscaped_eq]
    exact h.copyBehind htext (by simpa using hescape.symm)
  | opening =>
    rw [← MetaChars.eq_of_role.2.1 hrole] at hopening
    exact h.copyBracketed ((h.zones_cons htext).skip (by simpa using hopening.symm))
  | sharp =>
    rw [← MetaChars.eq_of_role.2.2 hrole] at hsharp
    have hcs : r.text = [c] ++ rest := htext
    exact h.sharpBefore htext hcs (by simpa using hsharp.symm)
  | semi =>
    -- A separator has a meaning inside a call only.
    rw [h.lists_eq]
    cases hcalls : r.calls with
    | nil => exact h.transfer htext
    | cons call outer => exact Rewriter.finishArgument_mirrors h hcalls htext
  | closing =>
    rw [h.lists_eq]
    cases hcalls : r.calls with
    | nil => exact h.transfer htext
    | cons call outer => exact Rewriter.finishArgument_mirrors h hcalls htext
  | plain => exact h.transfer htext

/-- The character under the cursor is recognised by the same characters. -/
theorem recognising_eq (h : t.Represents r) : t.recognising = r.recognising := by
  unfold recognising Rewriter.recognising
  rw [h.lists_eq, h.session_eq]
  cases r.calls with
  | nil => rfl
  | cons call outer => rfl

/-- With a character to be scanned a step scans it. -/
theorem step_scan {c : Char} {rest : List Char} (h : t.Represents r)
    (hhalt : ¬ r.session.halt.isSome) (htext : r.text = c :: rest) :
    t.step = t.scanUnit r.recognising t.session.chars (.char c) := by
  have hpeek := h.zones.peek
  rw [htext] at hpeek
  have hnone : t.session.halt = none := by simpa [h.session_eq] using hhalt
  rw [step_eq_scanUnit hnone hpeek, h.recognising_eq]

/-- A step that does not scan does what the step of the rewriting does: the program has asked to
stop, or nothing is left of it. -/
theorem step_of_idle (h : t.Represents r) (hidle : r.session.halt.isSome ∨ r.text = []) :
    t.step.Mirrors r.step := by
  have hpeek := h.zones.peek
  unfold Interpreter.step
  rw [h.lists_eq, hpeek, h.session_eq]
  by_cases hhalt : r.session.halt.isSome
  · rw [Rewriter.step_halted hhalt]
    cases hcalls : r.calls with
    | nil =>
      dsimp only [Rewriter.placed]
      rw [if_pos hhalt]
      exact ⟨t, rfl, h, hcalls⟩
    | cons call outer =>
      -- The innermost call is given up with what it has collected.
      dsimp only [Rewriter.placed]
      rw [if_pos hhalt, giveUp_eq, h.calls_eq, hcalls, h.session_eq]
      have hz := h.zones
      rw [Rewriter.done, hcalls] at hz
      exact ⟨_, rfl, rfl, hz.drop (TextUnit.utf8ByteSize_ofList _), rfl, rfl⟩
  · have htext := hidle.resolve_left hhalt
    rw [Rewriter.step_nil hhalt htext, htext]
    cases hcalls : r.calls with
    | nil =>
      dsimp only [Rewriter.placed]
      rw [if_neg hhalt]
      exact ⟨t, rfl, h, hcalls⟩
    | cons call outer =>
      dsimp only [Rewriter.placed]
      rw [if_neg hhalt]
      exact ⟨t, rfl, h⟩

/-- A step of the scanner does what a step of the rewriting does, if the innermost list has the
widths that are stepped over. -/
theorem step_of_keepsWidths (h : t.Represents r) (hkeeps : r.keepsWidths = true) :
    t.step.Mirrors r.step := by
  by_cases hhalt : r.session.halt.isSome
  · exact h.step_of_idle (.inl hhalt)
  · cases htext : r.text with
    | nil => exact h.step_of_idle (.inr htext)
    | cons c rest =>
      have hwidths : r.recognising.sameWidths t.session.chars = true := by
        unfold Rewriter.keepsWidths at hkeeps
        unfold Rewriter.recognising
        rw [h.session_eq]
        cases hcalls : r.calls with
        | nil => exact MetaChars.sameWidths_refl _
        | cons call outer =>
          rw [hcalls] at hkeeps
          exact hkeeps
      rw [h.step_scan hhalt htext, Rewriter.step_cons hhalt htext]
      exact h.scanChar htext hwidths

/-- A step of the scanner does what a step of the rewriting does. -/
theorem step (h : t.Represents r) (huniform : r.Uniform) : t.step.Mirrors r.step := by
  refine h.step_of_keepsWidths ?_
  unfold Rewriter.keepsWidths
  cases hcalls : r.calls with
  | nil => rfl
  | cons call outer => exact huniform call (hcalls ▸ List.mem_cons_self)

/-! ## Whole programs -/

/-- A whole run does what the run of the rewriting does, as far as that goes. -/
theorem run (fuel : Nat) (h : t.Represents r) (huniform : r.Uniform) :
    match r.run fuel with
    | .finished s => ∃ u, t.run fuel = .finished u ∧ u.Represents s ∧ s.calls = []
    | .raised e s => ∃ u, t.run fuel = .raised e u ∧ u.Represents s
    | .unfinished s => ∃ u, t.run fuel = .unfinished u ∧ u.Represents s
    | .widthsChanged => ∃ u, t.Reaches u ∧ ¬ u.KeepsWidths := by
  induction fuel generalizing t r with
  | zero => exact ⟨t, rfl, h⟩
  | succ fuel ih =>
    have hstep := h.step huniform
    unfold Rewriter.run Interpreter.run
    cases hr : r.step with
    | finished s =>
      rw [hr] at hstep
      obtain ⟨u, hu, hrep, hcalls⟩ := hstep
      rw [hu]
      exact ⟨u, rfl, hrep, hcalls⟩
    | raised e s =>
      rw [hr] at hstep
      obtain ⟨u, hu, hrep⟩ := hstep
      rw [hu]
      exact ⟨u, rfl, hrep⟩
    | widthsChanged =>
      rw [hr] at hstep
      obtain ⟨u, s, hu, -, hwidths⟩ := hstep
      exact ⟨u, .next .refl hu, hwidths⟩
    | next s =>
      rw [hr] at hstep
      obtain ⟨u, hu, hrep⟩ := hstep
      rw [hu]
      have hs := huniform.step
      rw [hr] at hs
      -- What the remaining steps do is said of `u`, which `t` steps to.
      have hrest := ih hrep hs
      dsimp only
      cases hrun : s.run fuel with
      | widthsChanged =>
        rw [hrun] at hrest
        obtain ⟨v, hv, hwidths⟩ := hrest
        exact ⟨v, hv.of_step hu, hwidths⟩
      | finished s =>
        rw [hrun] at hrest
        exact hrest
      | raised e s =>
        rw [hrun] at hrest
        exact hrest
      | unfinished s =>
        rw [hrun] at hrest
        exact hrest

end Interpreter.Represents

deriving instance DecidableEq for Ending

/-- How a program ends, and the session it leaves; nothing if the widths have changed. -/
def Rewriter.Rest.result? : Rewriter.Rest → Option (Ending Failure Outcome × Session)
  | .finished r =>
    some (.ok ⟨String.ofList r.output, r.session.halt⟩, { r.session with halt := none })
  | .raised e r => some (.error (r.failure e), { r.session with halt := none })
  | .unfinished r => some (.unfinished, { r.session with halt := none })
  | .widthsChanged => none

/-- A run of the scanner ends as a run of the rewriting does. -/
def Interpreter.Rest.Mirrors (s : Interpreter.Rest) : Rewriter.Rest → Prop
  | .finished r => ∃ t, s = .finished t ∧ t.Represents r ∧ r.calls = []
  | .raised e r => ∃ t, s = .raised e t ∧ t.Represents r
  | .unfinished r => ∃ t, s = .unfinished t ∧ t.Represents r
  | .widthsChanged => False

namespace Interpreter

variable {t : Interpreter}

/-- A program starts without argument lists. -/
theorem uniform_start (session : Session) (text : String) :
    (Rewriter.start session text).Uniform := by
  intro call hcall
  simp [Rewriter.start] at hcall

/-- The rewriting does not stop because of widths that are kept. -/
theorem run_ne_widthsChanged (ht : t.calls = .empty) (fuel : Nat) {text : String}
    (hkeeps : ∀ u, (t.load text).Reaches u → u.KeepsWidths) :
    (Rewriter.start t.session text).run fuel ≠ .widthsChanged := by
  intro hstops
  have hrun := (represents_load ht text).run fuel (uniform_start t.session text)
  rw [hstops] at hrun
  obtain ⟨u, hu, hwidths⟩ := hrun
  exact hwidths (hkeeps u hu)

/-- If it does not, a run ends as the run of the rewriting does. -/
theorem run_mirrors (ht : t.calls = .empty) {fuel : Nat} {text : String}
    (hgoes : (Rewriter.start t.session text).run fuel ≠ .widthsChanged) :
    (run fuel (t.load text)).Mirrors ((Rewriter.start t.session text).run fuel) := by
  have hrun := (represents_load ht text).run fuel (uniform_start t.session text)
  cases hr : Rewriter.run fuel (.start t.session text) with
  | widthsChanged => exact absurd hr hgoes
  | finished r =>
    rw [hr] at hrun
    exact hrun
  | raised e r =>
    rw [hr] at hrun
    exact hrun
  | unfinished r =>
    rw [hr] at hrun
    exact hrun

/-- A program is evaluated to the result of the rewriting that its run ends as. -/
theorem evaluate_of_mirrors (ht : t.calls = .empty) {fuel : Nat} {text : String}
    {rest : Rewriter.Rest} (h : (run fuel (t.load text)).Mirrors rest) :
    rest.result?.map (Prod.map id ofSession) = some (t.evaluate fuel text) := by
  rw [evaluate_eq]
  cases rest with
  | finished r =>
    obtain ⟨u, hu, hrep, hcalls⟩ := h
    -- No call is open at the end, so that all that is done with is output.
    have hdone : r.done = r.output := by
      rw [Rewriter.done, hcalls, Rewriter.collected]
    have hnone : u.calls.items = [] := by
      rw [hrep.calls_eq, hcalls, List.map_nil]
    rw [hu]
    dsimp only
    rw [hrep.doneText, hdone, clear_eq_ofSession (congrArg Stack.mk hnone)]
    simp [Rewriter.Rest.result?, hrep.session_eq]
  | raised e r =>
    obtain ⟨u, hu, hrep⟩ := h
    rw [hu]
    dsimp only
    rw [hrep.failure, clear_unwind ht]
    simp [Rewriter.Rest.result?, hrep.session_eq]
  | unfinished r =>
    obtain ⟨u, hu, hrep⟩ := h
    rw [hu]
    dsimp only
    rw [clear_unwind ht]
    simp [Rewriter.Rest.result?, hrep.session_eq]
  | widthsChanged => exact absurd h id

/-- A program is evaluated to what it is rewritten to. -/
theorem evaluate_of_rewriting (ht : t.calls = .empty) {fuel : Nat} {text : String}
    {ending : Ending Failure Outcome} {session : Session}
    (h : Rewriter.evaluate? fuel t.session text = some (ending, session)) :
    t.evaluate fuel text = (ending, ofSession session) := by
  have hresult : ((Rewriter.start t.session text).run fuel).result? = some (ending, session) := by
    rw [← h]
    unfold Rewriter.evaluate? Rewriter.Rest.result?
    cases Rewriter.run fuel (.start t.session text) <;> rfl
  have hgoes : (Rewriter.start t.session text).run fuel ≠ .widthsChanged := by
    intro hstops
    rw [hstops, Rewriter.Rest.result?] at hresult
    cases hresult
  have hevaluate := evaluate_of_mirrors ht (run_mirrors ht hgoes)
  rw [hresult] at hevaluate
  exact (Option.some.inj hevaluate).symm

/-- Evaluating a program in the buffer refines rewriting it as plain texts: from every state of the
interpreter with no call in progress every program ends in the same way, with the same output or
the same report of a failure, and leaves the same session, unless the rewriting stops because a call
inside an argument list leaves a sharp, an opening bracket or an escape of another width than the
list began with. -/
theorem evaluate_refines (t : Interpreter) (ht : t.calls = .empty) (fuel : Nat) (text : String) :
    match Rewriter.evaluate? fuel t.session text with
    | some (ending, session) => t.evaluate fuel text = (ending, ofSession session)
    | none => ∃ u, (t.load text).Reaches u ∧ ¬ u.KeepsWidths := by
  have hrun := (represents_load ht text).run fuel (uniform_start t.session text)
  cases hrewritten : Rewriter.evaluate? fuel t.session text with
  | some result => exact evaluate_of_rewriting ht hrewritten
  | none =>
    -- The rewriting has no result only where it stops.
    unfold Rewriter.evaluate? at hrewritten
    cases hr : Rewriter.run fuel (.start t.session text) with
    | widthsChanged =>
      rw [hr] at hrun
      exact hrun
    | finished r => simp [hr] at hrewritten
    | raised e r => simp [hr] at hrewritten
    | unfinished r => simp [hr] at hrewritten

/-- A string that is defined and called, from an interpreter with which nothing has been done. -/
theorem evaluate_refines_defined :
    ∃ session, fresh.evaluate 40 "#<ds;a;x#>##<a>" = (.ok ⟨"x#", none⟩, ofSession session) := by
  have hending : (Rewriter.evaluate? 40 fresh.session "#<ds;a;x#>##<a>").map (·.1)
      = some (.ok ⟨"x#", none⟩) := by
    decide +kernel
  have hrefines := evaluate_refines fresh rfl 40 "#<ds;a;x#>##<a>"
  cases hrewritten : Rewriter.evaluate? 40 fresh.session "#<ds;a;x#>##<a>" with
  | none => simp [hrewritten] at hending
  | some result =>
    obtain ⟨ending, session⟩ := result
    rw [hrewritten] at hrefines hending
    obtain rfl : ending = .ok ⟨"x#", none⟩ := by simpa using hending
    exact ⟨session, hrefines⟩

end Interpreter

end TextMacro
