import TextMacro.Proofs.Movements
import TextMacro.Proofs.Runs

/-!
# How the buffer is laid out

The scanner keeps the output, the arguments of all open calls and the text still to be scanned in
one buffer, and finds them by byte positions. `Represents` says how these are laid out: what is done
with is the output followed by what the open calls have collected, the outermost first, and the
position that a call remembers is where its own part starts. `Mirrors` relates the outcome of a step
of the scanner to that of a step of the rewriting; it is proved here of the parts of a step that
step over characters by their own widths.
-/

namespace TextMacro

namespace Interpreter

/-- The widths that the scanner steps over are those that the innermost argument list began with. -/
def KeepsWidths (t : Interpreter) : Prop :=
  ∀ list ∈ t.lists.head?, list.chars.sameWidths t.session.chars = true

end Interpreter

namespace Rewriter

/-- The argument lists of the calls, with the positions where the arguments that they collect start.
-/
def placed (output : List Char) : List OpenCall → List ArgumentList
  | [] => []
  | call :: outer =>
    ⟨(String.ofList (collected output outer)).utf8ByteSize, call.chars, call.frame.active⟩
      :: placed output outer

/-- Characters that are added come behind all that is done with. -/
theorem done_emit (r : Rewriter) (cs : List Char) : (r.emit cs).done = r.done ++ cs := by
  obtain ⟨session, output, text, calls⟩ := r
  cases calls with
  | nil => rfl
  | cons call outer => simp [emit, done, collected]

/-- Characters that are added move no start of an argument. -/
theorem placed_emit (r : Rewriter) (cs : List Char) :
    placed (r.emit cs).output (r.emit cs).calls = placed r.output r.calls := by
  obtain ⟨session, output, text, calls⟩ := r
  cases calls with
  | nil => rfl
  | cons call outer => rfl

/-- Characters that are added are in no frame yet. -/
theorem map_frame_emit (r : Rewriter) (cs : List Char) :
    (r.emit cs).calls.map (·.frame) = r.calls.map (·.frame) := by
  obtain ⟨session, output, text, calls⟩ := r
  cases calls with
  | nil => rfl
  | cons call outer => rfl

/-- Characters that are passed on leave the session alone. -/
theorem session_emit (r : Rewriter) (cs : List Char) : (r.emit cs).session = r.session := by
  obtain ⟨session, output, text, calls⟩ := r
  cases calls with
  | nil => rfl
  | cons call outer => rfl

/-- Characters that are passed on leave the text that is still to be scanned. -/
theorem text_emit (r : Rewriter) (cs : List Char) : (r.emit cs).text = r.text := by
  obtain ⟨session, output, text, calls⟩ := r
  cases calls with
  | nil => rfl
  | cons call outer => rfl

end Rewriter

/-- The interpreter holds a program that is being rewritten. -/
structure Interpreter.Represents (t : Interpreter) (r : Rewriter) : Prop where
  session_eq : t.session = r.session
  zones : t.zones.Holds r.done r.text
  calls_eq : t.calls.items = r.calls.map (·.frame)
  lists_eq : t.lists = Rewriter.placed r.output r.calls

/-- A step of the scanner does what a step of the rewriting does. Where the rewriting stops because
the widths have changed, the scanner goes on with changed widths. -/
def Step.Mirrors (s : Step) : Rewriter.Step → Prop
  | .next r => ∃ t, s = .next t ∧ t.Represents r
  | .finished r => ∃ t, s = .finished t ∧ t.Represents r ∧ r.calls = []
  | .raised e r => ∃ t, s = .raised e t ∧ t.Represents r
  | .widthsChanged => ∃ t r, s = .next t ∧ t.Represents r ∧ ¬ t.KeepsWidths

namespace Interpreter.Represents

variable {t : Interpreter} {r : Rewriter}

/-- Text that is moved between the zones is added to what is being collected. -/
theorem emitThen {z : Zones} {cs rest : List Char} (h : t.Represents r)
    (hz : z.Holds (r.done ++ cs) rest) :
    Represents { t with zones := z } (r.emitThen cs rest) := by
  refine ⟨?_, ?_, ?_, ?_⟩
  · exact h.session_eq.trans (r.session_emit cs).symm
  · have hdone : (r.emitThen cs rest).done = r.done ++ cs := r.done_emit cs
    rw [hdone]
    exact hz
  · exact h.calls_eq.trans (r.map_frame_emit cs).symm
  · exact h.lists_eq.trans (r.placed_emit cs).symm

/-- A movement that adds text to what is being collected. -/
theorem move_moved {movement : Zones → Progress} {cs rest : List Char} (h : t.Represents r)
    (hz : ∃ z, movement t.zones = .moved z ∧ z.Holds (r.done ++ cs) rest) :
    (t.move movement).Mirrors (.next (r.emitThen cs rest)) := by
  obtain ⟨z, hmove, hz⟩ := hz
  refine ⟨{ t with zones := z }, ?_, h.emitThen hz⟩
  rw [move_eq, hmove]

/-- A movement that fails after it has added text to what is being collected. -/
theorem move_failed {movement : Zones → Progress} {e : Error} {cs rest : List Char}
    (h : t.Represents r)
    (hz : ∃ z, movement t.zones = .failed e z ∧ z.Holds (r.done ++ cs) rest) :
    (t.move movement).Mirrors (.raised e (r.emitThen cs rest)) := by
  obtain ⟨z, hmove, hz⟩ := hz
  refine ⟨{ t with zones := z }, ?_, h.emitThen hz⟩
  rw [move_eq, hmove]

/-- A call whose start is stepped over begins. -/
theorem beginCall {current : MetaChars} {active : Bool} {rest : List Char} (h : t.Represents r)
    (hz : (t.zones.skip (Zones.callStartWidth current active)).Holds r.done rest) :
    (t.beginCall current active).Mirrors (r.beginCall active rest) := by
  rw [beginCall_eq]
  unfold Rewriter.beginCall
  dsimp only
  rw [h.session_eq, h.calls_eq, h.lists_eq, List.length_map]
  by_cases hbudget : r.session.props.execCount ≤ r.session.execs
  · rw [if_pos hbudget, if_pos hbudget]
    exact ⟨t, rfl, h⟩
  · rw [if_neg hbudget, if_neg hbudget]
    by_cases hdepth : r.session.props.stackSize ≤ r.calls.length
    · rw [if_pos hdepth, if_pos hdepth]
      exact ⟨_, rfl, rfl, hz, h.calls_eq, rfl⟩
    · rw [if_neg hdepth, if_neg hdepth]
      refine ⟨_, rfl, rfl, ?_, rfl, ?_⟩
      · simpa [Rewriter.done, Rewriter.collected] using hz
      · -- The argument of the new call starts at the end of what is done with.
        have hpassive := hz.passive_eq
        simp only [Rewriter.placed]
        rw [hpassive, TextUnit.utf8ByteSize_ofList]
        rfl

end Interpreter.Represents

/-- A program whose widths have changed is scanned on with changed widths. -/
theorem Interpreter.Represents.not_keepsWidths {t : Interpreter} {r : Rewriter}
    (h : t.Represents r) (hchanged : r.keepsWidths = false) : ¬ t.KeepsWidths := by
  intro hkeeps
  unfold KeepsWidths at hkeeps
  rw [h.lists_eq, h.session_eq] at hkeeps
  unfold Rewriter.keepsWidths at hchanged
  cases hcalls : r.calls with
  | nil => simp [hcalls] at hchanged
  | cons inner outer =>
    rw [hcalls] at hchanged hkeeps
    have htrue : inner.chars.sameWidths r.session.chars = true := hkeeps _ rfl
    have hfalse : inner.chars.sameWidths r.session.chars = false := hchanged
    rw [htrue] at hfalse
    exact absurd hfalse (by decide)

/-! ## The end of a call

The scanner places the result of a call before any widths are compared, so that what it does is
described without that first.
-/

namespace Rewriter

/-- The program in which the result of a call has been placed. -/
def placing (r : Rewriter) (active : Bool) (disposition : Disposition) (result : String) :
    Rewriter :=
  if disposition = .sideEffect || result.isEmpty then r
  else if active then { r with text := result.toList ++ r.text }
  else r.emit result.toList

/-- Carries out the innermost call, takes it off and places its result, whatever the widths are
then. -/
def carryOut (r : Rewriter) (call : OpenCall) : Step :=
  match Action.invoke (r.calls.length + 1) call.frame r.session with
  | .error e session => .raised e { r with session, calls := call :: r.calls }
  | .ok (disposition, result) session =>
    .next ({ r with session }.placing call.frame.active disposition result)

/-- Completes an argument, and carries the call out if it was the last, whatever the widths are
then. -/
def complete (r : Rewriter) (call : OpenCall) (outer : List OpenCall) (rest : List Char)
    (closes : Bool) : Step :=
  if maxEntries ≤ call.frame.args.length then .raised (.tooManyArgs maxEntries) r
  else
    let call := { call with frame := call.frame.push (String.ofList call.pending), pending := [] }
    if closes then carryOut { r with text := rest, calls := outer } call
    else .next { r with text := rest, calls := call :: outer }

/-- The outcome of a step after which the widths are compared. -/
def Step.compared : Step → Step
  | .next r => if r.keepsWidths then .next r else .widthsChanged
  | s => s

/-- Characters that are passed on do not change any widths. -/
theorem keepsWidths_emit (r : Rewriter) (cs : List Char) :
    (r.emit cs).keepsWidths = r.keepsWidths := by
  obtain ⟨session, output, text, calls⟩ := r
  cases calls with
  | nil => rfl
  | cons call outer => rfl

/-- The result of a call does not change any widths. -/
theorem keepsWidths_placing (r : Rewriter) (active : Bool) (disposition : Disposition)
    (result : String) : (r.placing active disposition result).keepsWidths = r.keepsWidths := by
  unfold placing
  split
  · rfl
  · split
    · rfl
    · exact keepsWidths_emit r _

/-- Where the widths have changed, the rewriting stops. -/
theorem Step.compared_next (r : Rewriter) :
    (Step.next r).compared = if r.keepsWidths then .next r else .widthsChanged := rfl

/-- When a call has been carried out the widths are compared. -/
theorem finishCall_eq (r : Rewriter) (call : OpenCall) :
    r.finishCall call = (r.carryOut call).compared := by
  unfold finishCall carryOut
  cases Action.invoke (r.calls.length + 1) call.frame r.session with
  | error e session => rfl
  | ok result session =>
    dsimp only
    rw [Step.compared_next, keepsWidths_placing]
    unfold place placing
    cases keepsWidths { r with session } with
    | true => simp [apply_ite Step.next]
    | false => rfl

/-- Widths are compared after a call only. -/
theorem finishArgument_eq (r : Rewriter) (call : OpenCall) (outer : List OpenCall)
    (rest : List Char) (closes : Bool) :
    r.finishArgument call outer rest closes =
      if closes then (r.complete call outer rest closes).compared
      else r.complete call outer rest closes := by
  unfold finishArgument complete
  by_cases hmany : maxEntries ≤ call.frame.args.length
  · rw [if_pos hmany, if_pos hmany]
    exact (ite_self _).symm
  · rw [if_neg hmany, if_neg hmany]
    cases closes with
    | true => exact finishCall_eq _ _
    | false => rfl

/-- The scanner places the result in the same way. -/
theorem represents_placing {r : Rewriter} {zones : Zones} {active : Bool}
    {disposition : Disposition} {result : String}
    (hz : if disposition = .sideEffect || result.isEmpty then zones.Holds r.done r.text
      else if active then zones.Holds r.done (result.toList ++ r.text)
      else zones.Holds (r.done ++ result.toList) r.text) :
    Interpreter.Represents
      ⟨r.session, zones, ⟨r.calls.map (·.frame)⟩, placed r.output r.calls⟩
      (r.placing active disposition result) := by
  unfold placing
  by_cases hnone : disposition = .sideEffect || result.isEmpty
  · rw [if_pos hnone] at hz ⊢
    exact ⟨rfl, hz, rfl, rfl⟩
  · rw [if_neg hnone] at hz ⊢
    cases active with
    | true => exact ⟨rfl, hz, rfl, rfl⟩
    | false =>
      have hholds : zones.Holds (r.emit result.toList).done (r.emit result.toList).text := by
        rw [done_emit, text_emit]
        exact hz
      exact ⟨(session_emit r _).symm, hholds, (map_frame_emit r _).symm, (placed_emit r _).symm⟩

/-- A call whose arguments are complete is carried out and its result placed. -/
theorem carryOut_mirrors {r : Rewriter} (call : OpenCall) {zones : Zones}
    (hz : zones.Holds r.done r.text) (hpending : call.pending = []) :
    (Interpreter.finishCall ⟨r.session, zones, ⟨call.frame :: r.calls.map (·.frame)⟩,
      placed r.output (call :: r.calls)⟩ call.frame.active (placed r.output r.calls)).Mirrors
      (r.carryOut call) := by
  have hlength : (r.calls.map (·.frame)).length = r.calls.length := List.length_map _
  unfold carryOut
  cases hinvoke : Action.invoke (r.calls.length + 1) call.frame r.session with
  | error e session =>
    rw [← hlength] at hinvoke
    rw [Interpreter.finishCall_of_error hinvoke]
    -- The call has given up its argument, so that it adds nothing to what is done with.
    have hdone : done { r with session, calls := call :: r.calls } = r.done := by
      simp [done, collected, hpending]
    refine ⟨_, rfl, rfl, ?_, rfl, rfl⟩
    rw [hdone]
    exact hz
  | ok result session =>
    obtain ⟨disposition, text⟩ := result
    rw [← hlength] at hinvoke
    obtain ⟨z', hfinish, hholds⟩ : ∃ z', Interpreter.finishCall ⟨r.session, zones,
        ⟨call.frame :: r.calls.map (·.frame)⟩, placed r.output (call :: r.calls)⟩
        call.frame.active (placed r.output r.calls)
          = .next ⟨session, z', ⟨r.calls.map (·.frame)⟩, placed r.output r.calls⟩ ∧ _ :=
      Interpreter.finishCall_of_ok hz hinvoke
    rw [hfinish]
    exact ⟨_, rfl, represents_placing (r := { r with session }) hholds⟩

/-- A complete argument is taken off, and the call carried out if it was the last. -/
theorem complete_mirrors {r : Rewriter} {t : Interpreter} {call : OpenCall}
    {outer : List OpenCall} {c : Char} {rest : List Char} {closes : Bool} (h : t.Represents r)
    (hcalls : r.calls = call :: outer) (htext : r.text = c :: rest) :
    (t.finishArgument
      ⟨(String.ofList (collected r.output outer)).utf8ByteSize, call.chars, call.frame.active⟩
      (placed r.output outer) c.utf8Size closes).Mirrors
      (r.complete call outer rest closes) := by
  obtain ⟨session, output, text, calls⟩ := r
  obtain ⟨tsession, zones, ⟨items⟩, lists⟩ := t
  dsimp only at hcalls htext ⊢
  subst hcalls htext
  have hz : zones.Holds (collected output outer ++ call.pending) ([c] ++ rest) := h.zones
  have hstart := TextUnit.utf8ByteSize_ofList (collected output outer)
  obtain rfl : tsession = session := h.session_eq
  obtain rfl : items = call.frame :: outer.map (·.frame) := h.calls_eq
  obtain rfl : lists = placed output (call :: outer) := h.lists_eq
  rw [Interpreter.finishArgument_of_holds hz hstart]
  unfold complete
  dsimp only
  by_cases hmany : maxEntries ≤ call.frame.args.length
  · rw [if_pos hmany, if_pos hmany]
    exact ⟨_, rfl, h⟩
  · rw [if_neg hmany, if_neg hmany]
    -- The argument goes from the buffer into the frame, and the separator is stepped over.
    have hdrop : Zones.Holds
        ({ zones with passive := (String.ofList (collected output outer)).utf8ByteSize }.skip
          c.utf8Size) (collected output outer) rest :=
      (hz.drop hstart).skip (by simp)
    cases closes with
    | true =>
      exact carryOut_mirrors ⟨call.frame.push (String.ofList call.pending), [], call.chars⟩
        (r := ⟨tsession, output, rest, outer⟩) hdrop rfl
    | false =>
      refine ⟨_, rfl, rfl, ?_, rfl, rfl⟩
      simpa [done, collected] using hdrop

/-- Comparing the widths takes nothing from what the scanner does. -/
theorem mirrors_compared {s : TextMacro.Step} {o : Step} (h : s.Mirrors o) :
    s.Mirrors o.compared := by
  cases o with
  | next r =>
    obtain ⟨t, rfl, hrep⟩ := h
    rw [Step.compared_next]
    cases hkeeps : r.keepsWidths with
    | true => exact ⟨t, rfl, hrep⟩
    | false => exact ⟨t, r, rfl, hrep, hrep.not_keepsWidths hkeeps⟩
  | finished r => exact h
  | raised e r => exact h
  | widthsChanged => exact h

/-- A complete argument is taken off, and the widths are compared if the call is carried out. -/
theorem finishArgument_mirrors {r : Rewriter} {t : Interpreter} {call : OpenCall}
    {outer : List OpenCall} {c : Char} {rest : List Char} {closes : Bool} (h : t.Represents r)
    (hcalls : r.calls = call :: outer) (htext : r.text = c :: rest) :
    (t.finishArgument
      ⟨(String.ofList (collected r.output outer)).utf8ByteSize, call.chars, call.frame.active⟩
      (placed r.output outer) c.utf8Size closes).Mirrors
      (r.finishArgument call outer rest closes) := by
  have hcomplete : TextMacro.Step.Mirrors _ (r.complete call outer rest closes) :=
    complete_mirrors h hcalls htext
  rw [finishArgument_eq]
  split
  · exact mirrors_compared hcomplete
  · exact hcomplete

end Rewriter

/-- The text that is done with is read off the buffer. -/
theorem Interpreter.doneText_of_holds {t : Interpreter} {done active : List Char}
    (hz : t.zones.Holds done active) : t.doneText? = some (String.ofList done) := by
  have hz : t.zones.Holds ([] ++ done) active := hz
  have hdone := hz.doneFrom (n := 0) (by simp)
  unfold doneText?
  rw [hdone]
  exact congrArg some (TextUnit.lossy_utf8Encode done)

/-- There is a failure to be shown with the text that is done with. -/
theorem Interpreter.exists_failure_of_holds {t : Interpreter} {done active : List Char}
    (hz : t.zones.Holds done active) (e : Error) :
    ∃ failure : Failure, failure.error = e ∧ t.failure? e = some failure := by
  unfold failure?
  rw [doneText_of_holds hz]
  exact ⟨_, rfl, rfl⟩

namespace Interpreter.Represents

variable {t : Interpreter} {r : Rewriter}

/-- The first character of the text is under the cursor. -/
theorem zones_cons {c : Char} {rest : List Char} (h : t.Represents r) (htext : r.text = c :: rest) :
    t.zones.Holds r.done ([c] ++ rest) := by
  rw [List.singleton_append, ← htext]
  exact h.zones

/-- A character with no meaning where it stands is moved. -/
theorem transfer {c : Char} {rest : List Char} (h : t.Represents r)
    (htext : r.text = c :: rest) :
    (t.move (·.transfer (TextUnit.char c).width)).Mirrors (.next (r.emitThen [c] rest)) := by
  have hz := h.zones_cons htext
  exact h.move_moved (hz.transfer_moved (by simp [TextUnit.width]))

/-- The text that is done with is that of the rewriting. -/
theorem doneText (h : t.Represents r) : t.doneText? = some (String.ofList r.done) :=
  doneText_of_holds h.zones

/-- A failure tells of the same calls and of the same text around the cursor. -/
theorem failure (h : t.Represents r) (e : Error) : t.failure? e = some (r.failure e) := by
  have hactive : Utf8.lossy t.zones.active = String.ofList r.text := by
    rw [Zones.Shows.active_eq h.zones, TextUnit.lossy_utf8Encode]
  have hframes : t.calls.describe t.session.chars
      = r.calls.reverse.map (·.frame.render r.session.chars) := by
    unfold Stack.describe
    rw [h.calls_eq, h.session_eq, ← List.map_reverse, List.map_map]
    rfl
  unfold failure?
  rw [h.doneText, hactive, hframes]
  simp [Rewriter.failure]

end Interpreter.Represents

/-- A program that has just been loaded, with no call in progress. -/
theorem Interpreter.represents_load {t : Interpreter} (ht : t.calls = .empty) (text : String) :
    (t.load text).Represents (.start t.session text) :=
  ⟨rfl, Zones.holds_ofString text, congrArg Stack.items ht, rfl⟩

end TextMacro
