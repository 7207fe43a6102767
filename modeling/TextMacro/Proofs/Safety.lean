import TextMacro.Proofs.Invariant
import TextMacro.Proofs.Refinement

/-!
# When the scanner stays inside its text

The scanner steps over an escape, an opening bracket or a sharp by the width of the one in force
now, while the character that makes it do so has been recognised by the meta characters that the
argument list began with. When a call inside the list has changed them, that width need not be a
whole number of characters. `Aligned` says that it is, and `sound_iff_aligned` that this is all
there is to it: the scanner stays inside its buffer, keeps both zones whole texts and raises no
error about bytes that are no unit by itself, in all states of a program, exactly if it is aligned
in all of them. It is aligned when the widths are those that the lists began with.
-/

namespace TextMacro

namespace Zones

/-- The zones lie in order inside the buffer, and each of them is a text. -/
structure Whole (z : Zones) : Prop where
  passive_le : z.passive ≤ z.buffer.index
  index_le : z.buffer.index ≤ z.buffer.content.size
  done_text : ∃ cs : List Char, z.done = cs.utf8Encode
  active_text : ∃ cs : List Char, z.active = cs.utf8Encode

/-- The first `n` bytes to be scanned are whole characters, or all of them if there are fewer. -/
def WholeAhead (z : Zones) (n : Nat) : Prop :=
  ∃ cs : List Char, z.active.extract 0 n = cs.utf8Encode

/-- The rounds of copying a bracketed text, from zones with a number of open brackets to those some
rounds later. -/
inductive Copying (m : MetaChars) (z : Zones) (depth : Nat) : Zones → Nat → Prop
  | start : Copying m z depth z depth
  | round {z' z'' : Zones} {opened along : Nat} {u : TextUnit} : Copying m z depth z' opened →
    z'.buffer.peek = .ok (some u) → depthAfter m opened u ≠ 0 → z'.takenAlong m u = .ok along →
    z'.transfer? (u.width + along) = some z'' → Copying m z depth z'' (depthAfter m opened u)

variable {z : Zones} {done active : List Char}

/-- Zones that hold texts hold whole characters. -/
theorem Holds.whole (h : z.Holds done active) : z.Whole := by
  obtain ⟨hpassive, hindex⟩ := Shows.bounds h
  exact ⟨hpassive, hindex, ⟨done, Shows.done_eq h⟩, ⟨active, Shows.active_eq h⟩⟩

/-- Zones of whole characters hold texts. -/
theorem Whole.holds (h : z.Whole) : ∃ done active, z.Holds done active := by
  obtain ⟨done, hdone⟩ := h.done_text
  obtain ⟨active, hactive⟩ := h.active_text
  have hshows := shows_of_bounds h.passive_le h.index_le
  rw [hdone, hactive] at hshows
  exact ⟨done, active, hshows⟩

/-- The first bytes are whole characters when they are all there are or when they are those of some
of the characters. -/
theorem Holds.wholeAhead_iff (h : z.Holds done active) (n : Nat) :
    z.WholeAhead n ↔ active.utf8Encode.size ≤ n ∨
      ∃ cs rest, active = cs ++ rest ∧ n = cs.utf8Encode.size := by
  unfold WholeAhead
  rw [Shows.active_eq h]
  constructor
  · rintro ⟨cs, hcs⟩
    rcases Nat.lt_or_ge n active.utf8Encode.size with hlt | hge
    · -- A text at the start of a text consists of its first characters.
      have hn : n = cs.utf8Encode.size := by
        rw [← hcs, ByteArray.size_extract]
        omega
      have hsplits : TextUnit.Splits active.utf8Encode 0 [] (active.map .char) := by
        rw [← TextUnit.encodeAll_map_char]
        exact TextUnit.splits_encodeAll _
      rw [hn, ← Nat.zero_add cs.utf8Encode.size] at hcs
      obtain ⟨rest, hrest⟩ := hsplits.of_extract hcs
      obtain ⟨taken, left, rfl, htaken, -⟩ := List.map_eq_append_iff.mp hrest
      obtain rfl : taken = cs := (List.map_inj_right fun _ _ h => by simpa using h).mp htaken
      exact .inr ⟨taken, left, rfl, hn⟩
    · exact .inl hge
  · rintro (hle | ⟨cs, rest, rfl, rfl⟩)
    · refine ⟨active, ?_⟩
      rw [← Nat.max_eq_left hle]
      exact ByteArray.extract_zero_max_size
    · refine ⟨cs, ?_⟩
      rw [List.utf8Encode_append]
      exact ByteArray.extract_append_eq_left rfl

/-- Stepping over whole characters, or over all there are, leaves whole characters, and the same
ones wherever the text lies. -/
theorem Holds.skip_whole {n : Nat} (h : z.Holds done active) (hn : z.WholeAhead n) :
    ∃ rest, ∀ {z' : Zones} {done' : List Char}, z'.Holds done' active →
      (z'.skip n).Holds done' rest := by
  rcases (h.wholeAhead_iff n).mp hn with hle | ⟨cs, rest, rfl, hcs⟩
  · refine ⟨[], fun h' => ?_⟩
    unfold Holds
    rw [List.utf8Encode_nil]
    exact Shows.skip_all h' hle
  · exact ⟨rest, fun h' => h'.skip hcs⟩

/-- No call starts where the text is over. -/
theorem Holds.callStart_of_size_le {m : MetaChars} (h : z.Holds done active)
    (hle : active.utf8Encode.size ≤ m.sharp.utf8Size) : z.callStart m = .ok none := by
  unfold Zones.callStart
  simp only [bind, Except.bind, h.unitAt_of_size_le hle]
  rfl

/-- Every round of copying a bracketed text moves whole characters. -/
theorem Copying.whole {m : MetaChars} {depth opened : Nat} {z' : Zones}
    (hcopying : Copying m z depth z' opened) (h : z.Holds done active) :
    ∃ done' active', z'.Holds done' active' := by
  induction hcopying with
  | start => exact ⟨done, active, h⟩
  | @round z' z'' opened along u _ hpeek _ halong htransfer ih =>
    obtain ⟨done', active', hholds⟩ := ih
    rw [hholds.peek] at hpeek
    cases active' with
    | nil => simp at hpeek
    | cons c rest =>
      obtain rfl : TextUnit.char c = u := by simpa using hpeek
      -- What is taken along with the character is the one behind an escape, or nothing.
      have hall : ∃ taken left, rest = taken ++ left ∧ along = taken.utf8Encode.size := by
        by_cases hc : c = m.escape
        · rw [Shows.takenAlong_escape hholds hc] at halong
          exact ⟨rest.take 1, rest.drop 1, (List.take_append_drop 1 rest).symm,
            by simpa using halong.symm⟩
        · rw [takenAlong_of_ne hc] at halong
          exact ⟨[], rest, rfl, by simpa using halong.symm⟩
      obtain ⟨taken, left, rfl, rfl⟩ := hall
      have hholds' : z'.Holds done' ((c :: taken) ++ left) := hholds
      obtain ⟨z₂, hz₂, hnext⟩ := hholds'.transfer (n := (TextUnit.char c).width
        + taken.utf8Encode.size) (by simp [TextUnit.width, TextUnit.utf8Encode_cons_eq])
      rw [hz₂] at htransfer
      obtain rfl := Option.some.inj htransfer
      exact ⟨_, _, hnext⟩

/-- More bytes than are left are not transferred, or the zones overlap then. -/
theorem Whole.le_size_of_transfer {n : Nat} (h : z.Whole)
    (hmoved : ∃ z', z.transfer n = .moved z' ∧ z'.Whole) : n ≤ z.active.size := by
  obtain ⟨z', hmoved, hwhole⟩ := hmoved
  obtain ⟨⟨content, index⟩, passive⟩ := z
  have hindex : index ≤ content.size := h.index_le
  have hactive : (Zones.active ⟨⟨content, index⟩, passive⟩).size = content.size - index := by
    unfold Zones.active Buffer.remaining
    rw [ByteArray.size_extract]
    simp
  unfold Zones.transfer Zones.transfer? at hmoved
  dsimp only at hmoved
  split at hmoved
  · simp at hmoved
  · rename_i z'' hz''
    cases hmoved
    split at hz''
    · -- The zones touch, so that nothing is copied and only the bounds are moved.
      rename_i htouch
      cases hz''
      have hle := hwhole.passive_le
      simp only [Buffer.advance] at hle
      omega
    · split at hz''
      · simp at hz''
      · -- Bytes are copied only if there are as many.
        rename_i hcopied
        unfold Buffer.copyWithin? at hcopied
        dsimp only at hcopied
        split at hcopied
        · omega
        · simp at hcopied

/-- A bracketed text is not copied where the opening bracket ends inside a unit. -/
theorem copyBracketed_of_error {m : MetaChars} {e : Error}
    (herror : z.buffer.unitAt (z.buffer.index + m.opening.utf8Size) = .error e) :
    z.copyBracketed m = .failed e (z.skip m.opening.utf8Size) := by
  have hlt : z.buffer.index + m.opening.utf8Size < z.buffer.content.size := by
    refine Nat.lt_of_not_ge fun hge => ?_
    unfold Buffer.unitAt at herror
    rw [TextUnit.decodeAt_of_size_le hge] at herror
    simp at herror
  have hpeek : (z.skip m.opening.utf8Size).buffer.peek = .error e := by
    obtain ⟨⟨content, index⟩, passive⟩ := z
    unfold Zones.skip Buffer.peek Buffer.advance
    dsimp only at hlt ⊢
    rw [Nat.min_eq_left (by omega)]
    exact herror
  unfold Zones.copyBracketed
  rw [copyBracketedFrom_round, hpeek]

end Zones

namespace Interpreter

/-- What the scanner steps over next, if it does so by the width of a meta character that is in
force now, is whole characters. Nothing may be missing of an escape. -/
def Aligned (t : Interpreter) : Prop :=
  t.session.halt = none → ∀ c, t.zones.buffer.peek = .ok (some (.char c)) →
    match t.recognising.role c with
    | .escape => t.session.chars.escape.utf8Size ≤ t.zones.active.size ∧
      t.zones.WholeAhead t.session.chars.escape.utf8Size
    | .opening => t.zones.WholeAhead t.session.chars.opening.utf8Size
    | .sharp => t.zones.WholeAhead t.session.chars.sharp.utf8Size
    | _ => True

/-- An error arose when the innermost call, of which the last argument has just been completed, was
carried out, and the call reads a stream or a file. -/
def RaisedByReading (t : Interpreter) (e : Error) (u : Interpreter) : Prop :=
  ∃ frame frames text, t.calls.items = frame :: frames ∧
    u.calls.items = frame.push text :: frames ∧
    Action.invoke (frames.length + 1) (frame.push text) t.session = .error e u.session ∧
    t.session.dict.reads (frame.push text).name = true

/-- The scanner stays inside its buffer and reads its own text right: the zones are whole texts
before the next step, in every round of it if it copies a bracketed text, and where it fails; no
movement reaches outside the buffer; and bytes that are no unit are met only by a call that reads a
stream or a file. -/
structure Sound (t : Interpreter) : Prop where
  zones : t.zones.Whole
  rounds : ∀ c, t.session.halt = none → t.zones.buffer.peek = .ok (some (.char c)) →
    t.recognising.role c = .opening → ∀ z depth,
    Zones.Copying t.session.chars (t.zones.skip t.session.chars.opening.utf8Size) 1 z depth →
      z.Whole
  step : match t.step with
    | .next _ => True
    | .finished u => u.zones.Whole
    | .raised e u => u.zones.Whole ∧ (e.malformed = true → t.RaisedByReading e u)
    | .fault => False

/-! ## Aligned states -/

/-- The buffer is laid out as a program that is being rewritten. -/
def Laid (t : Interpreter) : Prop := ∃ r, t.Represents r

/-- The outcome of a step from `t` leaves the buffer laid out, and an error about bytes that are no
unit comes from a call that reads. -/
def LaidAfter (t : Interpreter) : Step → Prop
  | .next u => u.Laid
  | .finished u => u.Laid
  | .raised e u => u.Laid ∧ (e.malformed = true → t.RaisedByReading e u)
  | .fault => False

/-- An outcome that mirrors one of the rewriting leaves the buffer laid out. -/
theorem LaidAfter.of_mirrors {t : Interpreter} {s : Step} {outcome : Rewriter.Step}
    (h : s.Mirrors outcome)
    (herror : ∀ e u, s = .raised e u → e.malformed = true → t.RaisedByReading e u) :
    t.LaidAfter s := by
  cases outcome with
  | next r =>
    obtain ⟨u, rfl, hrep⟩ := h
    exact ⟨r, hrep⟩
  | finished r =>
    obtain ⟨u, rfl, hrep, -⟩ := h
    exact ⟨r, hrep⟩
  | raised e r =>
    obtain ⟨u, rfl, hrep⟩ := h
    exact ⟨⟨r, hrep⟩, herror e u rfl⟩
  | widthsChanged =>
    obtain ⟨u, r, rfl, hrep, -⟩ := h
    exact ⟨r, hrep⟩

variable {t : Interpreter} {r : Rewriter}

/-- A movement that adds text leaves the buffer laid out. -/
theorem laidAfter_moved {movement : Zones → Progress} {cs rest : List Char} (h : t.Represents r)
    (hz : ∃ z, movement t.zones = .moved z ∧ z.Holds (r.done ++ cs) rest) :
    t.LaidAfter (t.move movement) := by
  obtain ⟨u, hu, hrep⟩ := h.move_moved hz
  rw [hu]
  exact ⟨_, hrep⟩

/-- The characters that an escape takes up, of which nothing is missing. -/
theorem Represents.whole_escape (h : t.Represents r)
    (hle : t.session.chars.escape.utf8Size ≤ t.zones.active.size)
    (hwhole : t.zones.WholeAhead t.session.chars.escape.utf8Size) :
    ∃ cs rest, r.text = cs ++ rest ∧ t.session.chars.escape.utf8Size = cs.utf8Encode.size := by
  rw [Zones.Shows.active_eq h.zones] at hle
  rcases (h.zones.wholeAhead_iff _).mp hwhole with hge | hcs
  · exact ⟨r.text, [], by simp, by omega⟩
  · exact hcs

/-- An escape that takes up whole characters. -/
theorem laidAfter_escape (h : t.Represents r)
    (hle : t.session.chars.escape.utf8Size ≤ t.zones.active.size)
    (hwhole : t.zones.WholeAhead t.session.chars.escape.utf8Size) :
    t.LaidAfter (t.move (·.copyEscaped t.session.chars)) := by
  obtain ⟨cs, rest, htext, hw⟩ := h.whole_escape hle hwhole
  have hz := h.zones
  rw [htext] at hz
  cases rest with
  | nil =>
    rw [List.append_nil] at hz
    exact laidAfter_moved h (hz.copyEscaped_end hw)
  | cons d rest => exact laidAfter_moved h (hz.copyEscaped_next hw)

/-- A bracketed text whose opening bracket takes up whole characters, or all that is left. -/
theorem laidAfter_opening (h : t.Represents r)
    (hwhole : t.zones.WholeAhead t.session.chars.opening.utf8Size) :
    t.LaidAfter (t.move (·.copyBracketed t.session.chars)) := by
  obtain ⟨rest, hskip⟩ := h.zones.skip_whole hwhole
  obtain ⟨z', hz'⟩ := (hskip h.zones).copyBracketedFrom_eq (m := t.session.chars) Nat.one_pos
  cases hfound : t.session.chars.bracketed? 1 rest with
  | some found =>
    rw [hfound] at hz'
    exact laidAfter_moved h ⟨z', hz'⟩
  | none =>
    rw [hfound] at hz'
    obtain ⟨u, hu, hrep⟩ : (t.move (·.copyBracketed t.session.chars)).Mirrors
      (.raised .unbalancedBracket (r.emitThen rest [])) := h.move_failed ⟨z', hz'⟩
    rw [hu]
    exact ⟨⟨_, hrep⟩, fun herror => by simp [Error.malformed] at herror⟩

/-- A call that begins leaves the buffer laid out, or fails for other reasons than its text. -/
theorem laidAfter_beginCall {current : MetaChars} {active : Bool} {rest : List Char}
    (h : t.Represents r)
    (hz : (t.zones.skip (Zones.callStartWidth current active)).Holds r.done rest) :
    t.LaidAfter (t.beginCall current active) := by
  refine .of_mirrors (h.beginCall hz) fun e u hraised hmalformed => ?_
  rw [beginCall_eq] at hraised
  split at hraised
  · cases hraised
    simp [Error.malformed] at hmalformed
  · split at hraised
    · cases hraised
      simp [Error.malformed] at hmalformed
    · simp at hraised

/-- A sharp that takes up whole characters, or all that is left. -/
theorem laidAfter_sharp {c : Char} {rest : List Char} (h : t.Represents r)
    (htext : r.text = c :: rest)
    (hwhole : t.zones.WholeAhead t.session.chars.sharp.utf8Size) :
    t.LaidAfter (match t.zones.callStart t.session.chars with
      | .error e => .raised e t
      | .ok (some active) => t.beginCall t.session.chars active
      | .ok none => t.move (·.transfer (TextUnit.char c).width)) := by
  have htransfer : t.LaidAfter (t.move (·.transfer (TextUnit.char c).width)) :=
    laidAfter_moved h ((h.zones_cons htext).transfer_moved (by simp [TextUnit.width]))
  have hz := h.zones
  rcases (hz.wholeAhead_iff _).mp hwhole with hle | ⟨cs, behind, hcs, hw⟩
  · rw [hz.callStart_of_size_le hle]
    exact htransfer
  · rw [hcs] at hz
    rw [hz.callStart_eq hw]
    cases hstart : t.session.chars.callStart? behind with
    | none => exact htransfer
    | some start => exact laidAfter_beginCall h (hz.skip_callStart hw hstart)

/-- A call that fails has been carried out with its session, and keeps its place. -/
theorem of_finishCall_raised {active : Bool} {outer : List ArgumentList} {frame : Frame}
    {frames : List Frame} {e : Error} {u : Interpreter} (hcalls : t.calls.items = frame :: frames)
    (h : t.finishCall active outer = .raised e u) :
    Action.invoke (frames.length + 1) frame t.session = .error e u.session ∧
      u.calls.items = frame :: frames := by
  rw [finishCall_eq, hcalls] at h
  dsimp only at h
  cases hinvoke : Action.invoke (frames.length + 1) frame t.session with
  | error e' session' =>
    rw [hinvoke] at h
    cases h
    exact ⟨rfl, hcalls⟩
  | ok result session' =>
    rw [hinvoke] at h
    dsimp only at h
    split at h
    · simp at h
    · split at h
      · simp at h
      · simp at h

/-- An argument that is completed leaves the buffer laid out, and bytes that are no unit are met
only by the call that it completes. -/
theorem laidAfter_finishArgument {call : OpenCall} {outer : List OpenCall} {c : Char}
    {rest : List Char} {closes : Bool} (hsession : t.session.WellFormed) (h : t.Represents r)
    (hcalls : r.calls = call :: outer) (htext : r.text = c :: rest) :
    t.LaidAfter (t.finishArgument
      ⟨(String.ofList (Rewriter.collected r.output outer)).utf8ByteSize, call.chars,
        call.frame.active⟩
      (Rewriter.placed r.output outer) c.utf8Size closes) := by
  refine .of_mirrors (Rewriter.finishArgument_mirrors h hcalls htext)
    fun e u hraised hmalformed => ?_
  have hz := h.zones
  rw [Rewriter.done, hcalls] at hz
  have hitems : t.calls.items = call.frame :: outer.map (·.frame) := by
    rw [h.calls_eq, hcalls, List.map_cons]
  obtain ⟨session, zones, ⟨items⟩, lists⟩ := t
  dsimp only at hz hitems hsession
  subst hitems
  rw [finishArgument_of_holds hz (TextUnit.utf8ByteSize_ofList _)] at hraised
  split at hraised
  · cases hraised
    simp [Error.malformed] at hmalformed
  · cases closes with
    | false => simp at hraised
    | true =>
      simp only [if_true] at hraised
      obtain ⟨hinvoke, hkeeps⟩ : Action.invoke ((outer.map (·.frame)).length + 1)
          (call.frame.push (String.ofList call.pending)) session = .error e u.session ∧
          u.calls.items = call.frame.push (String.ofList call.pending) :: outer.map (·.frame) :=
        of_finishCall_raised rfl hraised
      refine ⟨_, _, String.ofList call.pending, rfl, hkeeps, hinvoke, ?_⟩
      rw [← Dictionary.reads_permits]
      exact (Action.changes_of_invoke_error hinvoke).2.reads_of_malformed hsession hmalformed

/-- A step from a state that is laid out and aligned leaves the buffer laid out. -/
theorem laidAfter_step (hsession : t.session.WellFormed) (h : t.Laid) (haligned : t.Aligned) :
    t.LaidAfter t.step := by
  obtain ⟨r, h⟩ := h
  have hpeek := h.zones.peek
  cases hhalt : t.session.halt with
  | some status =>
    unfold step
    rw [h.lists_eq, hhalt]
    cases hcalls : r.calls with
    | nil => exact ⟨r, h⟩
    | cons call outer =>
      -- The innermost call is given up with what it has collected.
      have hz := h.zones
      rw [Rewriter.done, hcalls] at hz
      dsimp only [Rewriter.placed]
      rw [if_pos (by rfl), giveUp_eq, h.calls_eq, hcalls]
      exact ⟨{ r with calls := outer }, h.session_eq, hz.drop (TextUnit.utf8ByteSize_ofList _),
        rfl, rfl⟩
  | none =>
    cases htext : r.text with
    | nil =>
      rw [htext] at hpeek
      unfold step
      rw [hhalt, hpeek]
      cases t.lists with
      | nil => exact ⟨r, h⟩
      | cons list outer => exact ⟨⟨r, h⟩, fun herror => by simp [Error.malformed] at herror⟩
    | cons c rest =>
      rw [htext] at hpeek
      have hwhole := haligned hhalt c hpeek
      have htransfer : t.LaidAfter (t.move (·.transfer (TextUnit.char c).width)) :=
        laidAfter_moved h ((h.zones_cons htext).transfer_moved (by simp [TextUnit.width]))
      -- Only these three step over more or less than the character under the cursor.
      rw [step_eq_scanUnit hhalt hpeek]
      unfold scanUnit
      dsimp only
      cases hrole : t.recognising.role c with
      | escape =>
        rw [hrole] at hwhole
        exact laidAfter_escape h hwhole.1 hwhole.2
      | opening =>
        rw [hrole] at hwhole
        exact laidAfter_opening h hwhole
      | sharp =>
        rw [hrole] at hwhole
        exact laidAfter_sharp h htext hwhole
      | semi =>
        rw [h.lists_eq]
        cases hcalls : r.calls with
        | nil => exact htransfer
        | cons call outer => exact laidAfter_finishArgument hsession h hcalls htext
      | closing =>
        rw [h.lists_eq]
        cases hcalls : r.calls with
        | nil => exact htransfer
        | cons call outer => exact laidAfter_finishArgument hsession h hcalls htext
      | plain => exact htransfer

/-- A buffer that is laid out holds whole characters. -/
theorem Laid.whole (h : t.Laid) : t.zones.Whole := by
  obtain ⟨r, h⟩ := h
  exact h.zones.whole

/-- The scanner is sound in a state that is laid out and aligned. -/
theorem Laid.sound (hsession : t.session.WellFormed) (h : t.Laid) (haligned : t.Aligned) :
    t.Sound := by
  have hstep := laidAfter_step hsession h haligned
  refine ⟨h.whole, fun c hhalt hpeek hrole z depth hcopying => ?_, ?_⟩
  · obtain ⟨r, h⟩ := h
    have hwhole := haligned hhalt c hpeek
    rw [hrole] at hwhole
    obtain ⟨rest, hskip⟩ := h.zones.skip_whole hwhole
    obtain ⟨done, active, hz'⟩ := hcopying.whole (hskip h.zones)
    exact hz'.whole
  · cases hs : t.step with
    | next u => trivial
    | finished u =>
      rw [hs] at hstep
      exact Laid.whole hstep
    | raised e u =>
      rw [hs] at hstep
      exact ⟨hstep.1.whole, hstep.2⟩
    | fault =>
      rw [hs] at hstep
      exact hstep

/-- With the widths that the innermost list began with, the scanner steps over the character that
has been recognised. -/
theorem Laid.aligned (h : t.Laid) (hkeeps : t.KeepsWidths) : t.Aligned := by
  obtain ⟨r, h⟩ := h
  have hwidths : t.recognising.sameWidths t.session.chars = true := by
    unfold recognising
    cases hlists : t.lists with
    | nil => exact MetaChars.sameWidths_refl _
    | cons list outer => exact hkeeps list (by rw [hlists]; rfl)
  obtain ⟨hsharp, hopening, hescape⟩ := MetaChars.sameWidths_iff.mp hwidths
  intro hhalt c hpeek
  have hz := h.zones
  rw [hz.peek] at hpeek
  cases htext : r.text with
  | nil =>
    rw [htext] at hpeek
    simp at hpeek
  | cons d rest =>
    rw [htext] at hpeek hz
    obtain rfl : d = c := by simpa using hpeek
    have hwhole : ∀ n, n = d.utf8Size → t.zones.WholeAhead n := by
      intro n hn
      exact (hz.wholeAhead_iff n).mpr (.inr ⟨[d], rest, rfl, by simpa using hn⟩)
    cases hrole : t.recognising.role d with
    | escape =>
      rw [← MetaChars.eq_of_role.1 hrole] at hescape
      refine ⟨?_, hwhole _ hescape.symm⟩
      rw [Zones.Shows.active_eq hz, ← hescape, TextUnit.utf8Encode_cons_eq, ByteArray.size_append,
        List.size_toByteArray, String.length_utf8EncodeChar]
      exact Nat.le_add_right _ _
    | opening =>
      rw [← MetaChars.eq_of_role.2.1 hrole] at hopening
      exact hwhole _ hopening.symm
    | sharp =>
      rw [← MetaChars.eq_of_role.2.2 hrole] at hsharp
      exact hwhole _ hsharp.symm
    | semi => trivial
    | closing => trivial
    | plain => trivial

/-- The buffer stays laid out along a run in which all states are aligned. -/
theorem Reaches.laid {u : Interpreter} (hsession : t.session.WellFormed) (h : t.Laid)
    (haligned : ∀ u, t.Reaches u → u.Laid → u.Aligned) (hu : t.Reaches u) : u.Laid := by
  induction hu with
  | refl => exact h
  | @next v w hv hstep ih =>
    have hafter := laidAfter_step (hv.wellFormed hsession) ih (haligned v hv ih)
    rw [hstep] at hafter
    exact hafter

/-- A program whose states are all aligned does not make the scanner reach outside its buffer. -/
theorem evaluate_ne_fault {text : String} (hsession : t.session.WellFormed)
    (ht : t.calls = .empty)
    (haligned : ∀ u, (t.load text).Reaches u → u.Aligned) (fuel : Nat) :
    (t.evaluate fuel text).1 ≠ .fault := by
  have hload : (t.load text).Laid := ⟨_, represents_load ht text⟩
  have hsession : (t.load text).session.WellFormed := hsession
  have hafter : ∀ v, (t.load text).Reaches v → v.LaidAfter v.step := by
    intro v hv
    have hlaid := hv.laid hsession hload fun u hu _ => haligned u hu
    exact laidAfter_step (hv.wellFormed hsession) hlaid (haligned v hv)
  have hends := run_ends fuel (t.load text)
  rw [evaluate_eq]
  cases hrun : run fuel (t.load text) with
  | finished u =>
    rw [hrun] at hends
    obtain ⟨v, hv, hstep⟩ := hends
    have hlaid := hafter v hv
    rw [hstep] at hlaid
    obtain ⟨r, hr⟩ := hlaid
    dsimp only
    rw [hr.doneText]
    simp
  | raised e u =>
    rw [hrun] at hends
    obtain ⟨v, hv, hstep⟩ := hends
    have hlaid := hafter v hv
    rw [hstep] at hlaid
    obtain ⟨⟨r, hr⟩, -⟩ := hlaid
    dsimp only
    rw [hr.failure]
    simp
  | fault =>
    rw [hrun] at hends
    obtain ⟨v, hv, hstep⟩ := hends
    have hlaid := hafter v hv
    rw [hstep] at hlaid
    exact absurd hlaid id
  | unfinished u => simp

/-! ## Sound states -/

/-- An error that the scanner raises by itself is not about bytes that are no unit. -/
theorem Sound.malformed_eq_false {e : Error} {u : Interpreter} (h : t.Sound)
    (hraised : t.step = .raised e u) (hcalls : u.calls = t.calls) : e.malformed = false := by
  have hstep := h.step
  rw [hraised] at hstep
  refine Bool.eq_false_iff.mpr fun hmalformed => ?_
  obtain ⟨frame, frames, text, ht, hu, -⟩ := hstep.2 hmalformed
  -- A call that is carried out has one argument more, so the calls would not be the same.
  rw [hcalls, ht] at hu
  have hargs := congrArg (fun calls => calls.head?.map (·.args.length)) hu
  simp [Frame.push] at hargs

/-- A unit is found where the scanner looks for one, if it is sound. -/
theorem Sound.unitAt_ok {n : Nat} (h : t.Sound)
    (hraised : ∀ e, t.zones.buffer.unitAt (t.zones.buffer.index + n) = .error e →
      ∃ u, t.step = .raised e u ∧ u.calls = t.calls) : t.zones.WholeAhead n := by
  obtain ⟨done, active, hz⟩ := h.zones.holds
  rw [hz.wholeAhead_iff]
  cases hunit : t.zones.buffer.unitAt (t.zones.buffer.index + n) with
  | ok next => exact hz.of_unitAt hunit
  | error e =>
    obtain ⟨u, hstep, hcalls⟩ := hraised e hunit
    obtain rfl := TextUnit.malformed_of_decodeAt hunit
    have hfalse := h.malformed_eq_false hstep hcalls
    simp [Error.malformed] at hfalse

/-- An escape has not more bytes than are left, if the scanner is sound and the zones stay whole. -/
theorem Sound.escape_le (h : t.Sound) (hnext : ∀ u, t.step = .next u → u.zones.Whole)
    (hstep : t.step = t.move (·.copyEscaped t.session.chars)) :
    t.session.chars.escape.utf8Size ≤ t.zones.active.size := by
  obtain ⟨done, active, hz⟩ := h.zones.holds
  -- With fewer bytes left nothing is found behind the escape, and as many are moved as it has.
  refine Nat.le_of_not_lt fun hlt => ?_
  rw [Zones.Shows.active_eq hz] at hlt
  have hend : t.zones.copyEscaped t.session.chars
      = t.zones.transfer t.session.chars.escape.utf8Size := by
    unfold Zones.copyEscaped
    dsimp only
    rw [hz.unitAt_of_size_le (Nat.le_of_lt hlt)]
  rw [move_eq, hend] at hstep
  unfold Zones.transfer at hstep
  cases htransfer : t.zones.transfer? t.session.chars.escape.utf8Size with
  | none =>
    rw [htransfer] at hstep
    have hsound := h.step
    rw [hstep] at hsound
    exact hsound
  | some z' =>
    rw [htransfer] at hstep
    have hmoved : t.zones.transfer t.session.chars.escape.utf8Size = .moved z' := by
      unfold Zones.transfer
      rw [htransfer]
    have hle := h.zones.le_size_of_transfer ⟨z', hmoved, hnext _ hstep⟩
    rw [Zones.Shows.active_eq hz] at hle
    omega

/-- A sound state is aligned if the zones stay whole. -/
theorem Sound.aligned (h : t.Sound) (hnext : ∀ u, t.step = .next u → u.zones.Whole) :
    t.Aligned := by
  intro hhalt c hpeek
  have hstep := step_eq_scanUnit hhalt hpeek
  unfold scanUnit at hstep
  dsimp only at hstep
  cases hrole : t.recognising.role c with
  | escape =>
    rw [hrole] at hstep
    have hstep : t.step = t.move (·.copyEscaped t.session.chars) := hstep
    refine ⟨h.escape_le hnext hstep, h.unitAt_ok fun e herror => ⟨t, ?_, rfl⟩⟩
    rw [hstep, move_eq]
    unfold Zones.copyEscaped
    dsimp only
    rw [herror]
  | opening =>
    rw [hrole] at hstep
    have hstep : t.step = t.move (·.copyBracketed t.session.chars) := hstep
    refine h.unitAt_ok fun e herror =>
      ⟨{ t with zones := t.zones.skip t.session.chars.opening.utf8Size }, ?_, rfl⟩
    rw [hstep, move_eq, Zones.copyBracketed_of_error herror]
  | sharp =>
    rw [hrole] at hstep
    refine h.unitAt_ok fun e herror => ⟨t, ?_, rfl⟩
    have hstart : t.zones.callStart t.session.chars = .error e := by
      unfold Zones.callStart
      simp only [bind, Except.bind, herror]
    rw [hstep, hstart]
  | semi => trivial
  | closing => trivial
  | plain => trivial

/-- The scanner is sound in all states of a program exactly if it is aligned in all of them. It is
when every list is read by the widths it began with. A program that keeps the scanner aligned does
not make it reach outside its buffer. -/
theorem sound_iff_aligned {t : Interpreter} (h : t.Reachable) (text : String) :
    ((∀ u, (t.load text).Reaches u → u.Sound) ↔ ∀ u, (t.load text).Reaches u → u.Aligned) ∧
    ((∀ u, (t.load text).Reaches u → u.KeepsWidths) →
      ∀ u, (t.load text).Reaches u → u.Aligned) ∧
    ((∀ u, (t.load text).Reaches u → u.Aligned) →
      ∀ fuel, (t.evaluate fuel text).1 ≠ .fault) := by
  have hsession : (t.load text).session.WellFormed := h.wellFormed
  have hload : (t.load text).Laid := ⟨_, represents_load h.calls_eq text⟩
  refine ⟨⟨fun hsound u hu => ?_, fun haligned u hu => ?_⟩, fun hkeeps u hu => ?_,
    evaluate_ne_fault hsession h.calls_eq⟩
  · exact (hsound u hu).aligned fun v hstep => (hsound v (.next hu hstep)).zones
  · have hlaid := hu.laid hsession hload fun v hv _ => haligned v hv
    exact hlaid.sound (hu.wellFormed hsession) (haligned u hu)
  · have hlaid := hu.laid hsession hload fun v hv hlaid => hlaid.aligned (hkeeps v hv)
    exact hlaid.aligned (hkeeps u hu)

/-- A program that makes a two-byte character the escape inside an argument list, and then ends with
the escape that the list began with. -/
def widerEscape : String := "#<ds;x;#<ttm;meta;\\#\\<\\;\\>é>\\"

/-- That program makes the scanner reach outside its buffer. -/
theorem evaluate_widerEscape : (fresh.evaluate 40 widerEscape).1 = .fault := by
  have hcases : ∀ ending : Ending Failure Outcome,
      (match ending with | .fault => true | _ => false) = true → ending = .fault := by
    intro ending h
    cases ending with
    | fault => rfl
    | ok value => simp at h
    | error e => simp at h
    | unfinished => simp at h
  refine hcases _ ?_
  decide +kernel

/-- So the scanner is not sound in all states of that program. -/
theorem not_sound_widerEscape :
    fresh.Reachable ∧ ¬ ∀ u, (fresh.load widerEscape).Reaches u → u.Sound := by
  obtain ⟨hiff, -, hfree⟩ := sound_iff_aligned reachable_fresh widerEscape
  exact ⟨reachable_fresh, fun hsound => hfree (hiff.mp hsound) 40 evaluate_widerEscape⟩

end Interpreter

end TextMacro
