import TextMacro.Proofs.Templates

/-!
# Collecting the arguments of a call

Wherever the scanner meets a call whose name and arguments are templates, it collects exactly their
values, leaves what was done with before the call as it was, and leaves the text behind the call
(`Interpreter.collects_templates`). This holds also in a program that has changed the widths its
argument lists are read by: as long as there is text to scan, the buffer is laid out as a program
that is being rewritten (`Reaches.laid_or_exhausted`).
-/

namespace TextMacro

namespace Interpreter

variable {t u : Interpreter}

/-! ## The buffer stays laid out -/

/-- Nothing is left to scan. -/
def Exhausted (t : Interpreter) : Prop :=
  t.zones.buffer.content.size ≤ t.zones.buffer.index

/-- Where nothing is left to scan, a step that goes on only gives up a call. -/
theorem Exhausted.step (h : t.Exhausted) (hstep : t.step = .next u) : u.Exhausted := by
  have hpeek : t.zones.buffer.peek = .ok none := TextUnit.decodeAt_of_size_le h
  unfold Interpreter.step at hstep
  rw [hpeek] at hstep
  split at hstep
  · split at hstep <;> simp at hstep
  · split at hstep
    · rw [giveUp_eq] at hstep
      split at hstep
      · simp at hstep
      · obtain rfl := Step.next.inj hstep
        exact h
    · simp at hstep

/-- Where a unit is found, or the end of the text, whole characters are stepped over. -/
theorem Laid.wholeAhead {n : Nat} {next : Option TextUnit} (h : t.Laid)
    (hunit : t.zones.buffer.unitAt (t.zones.buffer.index + n) = .ok next) :
    t.zones.WholeAhead n := by
  obtain ⟨r, hr⟩ := h
  exact (hr.zones.wholeAhead_iff n).mpr (hr.zones.of_unitAt hunit)

/-- An escape that is stepped over by more bytes than are left leaves nothing to scan. -/
theorem Laid.exhausted_of_escape {z : Zones} (h : t.Laid)
    (hlt : t.zones.active.size < t.session.chars.escape.utf8Size)
    (hmoved : t.zones.copyEscaped t.session.chars = .moved z) :
    z.buffer.content.size ≤ z.buffer.index := by
  obtain ⟨r, hr⟩ := h
  have hactive := Zones.Shows.active_eq hr.zones
  have hsize := Zones.Shows.size_eq hr.zones
  rw [hactive] at hlt
  unfold Zones.copyEscaped at hmoved
  dsimp only at hmoved
  rw [hr.zones.unitAt_of_size_le (Nat.le_of_lt hlt)] at hmoved
  unfold Zones.transfer at hmoved
  cases htransfer : t.zones.transfer? t.session.chars.escape.utf8Size with
  | none =>
    rw [htransfer] at hmoved
    simp at hmoved
  | some moved =>
    rw [htransfer] at hmoved
    obtain rfl := Progress.moved.inj hmoved
    obtain ⟨hcontent, hindex⟩ := Zones.transfer?_bounds htransfer
    omega

/-- A movement that goes on moves the zones. -/
theorem moved_of_move {movement : Zones → Progress} (h : t.move movement = .next u) :
    movement t.zones = .moved u.zones := by
  rw [move_eq] at h
  cases hmovement : movement t.zones with
  | moved z =>
    rw [hmovement] at h
    obtain rfl := Step.next.inj h
    rfl
  | failed e z =>
    rw [hmovement] at h
    simp at h
  | fault =>
    rw [hmovement] at h
    simp at h

/-- A step that goes on and leaves text to scan has stepped over whole characters. -/
theorem Laid.aligned_of_step (h : t.Laid) (hstep : t.step = .next u) (hleft : ¬ u.Exhausted) :
    t.Aligned := by
  intro hhalt c hpeek
  rw [step_eq_scanUnit hhalt hpeek] at hstep
  unfold scanUnit at hstep
  dsimp only at hstep
  cases hrole : t.recognising.role c with
  | escape =>
    rw [hrole] at hstep
    have hmoved : t.zones.copyEscaped t.session.chars = .moved u.zones := moved_of_move hstep
    refine ⟨Nat.le_of_not_lt fun hlt => hleft (h.exhausted_of_escape hlt hmoved), ?_⟩
    unfold Zones.copyEscaped at hmoved
    dsimp only at hmoved
    split at hmoved
    · simp at hmoved
    · rename_i hunit
      exact h.wholeAhead hunit
    · rename_i hunit
      exact h.wholeAhead hunit
  | opening =>
    rw [hrole] at hstep
    have hmoved : t.zones.copyBracketed t.session.chars = .moved u.zones := moved_of_move hstep
    cases hunit : t.zones.buffer.unitAt
        (t.zones.buffer.index + t.session.chars.opening.utf8Size) with
    | ok next => exact h.wholeAhead hunit
    | error e =>
      rw [Zones.copyBracketed_of_error hunit] at hmoved
      simp at hmoved
  | sharp =>
    rw [hrole] at hstep
    cases hunit : t.zones.buffer.unitAt
        (t.zones.buffer.index + t.session.chars.sharp.utf8Size) with
    | ok next => exact h.wholeAhead hunit
    | error e =>
      have hstart : t.zones.callStart t.session.chars = .error e := by
        unfold Zones.callStart
        simp only [bind, Except.bind, hunit]
      simp [hstart] at hstep
  | semi => trivial
  | closing => trivial
  | plain => trivial

/-- The buffer stays laid out as long as there is text to scan, also where a step goes over bytes by
another width than that of the character it has recognised. -/
theorem Reaches.laid_or_exhausted (hsession : t.session.WellFormed) (h : t.Laid)
    (hu : t.Reaches u) : u.Laid ∨ u.Exhausted := by
  induction hu with
  | refl => exact .inl h
  | @next v w hv hstep ih =>
    rcases ih with hlaid | hexhausted
    · by_cases hleft : w.Exhausted
      · exact .inr hleft
      · have haligned := hlaid.aligned_of_step hstep hleft
        have hafter := laidAfter_step (hv.wellFormed hsession) hlaid haligned
        rw [hstep] at hafter
        exact .inl hafter
    · exact .inr (hexhausted.step hstep)

/-- Text that is there to be scanned is the text of a program that is being rewritten. -/
theorem Reaches.represents {text : List Char} (hsession : t.session.WellFormed) (h : t.Laid)
    (hu : t.Reaches u) (htext : u.zones.active = text.utf8Encode) (hsome : text ≠ []) :
    ∃ r, u.Represents r ∧ r.text = text := by
  have hlaid : u.Laid := by
    refine (hu.laid_or_exhausted hsession h).resolve_right fun hexhausted => ?_
    have hnone : u.zones.active.size = 0 := by
      unfold Exhausted at hexhausted
      simp only [Zones.active, Buffer.remaining, ByteArray.size_extract]
      omega
    obtain ⟨c, cs, rfl⟩ := List.exists_cons_of_ne_nil hsome
    have hpos := c.utf8Size_pos
    rw [htext, TextUnit.utf8Encode_cons_eq, ByteArray.size_append, List.size_toByteArray,
      String.length_utf8EncodeChar] at hnone
    omega
  obtain ⟨r, hr⟩ := hlaid
  refine ⟨r, hr, ?_⟩
  -- A text is read off its bytes.
  have hbytes : Utf8.lossy r.text.utf8Encode = Utf8.lossy text.utf8Encode := by
    rw [← Zones.Shows.active_eq hr.zones, htext]
  rw [TextUnit.lossy_utf8Encode, TextUnit.lossy_utf8Encode] at hbytes
  exact String.ofList_injective hbytes

/-! ## Calls -/

/-- Where the sharp of now is recognised as one, the start of a call begins the call. -/
theorem Represents.begins {r : Rewriter} {rest : List Char} (active : Bool) (h : u.Represents r)
    (hs : r.session.Ready) (hsharp : u.recognising.role r.session.chars.sharp = .sharp)
    (htext : r.text = r.session.chars.sharp :: (r.session.chars.callStart active ++ rest))
    (hbudget : r.session.execs < r.session.props.execCount)
    (hdepth : r.calls.length < r.session.props.stackSize) :
    ∃ v log, u.step = .next v ∧
      v.Represents ⟨r.session.spent 1 r.session.creations log, r.output, rest,
        ⟨.start active, [], r.session.chars⟩ :: r.calls⟩ := by
  have hpeek := h.zones.peek
  rw [htext] at hpeek
  have hstep := step_eq_scanUnit (h.session_eq ▸ hs.halt_eq) hpeek
  unfold scanUnit at hstep
  dsimp only at hstep
  rw [hsharp] at hstep
  have hcs : r.text = [r.session.chars.sharp] ++ (r.session.chars.callStart active ++ rest) := htext
  have hmirrors := h.sharpBefore htext hcs (by simp [h.session_eq])
  rw [← Rewriter.sharp_eq] at hmirrors
  obtain ⟨log, hbegin⟩ := Rewriter.sharp_callStart r.output rest r.calls active r.text hs hbudget
    hdepth
  rw [hbegin] at hmirrors
  obtain ⟨v, hv, hrep⟩ := hmirrors
  exact ⟨v, log, hstep.trans hv, hrep⟩

/-- A list that is complete but for the bracket that closes it is carried out with the next step.
Nothing is left of it in the zones then. -/
theorem Represents.closes {session : Session} {output rest : List Char} {inner : OpenCall}
    {calls : List OpenCall} {frame : Frame} (hs : session.Ready)
    (h : u.Represents ⟨session, output, session.chars.closing :: rest, inner :: calls⟩)
    (hchars : inner.chars = session.chars) (hfew : inner.frame.args.length < maxEntries)
    (hframe : inner.frame.push (String.ofList inner.pending) = frame) :
    ∃ list zones, u.lists = list :: Rewriter.placed output calls ∧
      u.step = finishCall ⟨session, zones, ⟨frame :: calls.map (·.frame)⟩, u.lists⟩ frame.active
        (Rewriter.placed output calls) ∧
      zones.Holds (Rewriter.collected output calls) rest := by
  have hpeek := h.zones.peek
  have hz : u.zones.Holds (Rewriter.collected output calls ++ inner.pending)
      ([session.chars.closing] ++ rest) := h.zones
  have hstart := TextUnit.utf8ByteSize_ofList (Rewriter.collected output calls)
  have hrecognising : u.recognising = session.chars := by
    rw [h.recognising_eq]
    exact hchars
  have hstep := step_eq_scanUnit (h.session_eq ▸ hs.halt_eq) hpeek
  obtain ⟨usession, zones, ⟨items⟩, lists⟩ := u
  obtain rfl : usession = session := h.session_eq
  obtain rfl : items = inner.frame :: calls.map (·.frame) := h.calls_eq
  obtain rfl : lists = Rewriter.placed output (inner :: calls) := h.lists_eq
  unfold scanUnit at hstep
  dsimp only at hstep
  rw [hrecognising, hs.wellFormed.2.role_closing, Rewriter.placed] at hstep
  dsimp only at hstep
  rw [finishArgument_of_holds hz hstart, if_neg (Nat.not_le.mpr hfew), hframe] at hstep
  have hactive : frame.active = inner.frame.active := by
    rw [← hframe]
    rfl
  rw [hactive]
  exact ⟨_, _, rfl, hstep, (hz.drop hstart).skip (by simp [TextUnit.width])⟩

/-- Passive results cannot break up the argument list that they stand in. Take any state that a
program reaches, where the text goes on with an active or passive call whose entries are templates:
characters that are escaped, and passive calls of defined strings whose entries are templates in
turn. Within the budget and the depth allowed, and with no more entries in a call than there may be,
the scanner comes to carry out that call with exactly the values of its entries, in which each
passive call is replaced by its expansion, whatever characters that has; what was done with is as it
was when the call began, and the text behind the call is untouched. If one of the calls has more
entries, the program fails because of that. -/
theorem collects_templates {program : String} {active : Bool} {name : Template}
    {args : List Template} {rest : List Char} {entries : List String} {tokens : Nat}
    (ht : t.Reachable) (hu : (t.load program).Reaches u) (hhalt : u.session.halt = none)
    (hsharp : u.recognising.role u.session.chars.sharp = .sharp)
    (htext : u.zones.active
      = (Template.callText u.session.chars active name args ++ rest).utf8Encode)
    (hvalues : Template.values? u.session.dict u.session.creations (name :: args)
      = some (entries, tokens))
    (hbudget : u.session.execs + 1 + Template.listCalls (name :: args)
      ≤ u.session.props.execCount)
    (hdepth : u.calls.items.length + 1 + Template.listHeight (name :: args)
      ≤ u.session.props.stackSize) :
    ((name :: args).length ≤ maxEntries ∧ Template.listFits (name :: args) = true →
      ∃ v list zones log, u.Reaches v ∧ v.lists = list :: u.lists ∧
        v.session = u.session.spent (1 + Template.listCalls (name :: args)) tokens log ∧
        v.step = finishCall ⟨v.session, zones, ⟨⟨entries, active⟩ :: u.calls.items⟩, v.lists⟩
          active u.lists ∧
        zones.done = u.zones.done ∧ zones.active = rest.utf8Encode) ∧
    (maxEntries < (name :: args).length ∨ Template.listFits (name :: args) = false →
      ∃ v w, u.Reaches v ∧ v.step = .raised (.tooManyArgs maxEntries) w) := by
  have hload : (t.load program).session.WellFormed := ht.wellFormed
  have hplain : t.session.dict.Plain := Session.invariant_plain.reachable ht
  have hready : u.session.Ready :=
    ⟨hu.wellFormed hload, Session.invariant_plain.reaches hu hplain, hhalt⟩
  obtain ⟨⟨session, output, text, calls⟩, hr, hrtext⟩ :=
    hu.represents hload ⟨_, represents_load ht.calls_eq program⟩ htext (by simp [Template.callText])
  obtain rfl : u.session = session := hr.session_eq
  have hitems : u.calls.items = calls.map (·.frame) := hr.calls_eq
  have hlists : u.lists = Rewriter.placed output calls := hr.lists_eq
  have hlength : u.calls.items.length = calls.length := by
    rw [hitems, List.length_map]
  rw [hlength] at hdepth
  -- The call begins, and the steps that collect its entries begin behind its start.
  have hstart : text = u.session.chars.sharp :: (u.session.chars.callStart active ++
      (name.text u.session.chars ++ (Template.listText u.session.chars args ++ rest))) := by
    simpa [Template.callText] using hrtext
  obtain ⟨v₁, log₁, hstep, hbegun⟩ := hr.begins active hready hsharp hstart
    (by dsimp only; omega) (by dsimp only; omega)
  obtain ⟨log₂, inner, hpasses, hframe, hchars, hargs⟩ := Template.passes_entries active calls
    output rest (hready.spent 1 u.session.creations log₁) hvalues (by simp only [Session.spent]; omega)
    (by simp only [Session.spent]; omega)
  rw [Session.spent_spent] at hpasses
  refine ⟨fun ⟨hfew, hfits⟩ => ?_, fun hmany => ?_⟩
  · have hfew : args.length < maxEntries := hfew
    rw [decide_eq_true hfew, hfits] at hpasses
    obtain ⟨v, hv, hrep⟩ := Rewriter.Goes.reaches hpasses hbegun
    obtain ⟨list, zones, hinside, hlast, hz⟩ :=
      hrep.closes (hready.spent _ _ _) hchars (hargs ▸ hfew) hframe
    rw [← hlists] at hinside hlast
    rw [← hitems] at hlast
    refine ⟨v, list, zones, log₂, hv.of_step hstep, hinside, hrep.session_eq, ?_, ?_, ?_⟩
    · rw [hrep.session_eq]
      exact hlast
    · rw [Zones.Shows.done_eq hz, Zones.Shows.done_eq hr.zones]
      rfl
    · exact Zones.Shows.active_eq hz
  · have hfits :
        (decide (args.length < maxEntries) && Template.listFits (name :: args)) = false := by
      rcases hmany with hmany | hmany
      · rw [decide_eq_false (Nat.not_lt.mpr (Nat.le_of_lt_succ hmany)), Bool.false_and]
      · rw [hmany, Bool.and_false]
    rw [hfits] at hpasses
    obtain ⟨last, left, hgoes, hkeeps, hraised⟩ := hpasses
    obtain ⟨v, hv, hrep⟩ := hgoes.reaches hbegun
    have hmirrors := hrep.step_of_keepsWidths hkeeps
    rw [hraised] at hmirrors
    obtain ⟨w, hw, -⟩ := hmirrors
    exact ⟨v, w, hv.of_step hstep, hw⟩

/-- An interpreter in which a string of meta characters is defined, with a program that calls it
inside an argument. -/
def metaText : Interpreter :=
  (fresh.evaluate 40 "#<ds;g;\\;\\>\\#\\<\\\\>").2.load "#<\\p;##<\\g>\\x>;"

/-- The argument in that program. -/
def metaArgument : Template := .call (.literal 'g' .empty) [] (.literal 'x' .empty)

/-- The argument is not broken up by the meta characters. -/
theorem collects_templates_metaText :
    ∃ v list zones log, metaText.Reaches v ∧ v.lists = list :: metaText.lists ∧
      v.session = metaText.session.spent 2 0 log ∧
      v.step = finishCall ⟨v.session, zones,
        ⟨⟨["p", ";>#<\\x"], true⟩ :: metaText.calls.items⟩, v.lists⟩ true metaText.lists ∧
      zones.done = metaText.zones.done ∧ zones.active = [';'].utf8Encode := by
  have hfacts : metaText.recognising.role metaText.session.chars.sharp = .sharp ∧
      metaText.zones.active = (Template.callText metaText.session.chars true
        (.literal 'p' .empty) [metaArgument] ++ [';']).utf8Encode ∧
      Template.values? metaText.session.dict metaText.session.creations
        [.literal 'p' .empty, metaArgument] = some (["p", ";>#<\\x"], 0) ∧
      metaText.session.execs + 1 + Template.listCalls [.literal 'p' .empty, metaArgument]
        ≤ metaText.session.props.execCount ∧
      metaText.calls.items.length + 1 + Template.listHeight [.literal 'p' .empty, metaArgument]
        ≤ metaText.session.props.stackSize := by
    decide +kernel
  obtain ⟨hsharp, htext, hvalues, hbudget, hdepth⟩ := hfacts
  exact (collects_templates (u := metaText) (.evaluate _ _ reachable_fresh) .refl rfl hsharp htext
    hvalues hbudget hdepth).1 (by decide)

end Interpreter

end TextMacro
