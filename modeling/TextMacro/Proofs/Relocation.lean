import TextMacro.Proofs.Safety
import TextMacro.Proofs.Sequences

/-!
# Programs anywhere in the buffer

What the scanner does with a program does not depend on where it lies in the buffer, on the space
between the zones, or on what has been output before, as long as the scanner is aligned: each step is
described by the same outcome of the rewriting (`relocates_step`), and so is the end of a run
(`run_relocated`). A program that comes to hold the texts of another is evaluated as that is from
there on (`evaluate_relocated`, `evaluate_relocated_behind`).

This goes further than the refinement of the rewriting, which stops where the widths of an argument
list are changed. An aligned scanner goes on there, and takes up other characters than the one it
has recognised.
-/

namespace TextMacro

namespace Rewriter

variable {r : Rewriter} (before : List Char)

/-- More output in front leaves the text as it is. -/
theorem text_beside_nil : (r.beside before []).text = r.text := List.append_nil _

/-- Characters are passed on behind any output. -/
theorem emitThen_beside_nil (cs rest : List Char) :
    (r.beside before []).emitThen cs rest = (r.emitThen cs rest).beside before [] := by
  have hemit := emitThen_beside before [] r cs rest
  rwa [List.append_nil] at hemit

/-- Nothing more in front and behind is the same program. -/
theorem beside_nil_nil : r.beside [] [] = r := by
  simp [beside]

/-- Nothing more in front and behind is the same outcome. -/
theorem Rest.map_beside_nil_nil (rest : Rest) : rest.map (beside [] []) = rest := by
  cases rest with
  | finished r => exact congrArg Rest.finished beside_nil_nil
  | raised e r => exact congrArg (Rest.raised e) beside_nil_nil
  | widthsChanged => rfl
  | unfinished r => exact congrArg Rest.unfinished beside_nil_nil

/-- Copying characters does not change any widths. -/
theorem copyBehind_ne_widthsChanged (cs rest : List Char) :
    r.copyBehind cs rest ≠ .widthsChanged := by
  cases rest with
  | nil => simp [copyBehind]
  | cons d rest => simp [copyBehind]

/-- Characters are copied alike behind any output. -/
theorem copyBehind_beside (cs rest : List Char) : (r.beside before []).copyBehind cs rest
    = (r.copyBehind cs rest).map (beside before []) := by
  cases rest with
  | nil => exact congrArg Step.next (emitThen_beside_nil before cs [])
  | cons d rest => exact congrArg Step.next (emitThen_beside_nil before [d] rest)

/-- Copying a bracketed text does not change any widths. -/
theorem copyBracketed_ne_widthsChanged (rest : List Char) :
    r.copyBracketed rest ≠ .widthsChanged := by
  unfold copyBracketed
  split
  · simp
  · simp

/-- Starting a call does not change any widths. -/
theorem sharpBefore_ne_widthsChanged (behind : List Char) (c : Char) (rest : List Char) :
    r.sharpBefore behind c rest ≠ .widthsChanged := by
  unfold sharpBefore beginCall
  dsimp only
  repeat' split
  all_goals simp

/-- A call starts alike behind any output. -/
theorem sharpBefore_beside (behind : List Char) (c : Char) (rest : List Char) :
    (r.beside before []).sharpBefore behind c rest
      = (r.sharpBefore behind c rest).map (beside before []) := by
  have hsession : (r.beside before []).session = r.session := rfl
  unfold sharpBefore
  rw [hsession]
  cases r.session.chars.callStart? behind with
  | none => exact congrArg Step.next (emitThen_beside_nil before [c] rest)
  | some start =>
    have hbegin := beginCall_beside before [] r start.1 start.2
    rwa [List.append_nil] at hbegin

/-- Completing an argument does not change any widths as long as its call is not carried out. -/
theorem complete_ne_widthsChanged (call : OpenCall) (outer : List OpenCall) (rest : List Char)
    (closes : Bool) : r.complete call outer rest closes ≠ .widthsChanged := by
  unfold complete carryOut
  dsimp only
  repeat' split
  all_goals simp

/-- Where nothing is called any more, no widths change. -/
theorem step_ne_widthsChanged (hidle : r.session.halt.isSome ∨ r.text = []) :
    r.step ≠ .widthsChanged := by
  by_cases hhalt : r.session.halt.isSome
  · rw [step_halted hhalt]
    split
    · simp
    · simp
  · rw [step_nil hhalt (hidle.resolve_left hhalt)]
    split
    · simp
    · simp

end Rewriter

namespace Interpreter

variable {t u : Interpreter} {r : Rewriter}

/-- A program is represented whatever was put out before it. -/
theorem Represents.beside_nil (h : t.Represents r) : t.Represents (r.beside [] []) := by
  rwa [Rewriter.beside_nil_nil]

/-! ## Steps -/

/-- A part of what the scanner does leads to the same wherever the program lies: it is described by
an outcome of the rewriting that only takes along what has been output before. -/
def Relocates (r : Rewriter) (part : Interpreter → Step) : Prop :=
  ∃ o, o ≠ Rewriter.Step.widthsChanged ∧ ∀ before u, u.Represents (r.beside before []) →
    (part u).Mirrors (o.map (Rewriter.beside before []))

/-- It is described so by what the rewriting does from any output. -/
theorem Relocates.of_mirrors {part : Interpreter → Step} (outcome : Rewriter → Rewriter.Step)
    (hgoes : outcome r ≠ .widthsChanged)
    (hbeside : ∀ before, outcome (r.beside before [])
      = (outcome r).map (Rewriter.beside before []))
    (hmirrors : ∀ before u, u.Represents (r.beside before []) →
      (part u).Mirrors (outcome (r.beside before []))) : Relocates r part :=
  ⟨outcome r, hgoes, fun before u hu => hbeside before ▸ hmirrors before u hu⟩

/-- Parts that are the same on the program at hand. -/
theorem Relocates.congr {part part' : Interpreter → Step} (h : Relocates r part)
    (heq : ∀ before u, u.Represents (r.beside before []) → part' u = part u) :
    Relocates r part' := by
  obtain ⟨o, hgoes, hmirrors⟩ := h
  exact ⟨o, hgoes, fun before u hu => heq before u hu ▸ hmirrors before u hu⟩

/-- Passing a character on leads to the same wherever the program lies. -/
theorem relocates_transfer {c : Char} {rest : List Char} (htext : r.text = c :: rest) :
    Relocates r fun u => u.move (·.transfer (TextUnit.char c).width) := by
  refine .of_mirrors (fun r => .next (r.emitThen [c] rest)) (by simp) (fun before => ?_)
    fun before u hu => ?_
  · exact congrArg Rewriter.Step.next (Rewriter.emitThen_beside_nil before [c] rest)
  · exact hu.transfer ((Rewriter.text_beside_nil before).trans htext)

/-- An escape that takes up whole characters. -/
theorem relocates_escape (h : t.Represents r)
    (hle : t.session.chars.escape.utf8Size ≤ t.zones.active.size)
    (hwhole : t.zones.WholeAhead t.session.chars.escape.utf8Size) :
    Relocates r fun u => u.move (·.copyEscaped u.session.chars) := by
  obtain ⟨cs, rest, htext, hw⟩ := h.whole_escape hle hwhole
  rw [h.session_eq] at hw
  exact .of_mirrors (·.copyBehind cs rest) (Rewriter.copyBehind_ne_widthsChanged cs rest)
    (Rewriter.copyBehind_beside · cs rest) fun before u hu =>
      hu.copyBehind ((Rewriter.text_beside_nil before).trans htext) (hu.session_eq ▸ hw)

/-- A bracketed text whose opening bracket takes up whole characters, or all that is left. -/
theorem relocates_opening (h : t.Represents r)
    (hwhole : t.zones.WholeAhead t.session.chars.opening.utf8Size) :
    Relocates r fun u => u.move (·.copyBracketed u.session.chars) := by
  obtain ⟨rest, hskip⟩ := h.zones.skip_whole hwhole
  rw [h.session_eq] at hskip
  refine .of_mirrors (·.copyBracketed rest) (Rewriter.copyBracketed_ne_widthsChanged rest)
    (fun before => ?_) fun before u hu => ?_
  · have hbeside : _ = (r.copyBracketed rest).map (Rewriter.beside before []) :=
      Rewriter.copyBracketed_beside before r (.inr rfl)
    rwa [List.append_nil] at hbeside
  · have hz := hu.zones
    rw [Rewriter.text_beside_nil] at hz
    exact hu.copyBracketed (hu.session_eq ▸ hskip hz)

/-- A sharp that takes up whole characters, or all that is left. -/
theorem relocates_sharp {c : Char} {rest : List Char} (h : t.Represents r)
    (htext : r.text = c :: rest)
    (hwhole : t.zones.WholeAhead t.session.chars.sharp.utf8Size) :
    Relocates r fun u => match u.zones.callStart u.session.chars with
      | .error e => .raised e u
      | .ok (some active) => u.beginCall u.session.chars active
      | .ok none => u.move (·.transfer (TextUnit.char c).width) := by
  rcases (h.zones.wholeAhead_iff _).mp hwhole with hle | ⟨cs, behind, hcs, hw⟩
  · -- No call starts where the text is over, and the sharp is moved as any other character.
    refine (relocates_transfer htext).congr fun before u hu => ?_
    have hz := hu.zones
    rw [Rewriter.text_beside_nil] at hz
    rw [h.session_eq] at hle
    rw [hz.callStart_of_size_le (hu.session_eq ▸ hle)]
  · rw [h.session_eq] at hw
    refine .of_mirrors (·.sharpBefore behind c rest)
      (Rewriter.sharpBefore_ne_widthsChanged behind c rest)
      (Rewriter.sharpBefore_beside · behind c rest) fun before u hu => ?_
    have htext' : (r.beside before []).text = r.text := Rewriter.text_beside_nil before
    exact hu.sharpBefore (htext'.trans htext) (htext'.trans hcs) (hu.session_eq ▸ hw)

/-- A separator, which has a meaning inside a call only. -/
theorem relocates_separator {c : Char} {rest : List Char} (closes : Bool)
    (htext : r.text = c :: rest) :
    Relocates r fun u => match u.lists with
      | [] => u.move (·.transfer (TextUnit.char c).width)
      | list :: outer => u.finishArgument list outer c.utf8Size closes := by
  cases hcalls : r.calls with
  | nil =>
    refine (relocates_transfer htext).congr fun before u hu => ?_
    have hcalls : (r.beside before []).calls = [] := hcalls
    rw [hu.lists_eq, hcalls]
    rfl
  | cons call outer =>
    refine .of_mirrors (·.complete call outer rest closes)
      (Rewriter.complete_ne_widthsChanged call outer rest closes) (fun before => ?_)
      fun before u hu => ?_
    · have hbeside := Rewriter.complete_beside before [] r call outer rest closes
      rwa [List.append_nil] at hbeside
    · have hcalls : (r.beside before []).calls = call :: outer := hcalls
      rw [hu.lists_eq, hcalls]
      exact Rewriter.complete_mirrors hu hcalls ((Rewriter.text_beside_nil before).trans htext)

/-- A character that is scanned. Alignment says what an escape, an opening bracket and a sharp take
up. -/
theorem relocates_scan {c : Char} {rest : List Char} (h : t.Represents r) (haligned : t.Aligned)
    (hhalt : ¬ r.session.halt.isSome) (htext : r.text = c :: rest) :
    Relocates r fun u => u.scanUnit r.recognising u.session.chars (.char c) := by
  have hpeek := h.zones.peek
  rw [htext] at hpeek
  have hwhole := haligned (by simpa [h.session_eq] using hhalt) c hpeek
  rw [h.recognising_eq] at hwhole
  unfold scanUnit
  dsimp only
  cases hrole : r.recognising.role c with
  | escape =>
    rw [hrole] at hwhole
    exact relocates_escape h hwhole.1 hwhole.2
  | opening =>
    rw [hrole] at hwhole
    exact relocates_opening h hwhole
  | sharp =>
    rw [hrole] at hwhole
    exact relocates_sharp h htext hwhole
  | semi =>
    refine (relocates_separator false htext).congr fun before u hu => ?_
    cases u.lists with
    | nil => rfl
    | cons list outer => rfl
  | closing =>
    refine (relocates_separator true htext).congr fun before u hu => ?_
    cases u.lists with
    | nil => rfl
    | cons list outer => rfl
  | plain => exact relocates_transfer htext

/-- A step from an aligned state does the same wherever the program lies. -/
theorem relocates_step (h : t.Represents r) (haligned : t.Aligned) : Relocates r step := by
  by_cases hidle : r.session.halt.isSome ∨ r.text = []
  · -- Without a character to be scanned the step is that of the rewriting.
    refine .of_mirrors Rewriter.step (Rewriter.step_ne_widthsChanged hidle)
      (fun before => Rewriter.step_beside before r (.inr rfl)) fun before u hu => ?_
    exact hu.step_of_idle (hidle.imp id (Rewriter.text_beside_nil before).trans)
  · obtain ⟨hhalt, hsome⟩ := not_or.mp hidle
    obtain ⟨c, rest, htext⟩ := List.exists_cons_of_ne_nil hsome
    refine (relocates_scan h haligned hhalt htext).congr fun before u hu => ?_
    exact hu.step_scan hhalt ((Rewriter.text_beside_nil before).trans htext)

/-! ## Runs -/

/-- Whether a state is aligned does not depend on where the program lies. -/
theorem Represents.aligned_of_beside {before : List Char} (h : t.Represents r)
    (hu : u.Represents (r.beside before [])) (haligned : u.Aligned) : t.Aligned := by
  have hsession : u.session = t.session := hu.session_eq.trans h.session_eq.symm
  have hrecognising : u.recognising = t.recognising := hu.recognising_eq.trans h.recognising_eq.symm
  have htext := Rewriter.text_beside_nil (r := r) before
  have hpeek : u.zones.buffer.peek = t.zones.buffer.peek := by
    rw [h.zones.peek, hu.zones.peek, htext]
  have hactive : u.zones.active = t.zones.active := by
    rw [Zones.Shows.active_eq h.zones, Zones.Shows.active_eq hu.zones, htext]
  unfold Aligned Zones.WholeAhead at haligned ⊢
  rwa [hsession, hrecognising, hpeek, hactive] at haligned

/-- A run in which all states are aligned does the same wherever the program lies. -/
theorem run_relocated {before : List Char} (fuel : Nat) (h : t.Represents r)
    (hu : u.Represents (r.beside before [])) (haligned : ∀ v, u.Reaches v → v.Aligned) :
    ∃ rest : Rewriter.Rest, (run fuel t).Mirrors rest ∧
      (run fuel u).Mirrors (rest.map (Rewriter.beside before [])) := by
  induction fuel generalizing t u r with
  | zero => exact ⟨.unfinished r, ⟨t, rfl, h⟩, ⟨u, rfl, hu⟩⟩
  | succ fuel ih =>
    obtain ⟨o, hgoes, hstep⟩ := relocates_step h (h.aligned_of_beside hu (haligned u .refl))
    -- The same outcome describes the steps of both.
    have ht := hstep [] t h.beside_nil
    have hu := hstep before u hu
    unfold run
    cases o with
    | next r' =>
      obtain ⟨t', ht', hrep⟩ := ht
      obtain ⟨u', hu', hrep'⟩ := hu
      rw [Rewriter.beside_nil_nil] at hrep
      rw [ht', hu']
      exact ih hrep hrep' fun v hv => haligned v (hv.of_step hu')
    | finished r' =>
      obtain ⟨t', ht', hend⟩ := ht
      obtain ⟨u', hu', hend'⟩ := hu
      rw [Rewriter.beside_nil_nil] at hend
      rw [ht', hu']
      exact ⟨.finished r', ⟨t', rfl, hend⟩, ⟨u', rfl, hend'⟩⟩
    | raised e r' =>
      obtain ⟨t', ht', hrep⟩ := ht
      obtain ⟨u', hu', hrep'⟩ := hu
      rw [Rewriter.beside_nil_nil] at hrep
      rw [ht', hu']
      exact ⟨.raised e r', ⟨t', rfl, hrep⟩, ⟨u', rfl, hrep'⟩⟩
    | widthsChanged => exact absurd rfl hgoes

variable {t' : Interpreter} {text text' : String}

/-- A program that comes to hold the texts of another, with more output in front, and that other end
as one rewriting does. -/
theorem results_relocated {before : List Char} (hcalls : t.calls = .empty)
    (hcalls' : t'.calls = .empty)
    (haligned : ∀ v, (t.load text).Reaches v → v.Aligned) (hu : (t.load text).Reaches u)
    (hrep : u.Represents ((Rewriter.start t'.session text').beside before [])) :
    ∃ steps, ∀ fuel, ∃ rest : Rewriter.Rest,
      rest.result?.map (Prod.map id ofSession) = some (t'.evaluate fuel text') ∧
      (rest.map (Rewriter.beside before [])).result?.map (Prod.map id ofSession)
        = some (t.evaluate (steps + fuel) text) := by
  obtain ⟨steps, hrun⟩ := hu.run_eq
  refine ⟨steps, fun fuel => ?_⟩
  obtain ⟨rest, hrest', hrest⟩ := run_relocated fuel (represents_load hcalls' text') hrep
    fun v hv => haligned v (hu.trans hv)
  rw [← hrun] at hrest
  exact ⟨rest, evaluate_of_mirrors hcalls' hrest', evaluate_of_mirrors hcalls hrest⟩

/-- It is evaluated as the other is if there is no more output. -/
theorem evaluate_relocated (hcalls : t.calls = .empty) (hcalls' : t'.calls = .empty)
    (haligned : ∀ v, (t.load text).Reaches v → v.Aligned)
    (hu : (t.load text).Reaches u) (hrep : u.Represents (Rewriter.start t'.session text')) :
    ∃ steps, ∀ fuel, t.evaluate (steps + fuel) text = t'.evaluate fuel text' := by
  obtain ⟨steps, hresults⟩ := results_relocated hcalls hcalls' haligned hu hrep.beside_nil
  refine ⟨steps, fun fuel => ?_⟩
  obtain ⟨rest, hresult', hresult⟩ := hresults fuel
  rw [Rewriter.Rest.map_beside_nil_nil, hresult'] at hresult
  exact (Option.some.inj hresult).symm

/-- Otherwise this output stands in front of the outcome or the failure of the other. -/
theorem evaluate_relocated_behind {before : String} (hcalls : t.calls = .empty)
    (hcalls' : t'.calls = .empty)
    (haligned : ∀ v, (t.load text).Reaches v → v.Aligned) (hu : (t.load text).Reaches u)
    (hrep : u.Represents ((Rewriter.start t'.session text').beside before.toList [])) :
    ∃ steps, ∀ fuel, t.evaluate (steps + fuel) text =
      ((t'.evaluate fuel text').1.map (·.behind before) (·.behind before),
        (t'.evaluate fuel text').2) := by
  obtain ⟨steps, hresults⟩ := results_relocated hcalls hcalls' haligned hu hrep
  refine ⟨steps, fun fuel => ?_⟩
  obtain ⟨rest, hresult', hresult⟩ := hresults fuel
  exact eq_behind_of_result? hresult' hresult

end Interpreter

end TextMacro
