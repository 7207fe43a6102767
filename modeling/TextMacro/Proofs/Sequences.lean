import TextMacro.Proofs.OwnChars
import TextMacro.Proofs.Refinement

/-!
# Programs one after another

Evaluating two texts as one program is evaluating the first and then the second
(`Interpreter.evaluate_append`). What is output already is never looked at again, and text behind
what is to be scanned makes no difference to a step that does not look past the end
(`Rewriter.step_beside`). A step looks past the end where a sharp or an escape is all that is left.
Inside a call the program fails then, and outside calls it has to be excluded.
-/

namespace TextMacro

namespace Rewriter

/-! ## More output in front and more text behind -/

/-- Changes the program in the outcome of a step. -/
def Step.map (f : Rewriter → Rewriter) : Step → Step
  | .next r => .next (f r)
  | .finished r => .finished (f r)
  | .raised e r => .raised e (f r)
  | .widthsChanged => .widthsChanged

/-- Changes the program at the end of a run. -/
def Rest.map (f : Rewriter → Rewriter) : Rest → Rest
  | .finished r => .finished (f r)
  | .raised e r => .raised e (f r)
  | .widthsChanged => .widthsChanged
  | .unfinished r => .unfinished (f r)

/-- A program with more output in front of its own and more text behind its own. -/
def beside (before behind : List Char) (r : Rewriter) : Rewriter :=
  { r with output := before ++ r.output, text := r.text ++ behind }

variable (before behind : List Char) (r : Rewriter)

/-- Characters are passed on behind the output in front. -/
theorem emit_beside (cs : List Char) :
    (r.beside before behind).emit cs = (r.emit cs).beside before behind := by
  obtain ⟨session, output, text, calls⟩ := r
  cases calls with
  | nil => simp [emit, beside]
  | cons call outer => rfl

/-- Scanning goes on in front of the text behind. -/
theorem emitThen_beside (cs rest : List Char) :
    (r.beside before behind).emitThen cs (rest ++ behind)
      = (r.emitThen cs rest).beside before behind := by
  unfold emitThen
  rw [emit_beside]
  rfl

/-- A call begins alike with more in front and behind. -/
theorem beginCall_beside (active : Bool) (rest : List Char) :
    (r.beside before behind).beginCall active (rest ++ behind)
      = (r.beginCall active rest).map (beside before behind) := by
  unfold beginCall
  simp only [apply_ite (Step.map _)]
  rfl

/-- A result is placed between what is in front and behind. -/
theorem placing_beside (active : Bool) (disposition : Disposition) (result : String) :
    (r.beside before behind).placing active disposition result
      = (r.placing active disposition result).beside before behind := by
  unfold placing
  simp only [apply_ite (beside before behind), emit_beside]
  simp only [beside, List.append_assoc]

/-- A call is carried out alike with more in front and behind. -/
theorem carryOut_beside (call : OpenCall) :
    (r.beside before behind).carryOut call = (r.carryOut call).map (beside before behind) := by
  unfold carryOut
  dsimp only [beside]
  cases Action.invoke (r.calls.length + 1) call.frame r.session with
  | error e session => rfl
  | ok result session =>
    exact congrArg Step.next (placing_beside before behind { r with session } _ _ _)

/-- An argument is completed alike with more in front and behind. -/
theorem complete_beside (call : OpenCall) (outer : List OpenCall) (rest : List Char)
    (closes : Bool) : (r.beside before behind).complete call outer (rest ++ behind) closes
      = (r.complete call outer rest closes).map (beside before behind) := by
  have hclosed := carryOut_beside before behind { r with text := rest, calls := outer }
  unfold complete
  simp only [apply_ite (Step.map _), ← hclosed]
  rfl

/-- The widths are compared alike with more in front and behind. -/
theorem compared_beside (o : Step) :
    (o.map (beside before behind)).compared = o.compared.map (beside before behind) := by
  cases o with
  | next r =>
    have hkeeps : (r.beside before behind).keepsWidths = r.keepsWidths := rfl
    rw [Step.compared_next, Step.map, Step.compared_next, hkeeps, apply_ite (Step.map _)]
    rfl
  | finished r => rfl
  | raised e r => rfl
  | widthsChanged => rfl

/-- An argument is finished alike with more in front and behind. -/
theorem finishArgument_beside (call : OpenCall) (outer : List OpenCall) (rest : List Char)
    (closes : Bool) : (r.beside before behind).finishArgument call outer (rest ++ behind) closes
      = (r.finishArgument call outer rest closes).map (beside before behind) := by
  rw [finishArgument_eq, finishArgument_eq, complete_beside, compared_beside, ← apply_ite]

end Rewriter

/-! ## Steps that do not look past the end -/

namespace MetaChars

variable (m : MetaChars) (behind : List Char)

/-- A bracketed text that is closed is the same whatever follows it. -/
theorem bracketed?_append {depth : Nat} {text inside rest : List Char}
    (h : m.bracketed? depth text = some (inside, rest)) :
    m.bracketed? depth (text ++ behind) = some (inside, rest ++ behind) := by
  -- Each case that copies characters does the same with the longer text.
  fun_induction bracketed? m depth text generalizing inside rest with
  | case1 depth => simp at h
  | case2 depth => simp at h
  | case3 depth d text ih =>
    obtain ⟨⟨inside', rest'⟩, hfound, heq⟩ := Option.map_eq_some_iff.mp h
    obtain ⟨rfl, rfl⟩ : m.escape :: d :: inside' = inside ∧ rest' = rest := by simpa using heq
    simp [bracketed?, ih hfound]
  | case4 depth text hescape ih =>
    obtain ⟨⟨inside', rest'⟩, hfound, heq⟩ := Option.map_eq_some_iff.mp h
    obtain ⟨rfl, rfl⟩ : m.opening :: inside' = inside ∧ rest' = rest := by simpa using heq
    rw [List.cons_append, bracketed?.eq_def]
    simp [hescape, ih hfound]
  | case5 text hescape hopening =>
    obtain ⟨rfl, rfl⟩ : [] = inside ∧ text = rest := by simpa using h
    rw [List.cons_append, bracketed?.eq_def]
    simp [hescape, hopening]
  | case6 depth text hdepth hescape hopening ih =>
    obtain ⟨⟨inside', rest'⟩, hfound, heq⟩ := Option.map_eq_some_iff.mp h
    obtain ⟨rfl, rfl⟩ : m.closing :: inside' = inside ∧ rest' = rest := by simpa using heq
    rw [List.cons_append, bracketed?.eq_def]
    simp [hescape, hopening, hdepth, ih hfound]
  | case7 depth c text hescape hopening hclosing ih =>
    obtain ⟨⟨inside', rest'⟩, hfound, heq⟩ := Option.map_eq_some_iff.mp h
    obtain ⟨rfl, rfl⟩ : c :: inside' = inside ∧ rest' = rest := by simpa using heq
    rw [List.cons_append, bracketed?.eq_def]
    simp [hescape, hopening, hclosing, ih hfound]

/-- Whether a call starts is decided by the two characters behind the sharp. -/
theorem callStart?_append {text : List Char} (hsome : text ≠ []) (hsharp : text ≠ [m.sharp]) :
    m.callStart? (text ++ behind)
      = (m.callStart? text).map fun (active, rest) => (active, rest ++ behind) := by
  match text with
  | [] => exact absurd rfl hsome
  | [c] =>
    have hc : c ≠ m.sharp := fun h => hsharp (by rw [h])
    simp only [List.cons_append, callStart?, if_neg hc, apply_ite (Option.map _)]
    rfl
  | c :: d :: rest =>
    simp only [List.cons_append, callStart?, apply_ite (Option.map _)]
    rfl

end MetaChars

namespace Rewriter

variable (before : List Char) {behind rest : List Char} (r : Rewriter)

/-- An escape takes the character behind it along, if there is one. -/
theorem copyEscaped_beside (c : Char) (h : rest ≠ [] ∨ behind = []) :
    (r.beside before behind).copyEscaped c (rest ++ behind)
      = (r.copyEscaped c rest).map (beside before behind) := by
  cases rest with
  | cons d rest => exact congrArg Step.next (emitThen_beside before behind r [d] rest)
  | nil =>
    obtain rfl : behind = [] := h.resolve_left fun hne => hne rfl
    exact congrArg Step.next (emitThen_beside before [] r [c] [])

/-- A bracketed text goes up to the bracket that closes it, if there is one. -/
theorem copyBracketed_beside (h : (r.session.chars.bracketed? 1 rest).isSome ∨ behind = []) :
    (r.beside before behind).copyBracketed (rest ++ behind)
      = (r.copyBracketed rest).map (beside before behind) := by
  have hsession : (r.beside before behind).session = r.session := rfl
  unfold copyBracketed
  rw [hsession]
  cases hfound : r.session.chars.bracketed? 1 rest with
  | some found =>
    obtain ⟨inside, rest'⟩ := found
    rw [MetaChars.bracketed?_append _ behind hfound]
    exact congrArg Step.next (emitThen_beside before behind r inside rest')
  | none =>
    obtain rfl : behind = [] := h.resolve_left fun hsome => by simp [hfound] at hsome
    rw [List.append_nil, hfound]
    exact congrArg (Step.raised _) (emitThen_beside before [] r rest [])

/-- A call starts with one or two characters behind the sharp. -/
theorem sharp_beside (c : Char)
    (h : (rest ≠ [] ∧ rest ≠ [r.session.chars.sharp]) ∨ behind = []) :
    (r.beside before behind).sharp c (rest ++ behind)
      = (r.sharp c rest).map (beside before behind) := by
  have hstart : r.session.chars.callStart? (rest ++ behind)
      = (r.session.chars.callStart? rest).map fun (active, rest) => (active, rest ++ behind) := by
    rcases h with ⟨hsome, hsharp⟩ | rfl
    · exact MetaChars.callStart?_append _ behind hsome hsharp
    · simp
  have hsession : (r.beside before behind).session = r.session := rfl
  unfold sharp
  rw [hsession, hstart]
  cases r.session.chars.callStart? rest with
  | some start => exact beginCall_beside before behind r start.1 start.2
  | none => exact congrArg Step.next (emitThen_beside before behind r [c] rest)

/-- What a character does is decided by the text behind it: a bracketed text is closed in it, and
with a sharp or an escape it does not end where the step would look on. -/
def DecidedBy (r : Rewriter) (rest : List Char) : Role → Prop
  | .escape => rest ≠ []
  | .opening => (r.session.chars.bracketed? 1 rest).isSome
  | .sharp => rest ≠ [] ∧ rest ≠ [r.session.chars.sharp]
  | _ => True

/-- A character that is decided without the text behind is scanned alike. -/
theorem scanChar_beside (m : MetaChars) (c : Char)
    (h : r.DecidedBy rest (m.role c) ∨ behind = []) :
    (r.beside before behind).scanChar m c (rest ++ behind)
      = (r.scanChar m c rest).map (beside before behind) := by
  have hplain := congrArg Step.next (emitThen_beside before behind r [c] rest)
  have hcalls : (r.beside before behind).calls = r.calls := rfl
  unfold scanChar
  rw [hcalls]
  cases hrole : m.role c with
  | escape =>
    rw [hrole] at h
    exact copyEscaped_beside before r c h
  | opening =>
    rw [hrole] at h
    exact copyBracketed_beside before r h
  | sharp =>
    rw [hrole] at h
    exact sharp_beside before r c h
  | semi =>
    cases r.calls with
    | nil => exact hplain
    | cons call outer => exact finishArgument_beside before behind r call outer rest false
  | closing =>
    cases r.calls with
    | nil => exact hplain
    | cons call outer => exact finishArgument_beside before behind r call outer rest true
  | plain => exact hplain

/-- No character ends a program. -/
theorem scanChar_ne_finished (m : MetaChars) (c : Char) (last : Rewriter) :
    r.scanChar m c rest ≠ .finished last := by
  unfold scanChar copyEscaped copyBracketed sharp finishArgument finishCall place beginCall
  dsimp only
  repeat' split
  all_goals simp

variable {r} in
/-- A program ends as it is, outside calls and with nothing left unless it has asked to stop. -/
theorem eq_of_finished {last : Rewriter} (h : r.step = .finished last) :
    last = r ∧ r.calls = [] ∧ (r.session.halt = none → r.text = []) := by
  by_cases hhalt : r.session.halt.isSome
  · rw [step_halted hhalt] at h
    cases hcalls : r.calls with
    | nil =>
      rw [hcalls] at h
      exact ⟨(Step.finished.inj h).symm, rfl, fun hnone => by simp [hnone] at hhalt⟩
    | cons call outer => simp [hcalls] at h
  · cases htext : r.text with
    | nil =>
      rw [step_nil hhalt htext] at h
      by_cases hcalls : r.calls = []
      · rw [if_pos hcalls] at h
        exact ⟨(Step.finished.inj h).symm, hcalls, fun _ => rfl⟩
      · simp [hcalls] at h
    | cons c rest =>
      rw [step_cons hhalt htext] at h
      exact absurd h (scanChar_ne_finished r _ c last)

/-- What the next step does is decided by the text there is. -/
def Decided (r : Rewriter) : Prop :=
  r.session.halt.isSome ∨ ∃ c rest, r.text = c :: rest ∧ r.DecidedBy rest (r.recognising.role c)

/-- A step does the same whatever has been output before, and with any text behind if the text there
is decides it. -/
theorem step_beside (h : r.Decided ∨ behind = []) :
    (r.beside before behind).step = r.step.map (beside before behind) := by
  by_cases hhalt : r.session.halt.isSome
  · have hhalt' : (r.beside before behind).session.halt.isSome := hhalt
    have hcalls : (r.beside before behind).calls = r.calls := rfl
    rw [step_halted hhalt, step_halted hhalt', hcalls]
    cases r.calls <;> rfl
  · have hhalt' : ¬ (r.beside before behind).session.halt.isSome := hhalt
    cases htext : r.text with
    | nil =>
      have hnone : ¬ r.Decided := by
        rintro (hhalted | ⟨c, rest, hcons, -⟩)
        · exact hhalt hhalted
        · simp [htext] at hcons
      obtain rfl : behind = [] := h.resolve_left hnone
      have htext' : (r.beside before []).text = [] := by simp [beside, htext]
      rw [step_nil hhalt htext, step_nil hhalt' htext', apply_ite (Step.map _)]
      rfl
    | cons c rest =>
      have hdecided : r.DecidedBy rest (r.recognising.role c) ∨ behind = [] := by
        rcases h with (hhalted | ⟨d, rest', hcons, hdecided⟩) | hnone
        · exact absurd hhalted hhalt
        · obtain ⟨rfl, rfl⟩ : c = d ∧ rest = rest' := by simpa [htext] using hcons
          exact .inl hdecided
        · exact .inr hnone
      have htext' : (r.beside before behind).text = c :: (rest ++ behind) := by simp [beside, htext]
      rw [step_cons hhalt htext, step_cons hhalt' htext']
      exact scanChar_beside before r r.recognising c hdecided

/-- A run does the same whatever has been output before. -/
theorem run_beside (fuel : Nat) :
    (r.beside before []).run fuel = (r.run fuel).map (beside before []) := by
  induction fuel generalizing r with
  | zero => rfl
  | succ fuel ih =>
    unfold run
    rw [step_beside before r (.inr rfl)]
    cases r.step with
    | next r => exact ih r
    | finished r => rfl
    | raised e r => rfl
    | widthsChanged => rfl

end Rewriter

/-! ## Where a step looks past the end -/

namespace MetaChars

variable {m n : MetaChars}

/-- The characters that give a program its structure. -/
def structuring (m : MetaChars) : List Char :=
  [m.sharp, m.opening, m.semi, m.closing, m.escape]

/-- The same characters have the same roles. -/
theorem role_congr (h : m.structuring = n.structuring) (c : Char) : m.role c = n.role c := by
  simp only [structuring, List.cons.injEq, and_true] at h
  obtain ⟨hsharp, hopening, hsemi, hclosing, hescape⟩ := h
  unfold role
  rw [hsharp, hopening, hsemi, hclosing, hescape]

/-- Characters that give the same structure are equally wide. -/
theorem sameWidths_of_structuring (h : m.structuring = n.structuring) :
    m.sameWidths n = true := by
  simp only [structuring, List.cons.injEq, and_true] at h
  obtain ⟨hsharp, hopening, -, -, hescape⟩ := h
  rw [sameWidths_iff, hsharp, hopening, hescape]
  exact ⟨rfl, rfl, rfl⟩

/-- A sharp that is recognised as one is no opening bracket, and no call starts with it alone. -/
theorem callStart?_sharp (h : m.role m.sharp = .sharp) : m.callStart? [m.sharp] = none := by
  have hne : m.sharp ≠ m.opening := by
    intro heq
    unfold role at h
    repeat' split at h
    all_goals contradiction
  simp [callStart?, hne]

end MetaChars

namespace Rewriter

variable {r r' : Rewriter}

/-- A sharp or an escape is all that is left. -/
def Lone (r : Rewriter) : Prop :=
  ∃ c, r.text = [c] ∧ (r.recognising.role c = .escape ∨ r.recognising.role c = .sharp)

/-- It is added as an ordinary character. -/
theorem Lone.step (h : r.Lone) (hhalt : ¬ r.session.halt.isSome) :
    ∃ c, r.step = .next (r.emitThen [c] []) := by
  obtain ⟨c, htext, hrole⟩ := h
  refine ⟨c, ?_⟩
  rw [step_cons hhalt htext]
  unfold scanChar
  rcases hrole with hrole | hrole
  · rw [hrole]
    rfl
  · rw [hrole]
    rfl

/-- Passing characters on opens and closes no call. -/
theorem calls_emitThen (cs rest : List Char) (r : Rewriter) :
    (r.emitThen cs rest).calls = [] ↔ r.calls = [] := by
  obtain ⟨session, output, text, calls⟩ := r
  cases calls with
  | nil => exact Iff.rfl
  | cons call outer => simp [emitThen, emit]

/-- Passing characters on leaves those by which the next is recognised. -/
theorem recognising_emitThen (cs rest : List Char) (r : Rewriter) :
    (r.emitThen cs rest).recognising = r.recognising := by
  obtain ⟨session, output, text, calls⟩ := r
  cases calls <;> rfl

/-- Inside a call the program does not come to an end then. -/
theorem Lone.run_ne_finished (h : r.Lone) (hhalt : ¬ r.session.halt.isSome) (hcalls : r.calls ≠ [])
    (fuel : Nat) (last : Rewriter) : r.run fuel ≠ .finished last := by
  obtain ⟨c, hstep⟩ := h.step hhalt
  have hsession : (r.emitThen [c] []).session = r.session := r.session_emit [c]
  have hnext := step_nil (r := r.emitThen [c] []) (hsession ▸ hhalt) rfl
  rw [if_neg fun hnone => hcalls ((calls_emitThen _ _ r).mp hnone)] at hnext
  match fuel with
  | 0 => simp [run]
  | 1 => simp [run, hstep]
  | fuel + 2 => simp [run, hstep, hnext]

/-- A step that goes on without being decided by the text there is finds a sharp or an escape that
is all that is left, or comes to one. -/
theorem lone_of_not_decided (hkeeps : r.recognising.structuring = r.session.chars.structuring)
    (hhalt : ¬ r.session.halt.isSome) (hstep : r.step = .next r') (h : ¬ r.Decided) :
    r.Lone ∨ ∃ c, r' = r.emitThen [c] [r.session.chars.sharp] ∧ r'.Lone := by
  cases htext : r.text with
  | nil =>
    rw [step_nil hhalt htext] at hstep
    split at hstep <;> simp at hstep
  | cons c rest =>
    have hnot : ¬ r.DecidedBy rest (r.recognising.role c) :=
      fun hdecided => h (.inr ⟨c, rest, htext, hdecided⟩)
    rw [step_cons hhalt htext] at hstep
    unfold scanChar at hstep
    cases hrole : r.recognising.role c with
    | escape =>
      rw [hrole] at hnot
      obtain rfl : rest = [] := Classical.not_not.mp hnot
      exact .inl ⟨c, htext, .inl hrole⟩
    | opening =>
      -- A bracket that is not closed is an error.
      rw [hrole] at hnot hstep
      have hnone : r.session.chars.bracketed? 1 rest = none := by simpa [DecidedBy] using hnot
      simp [copyBracketed, hnone] at hstep
    | sharp =>
      rw [hrole] at hnot hstep
      by_cases hrest : rest = []
      · subst hrest
        exact .inl ⟨c, htext, .inr hrole⟩
      · obtain rfl : rest = [r.session.chars.sharp] :=
          Classical.not_not.mp fun hsharp => hnot ⟨hrest, hsharp⟩
        -- The first sharp starts no call with the second alone, and the second is left.
        rw [MetaChars.role_congr hkeeps] at hrole
        obtain rfl : c = r.session.chars.sharp := MetaChars.eq_of_role.2.2 hrole
        have hnext : r.emitThen [r.session.chars.sharp] [r.session.chars.sharp] = r' := by
          simpa [sharp, MetaChars.callStart?_sharp hrole] using hstep
        refine .inr ⟨_, hnext.symm, ?_⟩
        rw [← hnext]
        refine ⟨r.session.chars.sharp, rfl, .inr ?_⟩
        rw [recognising_emitThen, MetaChars.role_congr hkeeps]
        exact hrole
    | semi =>
      rw [hrole] at hnot
      exact absurd trivial hnot
    | closing =>
      rw [hrole] at hnot
      exact absurd trivial hnot
    | plain =>
      rw [hrole] at hnot
      exact absurd trivial hnot

end Rewriter

/-! ## Whole programs -/

namespace Interpreter

variable {t t' u : Interpreter} {r : Rewriter}

/-- No call chooses other characters to give a program its structure while the arguments of another
call are being collected: the characters change only with a step that leaves no list open. -/
def RebindsOutside (t : Interpreter) : Prop :=
  ∀ u v, t.Reaches u → u.step = .next v → v.lists ≠ [] →
    v.session.chars.structuring = u.session.chars.structuring

/-- What holds of all states from here on holds of those from the next on. -/
theorem RebindsOutside.of_step (h : t.RebindsOutside) (hstep : t.step = .next u) :
    u.RebindsOutside :=
  fun v w hv => h v w (hv.of_step hstep)

/-- The argument lists are read by the characters that they began with. -/
def KeepsSyntax (t : Interpreter) : Prop :=
  ∀ list ∈ t.lists, list.chars.structuring = t.session.chars.structuring

/-- The structure stays while arguments are collected. -/
theorem RebindsOutside.keepsSyntax (h : t.RebindsOutside) (ht : t.KeepsSyntax)
    (hu : t.Reaches u) : u.KeepsSyntax := by
  induction hu with
  | refl => exact ht
  | @next v w hv hstep ih =>
    intro list hlist
    rw [h v w hv hstep (List.ne_nil_of_mem hlist)]
    rcases (goesOn_of_step hstep).chars_of_mem hlist with hold | hnow
    · exact ih list hold
    · rw [hnow]

/-- Lists that keep their structure keep their widths. -/
theorem KeepsSyntax.keepsWidths (h : t.KeepsSyntax) : t.KeepsWidths :=
  fun list hlist => MetaChars.sameWidths_of_structuring (h list (List.mem_of_mem_head? hlist))

/-- The program ends by copying a sharp or an escape as an ordinary character: outside calls it is
all that is left. -/
def CopiesLast (t : Interpreter) : Prop :=
  t.lists = [] ∧ t.session.halt = none ∧
    (t.zones.active = (String.ofList [t.session.chars.sharp]).toUTF8 ∨
      t.zones.active = (String.ofList [t.session.chars.escape]).toUTF8)

/-- Whether the last character is copied can be computed. -/
instance (t : Interpreter) : Decidable t.CopiesLast :=
  inferInstanceAs (Decidable (_ ∧ _ ∧ _))

/-- The characters that the next one is recognised by. -/
theorem Represents.structuring_eq (h : t.Represents r) (hkeeps : t.KeepsSyntax) :
    r.recognising.structuring = r.session.chars.structuring := by
  unfold Rewriter.recognising
  cases hcalls : r.calls with
  | nil => rfl
  | cons call outer =>
    have hlists := h.lists_eq
    rw [hcalls] at hlists
    unfold KeepsSyntax at hkeeps
    rw [hlists, h.session_eq] at hkeeps
    exact hkeeps _ List.mem_cons_self

/-- Where the structure is kept, the rewriting does not stop for changed widths. -/
theorem Represents.keepsWidths_eq_true (h : t.Represents r) (hkeeps : t.KeepsSyntax) :
    r.keepsWidths = true := by
  have hchars := h.structuring_eq hkeeps
  unfold Rewriter.recognising at hchars
  unfold Rewriter.keepsWidths
  cases hcalls : r.calls with
  | nil => rfl
  | cons call outer =>
    rw [hcalls] at hchars
    exact MetaChars.sameWidths_of_structuring hchars

/-- Outside calls, a sharp or an escape that is all that is left is copied. -/
theorem Represents.copiesLast (h : t.Represents r) (hlone : r.Lone) (hcalls : r.calls = [])
    (hhalt : ¬ r.session.halt.isSome) : t.CopiesLast := by
  obtain ⟨c, htext, hrole⟩ := hlone
  have hlists := h.lists_eq
  have hactive := Zones.Shows.active_eq h.zones
  rw [hcalls] at hlists
  unfold Rewriter.recognising at hrole
  rw [hcalls] at hrole
  rw [htext] at hactive
  refine ⟨hlists, ?_, ?_⟩
  · rw [h.session_eq]
    simpa using hhalt
  · rw [h.session_eq, hactive, ← String.toByteArray_ofList]
    rcases hrole with hrole | hrole
    · exact .inr (by rw [MetaChars.eq_of_role.1 hrole]; rfl)
    · exact .inl (by rw [MetaChars.eq_of_role.2.2 hrole]; rfl)

/-- In a program that comes to its end without copying one, none is all that is left. -/
theorem Represents.not_lone {fuel : Nat} {last : Rewriter} (h : t.Represents r)
    (hhalt : ¬ r.session.halt.isSome) (hlast : ¬ t.CopiesLast)
    (hrun : r.run fuel = .finished last) : ¬ r.Lone := by
  intro hlone
  by_cases hcalls : r.calls = []
  · exact hlast (h.copiesLast hlone hcalls hhalt)
  · exact hlone.run_ne_finished hhalt hcalls fuel last hrun

/-- A program that comes to its end without copying a lone sharp or escape comes to it also with
more text behind, and goes on with that text. -/
theorem Represents.run_extended {fuel : Nat} {last : Rewriter} (more : List Char)
    (h : t.Represents r) (hkeeps : t.KeepsSyntax) (hrebinds : t.RebindsOutside)
    (hlast : ∀ u, t.Reaches u → ¬ u.CopiesLast) (hrun : r.run fuel = .finished last) :
    ∃ steps, ∀ fuel, (r.beside [] more).run (steps + fuel) = (last.beside [] more).run fuel := by
  induction fuel generalizing t r with
  | zero => simp [Rewriter.run] at hrun
  | succ fuel ih =>
    have hmirrors := h.step_of_keepsWidths (h.keepsWidths_eq_true hkeeps)
    have hwhole := hrun
    unfold Rewriter.run at hrun
    cases hstep : r.step with
    | raised e r' => simp [hstep] at hrun
    | widthsChanged => simp [hstep] at hrun
    | finished r' =>
      obtain ⟨rfl, -, -⟩ := Rewriter.eq_of_finished hstep
      obtain rfl : r' = last := by simpa [hstep] using hrun
      exact ⟨0, fun fuel => by rw [Nat.zero_add]⟩
    | next r' =>
      rw [hstep] at hmirrors hrun
      obtain ⟨t', ht', h'⟩ := hmirrors
      have hreaches : t.Reaches t' := .next .refl ht'
      have hdecided : r.Decided := by
        refine Classical.not_not.mp fun hnot => ?_
        have hhalt : ¬ r.session.halt.isSome := fun hhalt => hnot (.inl hhalt)
        rcases Rewriter.lone_of_not_decided (h.structuring_eq hkeeps) hhalt hstep hnot with
          hlone | ⟨c, heq, hlone⟩
        · exact h.not_lone hhalt (hlast t .refl) hwhole hlone
        · have hsession : r'.session = r.session := heq ▸ r.session_emit [c]
          exact h'.not_lone (hsession ▸ hhalt) (hlast t' hreaches) hrun hlone
      obtain ⟨steps, hsteps⟩ := ih h' (hrebinds.keepsSyntax hkeeps hreaches)
        (hrebinds.of_step ht') (fun u hu => hlast u (hu.of_step ht')) hrun
      refine ⟨steps + 1, fun fuel => ?_⟩
      rw [Nat.add_right_comm, Rewriter.run, Rewriter.step_beside [] r (.inl hdecided), hstep]
      exact hsteps fuel

end Interpreter

/-- An outcome of a program that has more output in front of its own. -/
def Outcome.behind (output : String) (o : Outcome) : Outcome :=
  { o with output := output ++ o.output }

/-- A failure of a program that has more output in front of its own, which is shown as far as there
is room for it. -/
def Failure.behind (output : String) (f : Failure) : Failure :=
  let shown := output.toList ++ f.passive.toList
  { f with passive := String.ofList (shown.drop (shown.length - contextLength)) }

namespace Rewriter

/-- The last characters of a text are the last ones also of the text with only those of its end. -/
theorem drop_append_drop (xs ys : List Char) (n : Nat) :
    (xs ++ ys.drop (ys.length - n)).drop ((xs ++ ys.drop (ys.length - n)).length - n)
      = (xs ++ ys).drop ((xs ++ ys).length - n) := by
  rcases Nat.lt_or_ge ys.length n with hlt | hge
  · have hzero : ys.length - n = 0 := by omega
    rw [hzero, List.drop_zero]
  · have hlong : (xs ++ ys).length - n = xs.length + (ys.length - n) := by
      rw [List.length_append]
      omega
    have hshort : (xs ++ ys.drop (ys.length - n)).length - n = xs.length + 0 := by
      rw [List.length_append, List.length_drop]
      omega
    rw [hlong, hshort, List.drop_length_add_append, List.drop_length_add_append, List.drop_zero]

/-- Output in front is done with. -/
theorem done_beside (before behind : List Char) (r : Rewriter) :
    (r.beside before behind).done = before ++ r.done := by
  have hcollected : ∀ calls, collected (before ++ r.output) calls
      = before ++ collected r.output calls := by
    intro calls
    induction calls with
    | nil => rfl
    | cons call outer ih => simp [collected, ih]
  exact hcollected r.calls

/-- A failure behind other output shows the end of both. -/
theorem failure_beside (before : String) (r : Rewriter) (e : Error) :
    (r.beside before.toList []).failure e = (r.failure e).behind before := by
  unfold failure Failure.behind
  rw [done_beside]
  simp only [String.toList_ofList, drop_append_drop]
  simp [beside]

/-- A run comes to its end outside calls, and with nothing left unless the program has asked to
stop. -/
theorem of_run_finished {fuel : Nat} {r last : Rewriter} (h : r.run fuel = .finished last) :
    last.calls = [] ∧ (last.session.halt = none → last.text = []) := by
  induction fuel generalizing r with
  | zero => simp [run] at h
  | succ fuel ih =>
    unfold run at h
    cases hstep : r.step with
    | next r' =>
      rw [hstep] at h
      exact ih h
    | finished r' =>
      rw [hstep] at h
      obtain rfl : r' = last := by simpa using h
      obtain ⟨rfl, hend⟩ := eq_of_finished hstep
      exact hend
    | raised e r' => simp [hstep] at h
    | widthsChanged => simp [hstep] at h

/-- A program that succeeds without asking to stop has been scanned to its end. -/
theorem eq_of_result? {fuel : Nat} {r : Rewriter} {s : Session} {output : String}
    (h : (r.run fuel).result? = some (.ok ⟨output, none⟩, s)) :
    r.run fuel = .finished ⟨s, output.toList, [], []⟩ ∧ s.halt = none := by
  cases hrun : r.run fuel with
  | finished last =>
    obtain ⟨hcalls, htext⟩ := of_run_finished hrun
    simp only [hrun, Rest.result?, Option.some.injEq, Prod.mk.injEq, Ending.ok.injEq,
      Outcome.mk.injEq] at h
    obtain ⟨⟨rfl, hhalt⟩, rfl⟩ := h
    obtain ⟨session, output, text, calls⟩ := last
    obtain rfl : calls = [] := hcalls
    obtain rfl : text = [] := htext hhalt
    have hsession : { session with halt := none } = session := by
      rw [← hhalt]
    dsimp only
    rw [hsession, String.toList_ofList]
    exact ⟨rfl, rfl⟩
  | raised e r => simp [hrun, Rest.result?] at h
  | unfinished r => simp [hrun, Rest.result?] at h
  | widthsChanged => simp [hrun, Rest.result?] at h

/-- More output in front stands in front of the outcome or the failure. -/
theorem Rest.result?_beside (before : String) (rest : Rest) :
    (rest.map (beside before.toList [])).result? = rest.result?.map fun (ending, session) =>
      (ending.map (·.behind before) (·.behind before), session) := by
  cases rest with
  | finished r => simp [Rest.map, Rest.result?, Ending.map, Outcome.behind, beside]
  | raised e r =>
    dsimp only [Rest.map, Rest.result?]
    rw [failure_beside]
    rfl
  | unfinished r => rfl
  | widthsChanged => rfl

end Rewriter

namespace Interpreter

/-- Results of the rewriting that differ by output in front are those of programs that do. -/
theorem eq_behind_of_result? {before : String} {rest : Rewriter.Rest}
    {result result' : Ending Failure Outcome × Interpreter}
    (h' : rest.result?.map (Prod.map id ofSession) = some result')
    (h : (rest.map (Rewriter.beside before.toList [])).result?.map (Prod.map id ofSession)
      = some result) :
    result = (result'.1.map (·.behind before) (·.behind before), result'.2) := by
  rw [Rewriter.Rest.result?_beside] at h
  cases hrest : rest.result? with
  | none => simp [hrest] at h'
  | some found =>
    rw [hrest] at h h'
    rw [← Option.some.inj h, ← Option.some.inj h']
    rfl

/-- A program whose rewriting is that of another with more output in front is evaluated to what that
is, with this output in front. -/
theorem evaluate_of_beside {t t' : Interpreter} {fuel fuel' : Nat} {text text' before : String}
    (ht : t.calls = .empty) (ht' : t'.calls = .empty)
    (h : (Rewriter.start t.session text).run fuel
      = ((Rewriter.start t'.session text').run fuel').map (Rewriter.beside before.toList []))
    (hkeeps : ∀ u, (t'.load text').Reaches u → u.KeepsWidths) :
    t.evaluate fuel text = ((t'.evaluate fuel' text').1.map (·.behind before) (·.behind before),
      (t'.evaluate fuel' text').2) := by
  have hgoes' := run_ne_widthsChanged ht' fuel' hkeeps
  have hgoes : (Rewriter.start t.session text).run fuel ≠ .widthsChanged := by
    rw [h]
    cases hrun : (Rewriter.start t'.session text').run fuel' with
    | widthsChanged => exact absurd hrun hgoes'
    | finished r => simp [Rewriter.Rest.map]
    | raised e r => simp [Rewriter.Rest.map]
    | unfinished r => simp [Rewriter.Rest.map]
  have hresult := evaluate_of_mirrors ht (run_mirrors ht hgoes)
  rw [h] at hresult
  exact eq_behind_of_result? (evaluate_of_mirrors ht' (run_mirrors ht' hgoes')) hresult

/-- A program begins outside all lists. -/
theorem keepsSyntax_load (t : Interpreter) (text : String) : (t.load text).KeepsSyntax := by
  intro list hlist
  simp [load] at hlist

/-- Where the characters change outside all lists only, no list sees another width. -/
theorem keepsWidths_of_rebindsOutside {t u : Interpreter} {text : String}
    (h : (t.load text).RebindsOutside) (hu : (t.load text).Reaches u) : u.KeepsWidths :=
  (h.keepsSyntax (keepsSyntax_load t text) hu).keepsWidths

/-- Evaluating two texts as one program is evaluating them one after another. With no call in
progress, let the first be evaluated with success, without asking to stop, and without ending in a
sharp or an escape that is copied as an ordinary character, and let no call choose other characters
to give a program its structure while the arguments of another call are being collected. Then both
as one program end as the second does after the first, with the output of the first in front: with
the same exit, or with the same error and the same calls in progress. The interpreter that is left
is the same. -/
theorem evaluate_append {t t' : Interpreter} {fuel : Nat} {first output : String}
    (second : String) (ht : t.calls = .empty)
    (hfirst : t.evaluate fuel first = (.ok ⟨output, none⟩, t'))
    (hlast : ∀ u, (t.load first).Reaches u → ¬ u.CopiesLast)
    (hrebinds : (t.load first).RebindsOutside) (hrebinds' : (t'.load second).RebindsOutside) :
    ∃ steps, ∀ fuel, t.evaluate (steps + fuel) (first ++ second) =
      ((t'.evaluate fuel second).1.map (·.behind output) (·.behind output),
        (t'.evaluate fuel second).2) := by
  have hgoes := run_ne_widthsChanged ht fuel fun u => keepsWidths_of_rebindsOutside hrebinds
  have hevaluated := evaluate_of_mirrors ht (run_mirrors ht hgoes)
  rw [hfirst, Option.map_eq_some_iff] at hevaluated
  obtain ⟨⟨ending, session⟩, hresult, heq⟩ := hevaluated
  obtain ⟨rfl, rfl⟩ : ending = .ok ⟨output, none⟩ ∧ ofSession session = t' := by simpa using heq
  obtain ⟨hrun, hhalt⟩ := Rewriter.eq_of_result? hresult
  obtain ⟨steps, hsteps⟩ :=
    (represents_load ht first).run_extended second.toList (keepsSyntax_load t first) hrebinds
      hlast hrun
  refine ⟨steps, fun fuel => evaluate_of_beside ht rfl ?_ fun u =>
    keepsWidths_of_rebindsOutside hrebinds'⟩
  -- The second text begins where the first has ended, with the output of the first.
  have hjoined : Rewriter.start t.session (first ++ second)
      = (Rewriter.start t.session first).beside [] second.toList := by
    simp [Rewriter.start, Rewriter.beside]
  have hsecond : Rewriter.beside [] second.toList ⟨session, output.toList, [], []⟩
      = (Rewriter.start (ofSession session).session second).beside output.toList [] := by
    simp [Rewriter.start, Rewriter.beside, ofSession, ← hhalt]
  rw [hjoined, hsteps, hsecond, Rewriter.run_beside]

/-- Whether the next step is not one that chooses other characters while a call stays open. -/
def stepKeepsStructuring (t : Interpreter) : Bool :=
  match t.step with
  | .next u => u.lists.isEmpty || u.session.chars.structuring == t.session.chars.structuring
  | _ => true

/-- What is seen to hold along a run to its end holds of all its states. -/
theorem rebindsOutside_of_always {t : Interpreter} {fuel : Nat}
    (h : always stepKeepsStructuring fuel t = true) : t.RebindsOutside := by
  intro u v hu hstep hlists
  have hkeeps := hu.of_always h
  rw [stepKeepsStructuring, hstep] at hkeeps
  simpa [hlists] using hkeeps

/-- A program that chooses other characters. -/
def choosing : String := "#<ttm;meta;$[,]>a"

/-- A program that is written with them. -/
def chosen : String := "$[ds,x,b]$[x]$"

/-- The interpreter that reads programs with them. -/
def rebound : Interpreter := (fresh.evaluate 30 choosing).2

/-- A program that chooses other characters outside calls leaves its text. -/
theorem evaluate_choosing : fresh.evaluate 30 choosing = (.ok ⟨"a", none⟩, rebound) := by
  have hvalue : (fresh.evaluate 30 choosing).1.value? = some ⟨"a", none⟩ := by decide +kernel
  have hending := Ending.eq_ok_of_value? hvalue
  rw [rebound, ← hending]

/-- The second program is read with the characters that the first has chosen. -/
theorem evaluate_append_chosen : ∃ steps, ∀ fuel,
    fresh.evaluate (steps + fuel) (choosing ++ chosen) =
      ((rebound.evaluate fuel chosen).1.map (·.behind "a") (·.behind "a"),
        (rebound.evaluate fuel chosen).2) := by
  have halways : always (fun u => !decide u.CopiesLast) 30 (fresh.load choosing) = true ∧
      always stepKeepsStructuring 30 (fresh.load choosing) = true ∧
      always stepKeepsStructuring 30 (rebound.load chosen) = true := by
    decide +kernel
  obtain ⟨hlast, hrebinds, hrebinds'⟩ := halways
  exact evaluate_append chosen rfl evaluate_choosing (fun u hu => by simpa using hu.of_always hlast)
    (rebindsOutside_of_always hrebinds) (rebindsOutside_of_always hrebinds')

end Interpreter

end TextMacro
