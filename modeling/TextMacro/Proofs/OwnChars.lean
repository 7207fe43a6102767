import TextMacro.Proofs.Invariant
import TextMacro.Proofs.Layout

/-!
# Argument lists and the meta characters they began with

An argument list is recognised by the meta characters that it began with, but how an escape, a
bracketed text or the start of a call goes on is read by those in force now. `ownStep` is a step in
which a list is read by its own meta characters only. A program runs as if all its steps were such
exactly if each of them is (`run_eq_ownRun`), and for all texts the two steps are the same exactly
if the sharp, the opening and the closing bracket and the escape of now are those of the list
(`steps_eq_ownStep_iff`).
-/

namespace TextMacro

namespace MetaChars

/-- The characters by which escapes, bracketed texts and the start of calls are read are the same.
-/
def SameSyntax (m n : MetaChars) : Prop :=
  m.sharp = n.sharp ∧ m.opening = n.opening ∧ m.closing = n.closing ∧ m.escape = n.escape

/-- The character that starts calls has that role alone. -/
theorem Distinct.role_sharp {m : MetaChars} (h : m.Distinct) : m.role m.sharp = .sharp := by
  simp [Distinct] at h
  simp [role, h]

/-- The opening bracket has that role alone. -/
theorem Distinct.role_opening {m : MetaChars} (h : m.Distinct) : m.role m.opening = .opening := by
  simp [Distinct] at h
  simp [role, h]

end MetaChars

/-! ## The same characters -/

namespace Zones

variable {m n : MetaChars}

/-- An escaped character is copied alike. -/
theorem copyEscaped_congr (h : m.SameSyntax n) (z : Zones) : z.copyEscaped m = z.copyEscaped n := by
  unfold copyEscaped
  rw [h.2.2.2]

/-- The start of a call is found alike. -/
theorem callStart_congr (h : m.SameSyntax n) (z : Zones) : z.callStart m = z.callStart n := by
  unfold callStart
  rw [h.1, h.2.1]

/-- The start of a call is equally wide. -/
theorem callStartWidth_congr (h : m.SameSyntax n) : callStartWidth m = callStartWidth n := by
  unfold callStartWidth
  rw [h.1, h.2.1]

/-- A character changes the depth of brackets alike. -/
theorem depthAfter_congr (h : m.SameSyntax n) : depthAfter m = depthAfter n := by
  unfold depthAfter
  rw [h.2.1, h.2.2.1, h.2.2.2]

/-- An escape takes the same unit along. -/
theorem takenAlong_congr (h : m.SameSyntax n) (z : Zones) : z.takenAlong m = z.takenAlong n := by
  unfold takenAlong
  rw [h.2.2.2]

/-- The rest of a bracketed text is copied alike. -/
theorem copyBracketedFrom_congr (h : m.SameSyntax n) (z : Zones) (depth : Nat) :
    copyBracketedFrom m z depth = copyBracketedFrom n z depth := by
  fun_induction copyBracketedFrom m z depth with
  | case1 z depth e hpeek => rw [copyBracketedFrom_round, hpeek]
  | case2 z depth hpeek => rw [copyBracketedFrom_round, hpeek]
  | case3 z depth u hpeek after hafter =>
    rw [copyBracketedFrom_round, hpeek]
    dsimp only
    rw [← depthAfter_congr h, if_pos hafter]
  | case4 z depth u hpeek after hafter e halong =>
    rw [copyBracketedFrom_round, hpeek]
    dsimp only
    rw [← depthAfter_congr h, if_neg hafter, ← takenAlong_congr h, halong]
  | case5 z depth u hpeek after hafter along halong htransfer =>
    rw [copyBracketedFrom_round, hpeek]
    dsimp only
    rw [← depthAfter_congr h, if_neg hafter, ← takenAlong_congr h, halong]
    dsimp only
    rw [htransfer]
  | case6 z depth u hpeek after hafter along halong z' htransfer ih =>
    -- The first round is the same, and then all that follow.
    rw [ih]
    conv => rhs; rw [copyBracketedFrom_round, hpeek]
    dsimp only
    rw [← depthAfter_congr h, if_neg hafter, ← takenAlong_congr h, halong]
    dsimp only
    rw [htransfer]

/-- A bracketed text is copied alike. -/
theorem copyBracketed_congr (h : m.SameSyntax n) (z : Zones) :
    z.copyBracketed m = z.copyBracketed n := by
  unfold copyBracketed
  rw [h.2.1, copyBracketedFrom_congr h]

end Zones

namespace Interpreter

/-- One step in which what follows a character is read by the meta characters by which the character
is recognised: inside a call, by those that its argument list began with. -/
def ownStep (t : Interpreter) : Step :=
  match t.session.halt, t.zones.buffer.peek with
  | none, .ok (some u) => t.scanUnit t.recognising t.recognising u
  | _, _ => t.step

/-- Steps in which every list is read by its own meta characters, at most `fuel` of them. -/
def ownRun : (fuel : Nat) → Interpreter → Rest
  | 0, t => .unfinished t
  | fuel + 1, t =>
    match t.ownStep with
    | .next t => ownRun fuel t
    | .finished t => .finished t
    | .raised e t => .raised e t
    | .fault => .fault

/-- The meta characters of now are those by which the character under the cursor is recognised, as
far as escapes, bracketed texts and the start of calls are concerned. -/
def OwnSyntax (t : Interpreter) : Prop := t.recognising.SameSyntax t.session.chars

/-- What follows a character is read by the sharp, the brackets and the escape only. -/
theorem scanUnit_congr {m n : MetaChars} (h : m.SameSyntax n) (t : Interpreter) (by' : MetaChars)
    (u : TextUnit) : t.scanUnit by' m u = t.scanUnit by' n u := by
  have hescaped : (Zones.copyEscaped · m) = (Zones.copyEscaped · n) :=
    funext (Zones.copyEscaped_congr h)
  have hbracketed : (Zones.copyBracketed · m) = (Zones.copyBracketed · n) :=
    funext (Zones.copyBracketed_congr h)
  have hbegin : ∀ active, t.beginCall m active = t.beginCall n active := by
    intro active
    unfold beginCall
    rw [Zones.callStartWidth_congr h]
  unfold scanUnit
  rw [hescaped, hbracketed, Zones.callStart_congr h]
  simp only [hbegin]

/-- A step is the same by the meta characters of now and by those of the list, if these agree. -/
theorem OwnSyntax.step_eq {t : Interpreter} (h : t.OwnSyntax) : t.step = t.ownStep := by
  unfold ownStep
  split
  · rename_i u hhalt hpeek
    rw [step_eq_scanUnit hhalt hpeek]
    exact (scanUnit_congr h t t.recognising u).symm
  · rfl

/-- One step of each run shows the two steps. -/
theorem step_eq_of_run_one {t : Interpreter} (h : run 1 t = ownRun 1 t) : t.step = t.ownStep := by
  unfold run ownRun at h
  cases hstep : t.step with
  | next u => cases hown : t.ownStep <;> simp_all [run, ownRun]
  | finished u => cases hown : t.ownStep <;> simp_all [ownRun]
  | raised e u => cases hown : t.ownStep <;> simp_all [ownRun]
  | fault => cases hown : t.ownStep <;> simp_all [ownRun]

/-- Where the two runs are the same, a state that is reached after some steps is reached by both,
and both go on from there. -/
theorem Reaches.runs {t u : Interpreter} (h : ∀ fuel, run fuel t = ownRun fuel t)
    (hu : t.Reaches u) :
    ∃ taken, ∀ fuel,
      run (taken + fuel) t = run fuel u ∧ ownRun (taken + fuel) t = ownRun fuel u := by
  induction hu with
  | refl => exact ⟨0, fun fuel => by simp⟩
  | @next v w hv hstep ih =>
    obtain ⟨taken, hruns⟩ := ih
    -- The next step of both runs is the same, since they are after one step more.
    have hone : run 1 v = ownRun 1 v := by
      rw [← (hruns 1).1, ← (hruns 1).2]
      exact h _
    have hown : v.ownStep = .next w := by
      rw [← step_eq_of_run_one hone]
      exact hstep
    refine ⟨taken + 1, fun fuel => ?_⟩
    have hmore : taken + 1 + fuel = taken + (fuel + 1) := by omega
    rw [hmore, (hruns _).1, (hruns _).2]
    constructor
    · rw [run, hstep]
    · rw [ownRun, hown]

/-- A program runs as if every list were read by its own meta characters exactly if each of its
steps is as if they were. -/
theorem run_eq_ownRun {t : Interpreter} :
    (∀ fuel, run fuel t = ownRun fuel t) ↔ ∀ u, t.Reaches u → u.step = u.ownStep := by
  constructor
  · intro h u hu
    obtain ⟨taken, hruns⟩ := hu.runs h
    apply step_eq_of_run_one
    rw [← (hruns 1).1, ← (hruns 1).2]
    exact h _
  · intro h fuel
    induction fuel generalizing t with
    | zero => rfl
    | succ fuel ih =>
      unfold run ownRun
      rw [← h t .refl]
      cases hstep : t.step with
      | next u => exact ih fun v hv => h v (hv.of_step hstep)
      | finished u => rfl
      | raised e u => rfl
      | fault => rfl

/-! ## Different characters -/

/-- An interpreter that is reading a list which began with the meta characters `m`, with those of
`current` in force now and a text to be scanned. -/
def listing (m current : MetaChars) (text : List Char) : Interpreter :=
  ⟨{ fresh.session with chars := current }, .ofString (String.ofList text), ⟨[.start true]⟩,
    [⟨0, m, true⟩]⟩

variable {m current : MetaChars} {c : Char} {rest : List Char}

/-- The text behind the start of an argument list is still to be scanned. -/
theorem holds_listing (m current : MetaChars) (text : List Char) :
    (listing m current text).zones.Holds [] text := by
  have h := Zones.holds_ofString (String.ofList text)
  rwa [String.toList_ofList] at h

/-- The two steps for the first character of the text. -/
theorem listing_steps :
    (listing m current (c :: rest)).step
      = (listing m current (c :: rest)).scanUnit m current (.char c) ∧
    (listing m current (c :: rest)).ownStep
      = (listing m current (c :: rest)).scanUnit m m (.char c) := by
  have hpeek := (holds_listing m current (c :: rest)).peek
  have hhalt : (listing m current (c :: rest)).session.halt = none := rfl
  refine ⟨step_eq_scanUnit hhalt hpeek, ?_⟩
  unfold ownStep
  rw [hhalt, hpeek]
  rfl

/-- The number of argument lists after a step that goes on, and whether the innermost is that of an
active call. -/
def newest : Step → Option (Nat × Bool)
  | .next u => u.lists.head?.map fun list => (u.lists.length, list.active)
  | _ => none

/-- A sharp begins a call if one starts there. -/
theorem newest_of_callStart {x : MetaChars} {active : Bool} (hm : m.Distinct)
    (hstart : (listing m current (m.sharp :: rest)).zones.callStart x = .ok (some active)) :
    newest ((listing m current (m.sharp :: rest)).scanUnit m x (.char m.sharp))
      = some (2, active) := by
  unfold scanUnit
  dsimp only
  rw [hm.role_sharp]
  dsimp only
  rw [hstart]
  dsimp only
  have hbudget : ¬ (listing m current (m.sharp :: rest)).session.props.execCount
      ≤ (listing m current (m.sharp :: rest)).session.execs := by
    show ¬ (100000 : Nat) ≤ 0
    decide
  have hdepth : ¬ (listing m current (m.sharp :: rest)).session.props.stackSize
      ≤ (listing m current (m.sharp :: rest)).calls.items.length := by
    show ¬ (64 : Nat) ≤ 1
    decide
  rw [beginCall_eq, if_neg hbudget, if_neg hdepth]
  rfl

/-- A sharp begins no call if none starts there. -/
theorem newest_of_no_callStart {x : MetaChars} {active : Bool} (hm : m.Distinct)
    (hstart : (listing m current (m.sharp :: rest)).zones.callStart x ≠ .ok (some active)) :
    newest ((listing m current (m.sharp :: rest)).scanUnit m x (.char m.sharp))
      ≠ some (2, active) := by
  cases hfound : (listing m current (m.sharp :: rest)).zones.callStart x with
  | error e =>
    unfold scanUnit
    dsimp only
    rw [hm.role_sharp]
    dsimp only
    rw [hfound]
    simp [newest]
  | ok start =>
    cases start with
    | some other =>
      rw [newest_of_callStart hm hfound]
      rw [hfound] at hstart
      simpa using hstart
    | none =>
      unfold scanUnit
      dsimp only
      rw [hm.role_sharp]
      dsimp only
      rw [hfound]
      dsimp only
      rw [move_eq]
      split
      · simp [newest, listing]
      · simp [newest]
      · simp [newest]

/-- A call starts where its start stands behind some of the characters. -/
theorem exists_of_callStart {x : MetaChars} {active : Bool} {text : List Char}
    (hstart : (listing m current text).zones.callStart x = .ok (some active)) :
    ∃ cs behind after, text = cs ++ behind ∧ cs ≠ [] ∧
      x.callStart? behind = some (active, after) := by
  have hz := holds_listing m current text
  cases hunit : (listing m current text).zones.buffer.unitAt
      ((listing m current text).zones.buffer.index + x.sharp.utf8Size) with
  | error e =>
    unfold Zones.callStart at hstart
    simp only [bind, Except.bind, hunit] at hstart
    simp at hstart
  | ok next =>
    rcases hz.of_unitAt hunit with hle | ⟨cs, behind, rfl, hw⟩
    · unfold Zones.callStart at hstart
      simp only [bind, Except.bind, hz.unitAt_of_size_le hle] at hstart
      cases hstart
    · rw [hz.callStart_eq hw] at hstart
      have hpos := x.sharp.utf8Size_pos
      refine ⟨cs, behind, ?_⟩
      cases hfound : x.callStart? behind with
      | none =>
        rw [hfound] at hstart
        simp at hstart
      | some start =>
        obtain ⟨found, after⟩ := start
        rw [hfound] at hstart
        obtain rfl : found = active := by simpa using hstart
        refine ⟨after, rfl, ?_, rfl⟩
        rintro rfl
        simp at hw
        omega

/-- The opening bracket of a list decides whether a call starts with it. -/
theorem opening_eq (hm : m.Distinct)
    (hsteps : ∀ text, (listing m current text).step = (listing m current text).ownStep) :
    m.opening = current.opening := by
  -- In this text the list itself begins an active call.
  have heq := hsteps [m.sharp, m.opening]
  rw [listing_steps.1, listing_steps.2] at heq
  have hown : newest ((listing m current [m.sharp, m.opening]).scanUnit m m (.char m.sharp))
      = some (2, true) := by
    refine newest_of_callStart hm ?_
    have hz : (listing m current [m.sharp, m.opening]).zones.Holds [] ([m.sharp] ++ [m.opening]) :=
      holds_listing _ _ _
    rw [hz.callStart_eq (by simp)]
    simp [MetaChars.callStart?]
  rw [← heq] at hown
  refine Decidable.byContradiction fun hne => newest_of_no_callStart hm (fun hstart => ?_) hown
  obtain ⟨cs, behind, after, htext, hcs, hfound⟩ := exists_of_callStart hstart
  rcases cs with _ | ⟨c, _ | ⟨d, cs⟩⟩
  · exact hcs rfl
  · obtain ⟨-, rfl⟩ : _ ∧ [m.opening] = behind := by simpa using htext
    rw [MetaChars.callStart?, if_neg hne] at hfound
    split at hfound
    · simp at hfound
    · simp at hfound
  · obtain ⟨-, -, -, rfl⟩ : _ ∧ _ ∧ cs = [] ∧ behind = [] := by simpa using htext
    simp [MetaChars.callStart?] at hfound

/-- The sharp of a list decides whether a passive call starts with two of them. -/
theorem sharp_eq (hm : m.Distinct) (hopening : m.opening = current.opening)
    (hsteps : ∀ text, (listing m current text).step = (listing m current text).ownStep) :
    m.sharp = current.sharp := by
  have hne : m.sharp ≠ m.opening := by
    simp [MetaChars.Distinct] at hm
    exact hm.1.1
  -- In this text the list itself begins a passive call.
  have heq := hsteps [m.sharp, m.sharp, m.opening]
  rw [listing_steps.1, listing_steps.2] at heq
  have hown : newest ((listing m current [m.sharp, m.sharp, m.opening]).scanUnit m m
      (.char m.sharp)) = some (2, false) := by
    refine newest_of_callStart hm ?_
    have hz : (listing m current [m.sharp, m.sharp, m.opening]).zones.Holds []
        ([m.sharp] ++ [m.sharp, m.opening]) :=
      holds_listing _ _ _
    rw [hz.callStart_eq (by simp)]
    simp [MetaChars.callStart?, hne]
  rw [← heq] at hown
  refine Decidable.byContradiction fun hsharp => newest_of_no_callStart hm (fun hstart => ?_) hown
  obtain ⟨cs, behind, after, htext, hcs, hfound⟩ := exists_of_callStart hstart
  rcases cs with _ | ⟨c, _ | ⟨d, _ | ⟨e, cs⟩⟩⟩
  · exact hcs rfl
  · obtain ⟨-, rfl⟩ : _ ∧ [m.sharp, m.opening] = behind := by simpa using htext
    simp [MetaChars.callStart?, ← hopening, hne, hsharp] at hfound
  · -- Behind both sharps an active call would start.
    obtain ⟨-, -, rfl⟩ : _ ∧ _ ∧ [m.opening] = behind := by simpa using htext
    simp [MetaChars.callStart?, ← hopening] at hfound
  · obtain ⟨-, -, -, -, rfl⟩ : _ ∧ _ ∧ _ ∧ cs = [] ∧ behind = [] := by simpa using htext
    simp [MetaChars.callStart?] at hfound

/-- An opening bracket of the list's own width is followed by a bracketed text. -/
theorem listing_opening {x : MetaChars} (current : MetaChars) (rest : List Char) (hm : m.Distinct)
    (hx : x.opening = m.opening) :
    ∃ z', match x.bracketed? 1 rest with
      | some (inside, behind) =>
        (listing m current (m.opening :: rest)).scanUnit m x (.char m.opening)
          = .next { listing m current (m.opening :: rest) with zones := z' } ∧
        z'.Holds inside behind
      | none =>
        (listing m current (m.opening :: rest)).scanUnit m x (.char m.opening)
          = .raised .unbalancedBracket
            { listing m current (m.opening :: rest) with zones := z' } := by
  have hz : (listing m current (m.opening :: rest)).zones.Holds [] ([m.opening] ++ rest) :=
    holds_listing _ _ _
  obtain ⟨z', hz'⟩ := hz.copyBracketed_eq (m := x) (by simp [hx])
  refine ⟨z', ?_⟩
  have hscan : (listing m current (m.opening :: rest)).scanUnit m x (.char m.opening)
      = (listing m current (m.opening :: rest)).move (·.copyBracketed x) := by
    unfold scanUnit
    dsimp only
    rw [hm.role_opening]
  rw [hscan, move_eq]
  cases hfound : x.bracketed? 1 rest with
  | some found =>
    rw [hfound] at hz'
    obtain ⟨hmoved, hholds⟩ := hz'
    refine ⟨?_, hholds⟩
    rw [hmoved]
  | none =>
    rw [hfound] at hz'
    obtain ⟨hfailed, -⟩ := hz'
    dsimp only
    rw [hfailed]

/-- The closing bracket of a list decides where a bracketed text ends. -/
theorem closing_eq (hm : m.Distinct) (hopening : m.opening = current.opening)
    (hsteps : ∀ text, (listing m current text).step = (listing m current text).ownStep) :
    m.closing = current.closing := by
  have hdistinct : m.opening ≠ m.closing ∧ m.closing ≠ m.escape := by
    simp [MetaChars.Distinct] at hm
    exact ⟨hm.2.1.2.1, hm.2.2.2⟩
  -- By another closing bracket this bracketed text does not end.
  have heq := hsteps [m.opening, m.closing]
  rw [listing_steps.1, listing_steps.2] at heq
  obtain ⟨z, hz⟩ := listing_opening current [m.closing] hm rfl
  obtain ⟨z', hz'⟩ := listing_opening current [m.closing] hm hopening.symm
  have hown : m.bracketed? 1 [m.closing] = some ([], []) := by
    simp [MetaChars.bracketed?, hdistinct, hdistinct.1.symm]
  rw [hown] at hz
  refine Decidable.byContradiction fun hne => ?_
  have hnow : current.bracketed? 1 [m.closing] = none := by
    simp [MetaChars.bracketed?, ← hopening, hdistinct.1.symm, hne]
  rw [hnow] at hz'
  rw [hz.1, hz'] at heq
  simp at heq

/-- The escape of a list decides which brackets count inside a bracketed text. -/
theorem escape_eq (hm : m.Distinct) (hcurrent : current.Distinct)
    (hopening : m.opening = current.opening) (hclosing : m.closing = current.closing)
    (hsteps : ∀ text, (listing m current text).step = (listing m current text).ownStep) :
    m.escape = current.escape := by
  have hdistinct : m.opening ≠ m.closing ∧ m.opening ≠ m.escape ∧ m.closing ≠ m.escape := by
    simp [MetaChars.Distinct] at hm
    exact ⟨hm.2.1.2.1, hm.2.1.2.2, hm.2.2.2⟩
  have hcurrent : current.closing ≠ current.escape := by
    simp [MetaChars.Distinct] at hcurrent
    exact hcurrent.2.2.2
  -- By another escape the first of the two brackets closes this bracketed text.
  have heq := hsteps [m.opening, m.escape, m.closing, m.closing]
  rw [listing_steps.1, listing_steps.2] at heq
  obtain ⟨z, hz⟩ := listing_opening current [m.escape, m.closing, m.closing] hm rfl
  obtain ⟨z', hz'⟩ := listing_opening current [m.escape, m.closing, m.closing] hm hopening.symm
  have hown : m.bracketed? 1 [m.escape, m.closing, m.closing]
      = some ([m.escape, m.closing], []) := by
    simp [MetaChars.bracketed?, hdistinct.1.symm, hdistinct.2.2]
  rw [hown] at hz
  refine Decidable.byContradiction fun hne => ?_
  have hnow : current.bracketed? 1 [m.escape, m.closing, m.closing]
      = some ([m.escape], [m.closing]) := by
    simp [MetaChars.bracketed?, ← hopening, ← hclosing, hne, hdistinct.1.symm, hdistinct.2.1.symm,
      hdistinct.2.2.symm, hclosing ▸ hcurrent]
  rw [hnow] at hz'
  rw [hz.1, hz'.1] at heq
  -- What is left to be scanned is different.
  have hzones : z' = z := by simpa using heq
  have hactive := Zones.Shows.active_eq hz.2
  rw [← hzones, Zones.Shows.active_eq hz'.2] at hactive
  have hsize := congrArg ByteArray.size hactive
  have hpos := m.closing.utf8Size_pos
  simp at hsize
  omega

/-! ## The characters of reached states -/

/-- After a step that goes on, every argument list is one that was there before, or has begun with
the meta characters that were in force. -/
theorem GoesOn.chars_of_mem {t u : Interpreter} {list : ArgumentList} (h : t.GoesOn u)
    (hlist : list ∈ u.lists) : list ∈ t.lists ∨ list.chars = t.session.chars := by
  cases h with
  | passed _ _ _ hlists => exact .inl (hlists ▸ hlist)
  | collected _ _ _ _ _ hlists => exact .inl (hlists ▸ hlist)
  | givenUp _ _ _ _ hlists => exact .inl (hlists ▸ List.mem_cons_of_mem _ hlist)
  | begun _ _ _ _ _ hlists hchars =>
    rw [hlists] at hlist
    rcases List.mem_cons.mp hlist with rfl | hold
    · exact .inr hchars
    · exact .inl hold
  | carriedOut _ _ _ _ hlists => exact .inl (hlists ▸ List.mem_cons_of_mem _ hlist)

/-- In every state of a program the meta characters in force and those that argument lists have begun
with are different ones each. -/
theorem Reaches.distinct {t u : Interpreter} {text : String} (h : t.Reachable)
    (hu : (t.load text).Reaches u) :
    u.session.chars.Distinct ∧ ∀ list ∈ u.lists, list.chars.Distinct := by
  have hload : (t.load text).session.WellFormed := h.wellFormed
  refine ⟨(hu.wellFormed hload).2, ?_⟩
  induction hu with
  | refl =>
    intro list hlist
    simp [load] at hlist
  | @next v w hv hstep ih =>
    intro list hlist
    rcases (goesOn_of_step hstep).chars_of_mem hlist with hold | hnow
    · exact ih list hold
    · rw [hnow]
      exact (hv.wellFormed hload).2

/-- A list is read as it would be by its own meta characters, whatever its text is, exactly if the
sharp, the brackets and the escape of now are those of the list. -/
theorem steps_eq_ownStep_iff {u : Interpreter} (hnow : u.session.chars.Distinct)
    (hlists : ∀ list ∈ u.lists, list.chars.Distinct) :
    (∀ v : Interpreter, v.recognising = u.recognising → v.session.chars = u.session.chars →
      v.step = v.ownStep) ↔ u.OwnSyntax := by
  constructor
  · intro hsame
    unfold OwnSyntax
    cases hitems : u.lists with
    | nil =>
      -- Outside of all lists only the meta characters of now are read.
      have hown : u.recognising = u.session.chars := by
        unfold recognising
        rw [hitems]
      rw [hown]
      exact ⟨rfl, rfl, rfl, rfl⟩
    | cons list outer =>
      have hown : u.recognising = list.chars := by
        unfold recognising
        rw [hitems]
      have hm : list.chars.Distinct := hlists list (hitems ▸ List.mem_cons_self)
      rw [hown] at hsame ⊢
      have hsteps : ∀ text, (listing list.chars u.session.chars text).step
          = (listing list.chars u.session.chars text).ownStep :=
        fun text => hsame _ rfl rfl
      have hopening := opening_eq hm hsteps
      have hclosing := closing_eq hm hopening hsteps
      exact ⟨sharp_eq hm hopening hsteps, hopening, hclosing,
        escape_eq hm hnow hopening hclosing hsteps⟩
  · intro hown v hrecognising hchars
    apply OwnSyntax.step_eq
    unfold OwnSyntax
    rw [hrecognising, hchars]
    exact hown

/-- A program runs as if every list were read by the meta characters that it began with exactly if
each of its steps is as if it were. In a state that the program reaches, that is so whatever the
text is exactly if the sharp, the brackets and the escape of now are those of the list that is read.
-/
theorem run_eq_ownRun_iff {t : Interpreter} (h : t.Reachable) (text : String) :
    ((∀ fuel, run fuel (t.load text) = ownRun fuel (t.load text)) ↔
      ∀ u, (t.load text).Reaches u → u.step = u.ownStep) ∧
    ∀ u, (t.load text).Reaches u →
      ((∀ v : Interpreter, v.recognising = u.recognising → v.session.chars = u.session.chars →
        v.step = v.ownStep) ↔ u.OwnSyntax) := by
  refine ⟨run_eq_ownRun, fun u hu => ?_⟩
  obtain ⟨hnow, hlists⟩ := hu.distinct h
  exact steps_eq_ownStep_iff hnow hlists

/-- A program that chooses other meta characters inside an argument list, and then has a bracketed
text in the brackets that the list began with. -/
def otherBrackets : String := "#<ds;x;#<ttm;meta;$[,]><a;b>>"

/-- How a run has ended: with an error, or without one. -/
def Rest.outcome? : Rest → Option (Option Error)
  | .finished _ => some none
  | .raised e _ => some (some e)
  | _ => none

/-- That program fails, and would not if its list were read by its own meta characters. -/
theorem outcome_otherBrackets :
    (run 40 (fresh.load otherBrackets)).outcome? = some (some .unbalancedBracket) ∧
      (ownRun 40 (fresh.load otherBrackets)).outcome? = some none := by
  decide +kernel

/-- So some list of that program is read with another sharp, escape or bracket than its own. -/
theorem not_ownSyntax_otherBrackets :
    ¬ ∀ u, (fresh.load otherBrackets).Reaches u → u.OwnSyntax := by
  obtain ⟨hruns, hsteps⟩ := run_eq_ownRun_iff reachable_fresh otherBrackets
  intro hlists
  have hsame : run 40 (fresh.load otherBrackets) = ownRun 40 (fresh.load otherBrackets) :=
    hruns.mpr (fun u hu => (hsteps u hu).mpr (hlists u hu) u rfl rfl) 40
  obtain ⟨hrun, hown⟩ := outcome_otherBrackets
  rw [hsame, hown] at hrun
  simp at hrun

end Interpreter

end TextMacro
