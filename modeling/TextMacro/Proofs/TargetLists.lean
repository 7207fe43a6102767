import Mathlib.Algebra.GroupWithZero.Nat
import Mathlib.Order.Bounds.Defs
import TextMacro.Proofs.DictionaryEdits
import TextMacro.Proofs.StringTexts

/-!
# Builtins with several targets

Erasing, locking and tracing take any number of names, and segmenting takes any number of patterns
for one string. All of them work through their targets in order and stop at the first that fails,
with what they have done before left in place (`targets_in_turn`).

Which target that is can be told from the dictionary the call starts with (`Sweep.Offends`): what is
done to one name changes neither which names are locked nor which are bound
(`NameChange.one_of_not_refuses`), also if the name is given twice or is erased on the way, and
every pattern takes one mark whether it occurs or not (`Body.segmentFrom_of_fits`). So a list of
targets is either done with or splits at its first offender (`run_of_not_offends`,
`run_of_offends`).
-/

namespace TextMacro

/-- Two sessions are the same but for what they have logged. -/
def Session.SameButLog (s s' : Session) : Prop := { s with log := s'.log } = s'

/-- What is done to names. -/
inductive NameChange where
  | erase
  | lock (locked : Bool)
  | trace (traced : Bool)

namespace NameChange

/-- What is done to one name. -/
def one : NameChange → String → Action PUnit
  | erase => Builtins.eraseName
  | lock locked => Builtins.setLock locked
  | trace traced => fun name => do
    Action.require (·.bound name)
    Action.changeDict (·.modify name ({ · with traced }))

/-- The names that are refused: the locked ones are not erased, and only bound ones are locked and
traced. -/
def Refuses (d : Dictionary) (name : String) : NameChange → Prop
  | erase => d.isLocked name = true
  | lock _ | trace _ => d.function? name = none

/-- The error for a name that is refused. -/
def refusal (name : String) : NameChange → Error
  | erase => .locked name
  | lock _ | trace _ => .undefinedName name

end NameChange

/-- The builtins that work through a list of targets: names, or patterns in one string. -/
inductive Sweep where
  | names (change : NameChange)
  /-- Segments the string of a name; `counted` tells whether the replacements are told. -/
  | patterns (name : String) (counted : Bool)

namespace Sweep

/-- The builtin that works through the targets. -/
def code : Sweep → Builtin
  | names .erase => .eraseNames
  | names (.lock true) => .lockNames
  | names (.lock false) => .unlockNames
  | names (.trace true) => .traceOn
  | names (.trace false) => .traceOff
  | patterns _ false => .segment
  | patterns _ true => .segmentCount

/-- A call with targets; the string to be segmented comes before its patterns. -/
def call (called : String) (active : Bool) (targets : List String) : Sweep → Frame
  | names _ => ⟨called :: targets, active⟩
  | patterns name _ => ⟨called :: name :: targets, active⟩

/-- Works through targets. -/
def run (sweep : Sweep) (called : String) (active : Bool) (targets : List String) :
    Action String :=
  sweep.code.perform (sweep.call called active targets)

/-- A string is there to be segmented; names need not be bound. -/
def Applies (d : Dictionary) : Sweep → Prop
  | names _ => True
  | patterns name _ => ∃ body, d.body name = .ok body

/-- Whether the target at a place is the reason to fail, which can be told before the sweep begins.
A pattern is one if the marks up to it are more than there are. -/
def Offends (d : Dictionary) (place : Nat) (target : String) : Sweep → Prop
  | names change => change.Refuses d target
  | patterns name _ => ∃ body, d.body name = .ok body ∧ segmentLimit < body.segments + (place + 1)

/-- The places of the targets that are a reason to fail. -/
def offending (sweep : Sweep) (d : Dictionary) (targets : List String) : Set Nat :=
  {place | ∃ target, targets[place]? = some target ∧ sweep.Offends d place target}

/-- The error for a target: a name is told itself, a pattern by its string. -/
def refusal (target : String) : Sweep → Error
  | names change => change.refusal target
  | patterns name _ => .tooManySegments name

/-- What is told about a number of replacements. -/
def answer (count : Nat) : Sweep → String
  | patterns _ true => count.repr
  | _ => ""

end Sweep

/-! ## Names -/

namespace NameChange

open Builtins Edit

variable {s : Session} {change : NameChange} {name : String}

/-- What is done to bound names only. -/
theorem require_bound_bind (hs : s.dict.Indexed) (name : String) (next : PUnit → Action PUnit) :
    (Action.require (·.bound name) >>= next) s
      = if s.dict.function? name = none then .error (.undefinedName name) s else next () s := by
  show (Action.lift (s.dict.bound name) >>= next) s = _
  unfold Dictionary.bound
  rw [hs.contains_eq, bind_apply]
  cases s.dict.function? name with
  | none => rfl
  | some f => rfl

/-- A name that is refused leaves the session as it is. -/
theorem one_of_refuses (hs : s.dict.Indexed) (h : change.Refuses s.dict name) :
    change.one name s = .error (change.refusal name) s := by
  cases change with
  | erase =>
    have hlocked : s.dict.isLocked name = true := h
    show (Action.require (·.unlocked name) >>= _ : Action PUnit) s = _
    rw [bind_apply, Action.require_unlocked, hlocked]
    rfl
  | lock locked => exact (require_bound_bind hs name _).trans (if_pos h)
  | trace traced => exact (require_bound_bind hs name _).trans (if_pos h)

/-- Changing an entry leaves the same names bound. -/
theorem function?_modify_eq_none_iff {d : Dictionary} (hd : d.Indexed) (name other : String)
    (f : Function → Function) :
    (d.modify name f).function? other = none ↔ d.function? other = none := by
  rw [hd.function?_modify]
  split
  · rename_i hother
    rw [hother, Option.map_eq_none_iff]
  · rfl

/-- Removing a name that is not locked leaves the same names locked. -/
theorem isLocked_unbind {d : Dictionary} (hd : d.Indexed) (hname : d.isLocked name = false)
    (other : String) : (d.unbind name).isLocked other = d.isLocked other := by
  have hlookup := hd.function?_unbind name other
  unfold Dictionary.isLocked at hname ⊢
  rw [hlookup]
  split
  · rename_i hother
    rw [hother, hname]
    rfl
  · rfl

/-- A name that is not refused is dealt with, and then the same names are refused as before. -/
theorem one_of_not_refuses (hs : s.dict.Indexed) (h : ¬ change.Refuses s.dict name) :
    ∃ s', change.one name s = .ok () s' ∧ s'.dict.Indexed ∧
      ∀ other, change.Refuses s'.dict other ↔ change.Refuses s.dict other := by
  cases change with
  | erase =>
    have hlocked : s.dict.isLocked name = false := by simpa [Refuses] using h
    refine ⟨(if s.dict.contains name then s.report (.nameErased name) else s).onDict
      (·.unbind name), ?_, ?_⟩
    · show (Action.require (·.unlocked name) >>= _ : Action PUnit) s = _
      rw [bind_apply, Action.require_unlocked, hlocked]
      show (if s.dict.contains name = true then _ else _ : Action PUnit) s = _
      cases s.dict.contains name with
      | true => rfl
      | false => rfl
    · rw [dict_report_onDict]
      refine ⟨hs.unbind name, fun other => ?_⟩
      unfold Refuses
      rw [isLocked_unbind hs hlocked]
  | lock locked =>
    refine ⟨(s.onDict (·.modify name ({ · with locked }))).report (.lockChanged name locked), ?_,
      hs.modify name _, fun other => function?_modify_eq_none_iff hs name other _⟩
    exact (require_bound_bind hs name _).trans (if_neg h)
  | trace traced =>
    refine ⟨s.onDict (·.modify name ({ · with traced })), ?_,
      hs.modify name _, fun other => function?_modify_eq_none_iff hs name other _⟩
    exact (require_bound_bind hs name _).trans (if_neg h)

/-- Names of which none is refused are dealt with one after another. -/
theorem forM_of_not_refuses {names : List String} (hs : s.dict.Indexed)
    (h : ∀ name ∈ names, ¬ change.Refuses s.dict name) :
    ∃ s', names.forM change.one s = .ok () s' ∧ s'.dict.Indexed ∧
      ∀ other, change.Refuses s'.dict other ↔ change.Refuses s.dict other := by
  induction names generalizing s with
  | nil => exact ⟨s, rfl, hs, fun _ => Iff.rfl⟩
  | cons name names ih =>
    obtain ⟨s₁, hfirst, hs₁, hsame₁⟩ := one_of_not_refuses hs (h name List.mem_cons_self)
    -- What the first name has changed refuses none of the others.
    have hothers : ∀ other ∈ names, ¬ change.Refuses s₁.dict other := by
      intro other hother
      rw [hsame₁]
      exact h other (List.mem_cons_of_mem _ hother)
    obtain ⟨s₂, hrest, hs₂, hsame₂⟩ := ih hs₁ hothers
    refine ⟨s₂, ?_, hs₂, fun other => (hsame₂ other).trans (hsame₁ other)⟩
    show (change.one name >>= fun _ => names.forM change.one) s = _
    rw [bind_apply, hfirst]
    exact hrest

/-- The first name that is refused ends the work, and what was done before it stays done. -/
theorem forM_of_refuses {before : List String} (hs : s.dict.Indexed)
    (hbefore : ∀ name ∈ before, ¬ change.Refuses s.dict name) (hname : change.Refuses s.dict name)
    (after : List String) :
    ∃ s', before.forM change.one s = .ok () s' ∧
      (before ++ name :: after).forM change.one s = .error (change.refusal name) s' := by
  obtain ⟨s', hdone, hs', hsame⟩ := forM_of_not_refuses hs hbefore
  have hrefused := one_of_refuses hs' ((hsame name).mpr hname)
  have happend : (before ++ name :: after).forM change.one
      = (before.forM change.one >>= fun _ => (name :: after).forM change.one) :=
    List.forM_append
  refine ⟨s', hdone, ?_⟩
  rw [happend, bind_apply, hdone]
  show (change.one name >>= fun _ => after.forM change.one) s' = _
  rw [bind_apply, hrefused]

/-- Names that are dealt with in one call can be dealt with in one call each. -/
theorem mapM_forM {names : List String} {s' : Session}
    (h : names.forM change.one s = .ok () s') :
    names.mapM (fun name => do [name].forM change.one; return "" : String → Action String) s
      = .ok (names.map fun _ => "") s' := by
  induction names generalizing s with
  | nil =>
    cases h
    rfl
  | cons name names ih =>
    have hcons : (change.one name >>= fun _ => names.forM change.one) s = .ok () s' := h
    rw [bind_apply] at hcons
    cases hfirst : change.one name s with
    | error e s₁ =>
      rw [hfirst] at hcons
      cases hcons
    | ok u s₁ =>
      rw [hfirst] at hcons
      have hsingle : ([name].forM change.one >>= fun _ => pure "" : Action String) s
          = .ok "" s₁ := by
        show ((change.one name >>= fun _ => pure ()) >>= fun _ => pure "" : Action String) s = _
        rw [bind_apply, bind_apply, hfirst]
        rfl
      rw [List.mapM_cons, bind_apply, hsingle]
      dsimp only
      rw [bind_apply, ih hcons]
      rfl

end NameChange

/-! ## Patterns -/

namespace Body

variable {body : Body}

/-- Replacing a pattern gives out no mark. -/
theorem segments_replace (body : Body) (pattern : String) (mark : TextUnit) :
    (body.replace pattern mark).2.segments = body.segments := by
  unfold replace
  dsimp only
  split
  · rfl
  · rfl

/-- As long as there are marks, every pattern takes the next one. -/
theorem segmentFrom_of_fits (body : Body) (name : String) (patterns : List String)
    (h : body.segments + patterns.length ≤ segmentLimit) :
    ∃ replaced body', body'.segments = body.segments + patterns.length ∧
      ∀ count, body.segmentFrom name count patterns = (.ok (count + replaced), body') := by
  induction patterns generalizing body with
  | nil => exact ⟨0, body, rfl, fun _ => rfl⟩
  | cons pattern patterns ih =>
    rw [List.length_cons] at h
    obtain ⟨mark, hmark⟩ : ∃ mark, TextUnit.segment? (body.segments + 1) = some mark :=
      ⟨_, dif_pos (by omega)⟩
    cases hreplace : { body with segments := body.segments + 1 }.replace pattern mark with
    | mk first next =>
      have hnext : next.segments = body.segments + 1 := by
        have hkept := segments_replace { body with segments := body.segments + 1 } pattern mark
        rwa [hreplace] at hkept
      obtain ⟨replaced, body', hsegments, hrest⟩ := ih next (by omega)
      refine ⟨first + replaced, body', by rw [List.length_cons]; omega, fun count => ?_⟩
      unfold segmentFrom
      rw [hmark]
      dsimp only
      rw [hreplace]
      dsimp only
      rw [hrest, Nat.add_assoc]

/-- The patterns behind others start from what those have made of the body. -/
theorem segmentFrom_append {name : String} {count replaced : Nat} {before : List String}
    {body' : Body} (h : body.segmentFrom name count before = (.ok replaced, body'))
    (after : List String) :
    body.segmentFrom name count (before ++ after) = body'.segmentFrom name replaced after := by
  induction before generalizing body count with
  | nil =>
    cases h
    rfl
  | cons pattern before ih =>
    unfold segmentFrom at h
    rw [List.cons_append]
    conv => lhs; unfold segmentFrom
    split at h
    · cases h
    · exact ih h

/-- Without a mark left, a pattern changes nothing. -/
theorem segmentFrom_of_full (name : String) (count : Nat) (pattern : String)
    (after : List String) (h : segmentLimit ≤ body.segments) :
    body.segmentFrom name count (pattern :: after) = (.error (.tooManySegments name), body) := by
  have hmark : TextUnit.segment? (body.segments + 1) = none := dif_neg (by omega)
  unfold segmentFrom
  rw [hmark]

end Body

namespace Dictionary

variable {d : Dictionary} {name : String} {body : Body}

/-- A string that is given the body it has. -/
theorem Indexed.setBody_self (h : d.Indexed) (hbody : d.body name = .ok body) :
    d.setBody name body = d := by
  obtain ⟨f, hf, hmeaning⟩ := function?_of_body hbody
  have hsame : { f with meaning := .defined body } = f := by
    rw [← hmeaning]
  have hfunctions : d.functions.modify name ({ · with meaning := .defined body }) = d.functions :=
    SymbolTable.Indexed.modify_of_eq h hf hsame
  exact congrArg (Dictionary.mk · d.classes) hfunctions

/-- The last body that a string is given counts. -/
theorem setBody_setBody (d : Dictionary) (name : String) (first last : Body) :
    (d.setBody name first).setBody name last = d.setBody name last :=
  congrArg (Dictionary.mk · d.classes) (d.functions.modify_modify name _ _)

end Dictionary

namespace Sweep

open Builtins Edit

variable {s : Session} {name : String} {body : Body} {counted : Bool} {called : String}
  {active : Bool} {targets : List String}

/-- Work on the body of a string. -/
theorem onBody_of_body {α : Type} {work : Body → Except Error α × Body}
    {result : Except Error α} {body' : Body} (hbody : s.dict.body name = .ok body)
    (hwork : work body = (result, body')) :
    Action.onBody name work s = match result with
      | .ok a => .ok a { s with dict := s.dict.setBody name body' }
      | .error e => .error e { s with dict := s.dict.setBody name body' } := by
  unfold Action.onBody
  simp only [hbody, hwork]
  cases result with
  | ok a => rfl
  | error e => rfl

/-- Segmenting works on the body of the string, and then logs and tells the replacements. -/
theorem run_patterns (name : String) (counted : Bool) (targets : List String) (s : Session) :
    (patterns name counted).run called active targets s
      = match Action.onBody name (·.segment name targets) s with
        | .ok replaced s' => .ok (answer replaced (patterns name counted))
          (s'.report (.stringSegmented name replaced))
        | .error e s' => .error e s' := by
  have hsegment : segmentPatterns ⟨called :: name :: targets, active⟩ s
      = match Action.onBody name (·.segment name targets) s with
        | .ok replaced s' => .ok replaced (s'.report (.stringSegmented name replaced))
        | .error e s' => .error e s' := by
    show (Action.onBody name (·.segment name targets) >>= _ : Action Nat) s = _
    rw [bind_apply]
    cases Action.onBody name (·.segment name targets) s with
    | ok replaced s' => rfl
    | error e s' => rfl
  have hbind : (patterns name counted).run called active targets
      = (segmentPatterns ⟨called :: name :: targets, active⟩ >>= fun replaced =>
        pure (answer replaced (patterns name counted))) := by
    cases counted with
    | false => rfl
    | true => rfl
  rw [hbind, bind_apply, hsegment]
  cases Action.onBody name (·.segment name targets) s with
  | ok replaced s' => rfl
  | error e s' => rfl

/-- Segmenting where there are marks for all patterns. -/
theorem run_patterns_ok {replaced : Nat} {body' : Body}
    (hbody : s.dict.body name = .ok body)
    (h : body.segment name targets = (.ok replaced, body')) :
    (patterns name counted).run called active targets s
      = .ok (answer replaced (patterns name counted))
        ({ s with dict := s.dict.setBody name body' }.report (.stringSegmented name replaced)) := by
  rw [run_patterns, onBody_of_body hbody h]

/-- There are marks for patterns none of which offends. -/
theorem fits_of_not_offends (hbody : s.dict.body name = .ok body)
    (hne : targets ≠ [])
    (h : ∀ place target, targets[place]? = some target →
      ¬ Offends s.dict place target (patterns name counted)) :
    body.segments + targets.length ≤ segmentLimit := by
  have hpos : 0 < targets.length := List.length_pos_iff.mpr hne
  have hlast : targets[targets.length - 1]? = some (targets.getLast hne) := by
    rw [← List.getLast?_eq_getElem?, List.getLast?_eq_some_getLast hne]
  have hnot := h _ _ hlast
  unfold Offends at hnot
  refine Nat.le_of_not_lt fun hlt => hnot ⟨body, hbody, ?_⟩
  omega

/-- Patterns in one call can be looked for in one call each. -/
theorem mapM_patterns (hs : s.dict.Indexed)
    (hbody : s.dict.body name = .ok body)
    (h : body.segments + targets.length ≤ segmentLimit) :
    ∃ (counts : List Nat) (body' : Body) (t : Session),
      body.segment name targets = (.ok counts.sum, body') ∧
      targets.mapM (fun target => (patterns name counted).run called active [target]) s
        = .ok (counts.map (answer · (patterns name counted))) t ∧
      { s with dict := s.dict.setBody name body' }.SameButLog t := by
  induction targets generalizing s body with
  | nil =>
    refine ⟨[], body, s, rfl, rfl, ?_⟩
    rw [hs.setBody_self hbody]
    rfl
  | cons target targets ih =>
    rw [List.length_cons] at h
    obtain ⟨replaced, body₁, hsegments, hfirst⟩ :=
      body.segmentFrom_of_fits name [target] (by rw [List.length_singleton]; omega)
    rw [List.length_singleton] at hsegments
    have hone : body.segment name [target] = (.ok replaced, body₁) := by
      rw [← Nat.zero_add replaced]
      exact hfirst 0
    have hbound : (s.dict.function? name).isSome := by
      obtain ⟨f, hf, -⟩ := Dictionary.function?_of_body hbody
      rw [hf]
      rfl
    -- The call for the first pattern leaves the string with its mark to the calls for the others.
    obtain ⟨counts, body', t, hrest, hruns, hsame⟩ :=
      ih (s := { s with dict := s.dict.setBody name body₁ }.report (.stringSegmented name replaced))
        (hs.modify name _) (hs.body_setBody hbound body₁) (by omega)
    refine ⟨replaced :: counts, body', t, ?_, ?_, ?_⟩
    · obtain ⟨replaced', body₂, -, hothers⟩ :=
        body₁.segmentFrom_of_fits name targets (by omega)
      have hzero := hothers 0
      unfold Body.segment at hrest
      rw [hrest, Nat.zero_add] at hzero
      obtain ⟨rfl, rfl⟩ : counts.sum = replaced' ∧ body' = body₂ := by simpa using hzero
      unfold Body.segment at hone ⊢
      rw [← List.singleton_append, Body.segmentFrom_append hone, hothers, List.sum_cons]
    · rw [List.mapM_cons, bind_apply, run_patterns_ok hbody hone]
      dsimp only
      rw [bind_apply, hruns]
      rfl
    · have hlast : ({ s with dict := s.dict.setBody name body₁ }.report
          (.stringSegmented name replaced)).dict.setBody name body' = s.dict.setBody name body' :=
        s.dict.setBody_setBody name body₁ body'
      rw [hlast] at hsame
      exact hsame

/-! ## Targets -/

/-- Names are worked through one after another, if there are any. -/
theorem run_names (change : NameChange) (hne : targets ≠ []) :
    (names change).run called active targets = (do targets.forM change.one; return "") := by
  cases change with
  | erase => rfl
  | lock locked =>
    cases locked with
    | true => rfl
    | false => rfl
  | trace traced =>
    -- Without a name, tracing would be switched for all calls.
    obtain ⟨target, targets, rfl⟩ := List.exists_cons_of_ne_nil hne
    cases traced with
    | true => rfl
    | false => rfl

/-- Targets of which none offends are worked through, and in one call each as well. -/
theorem run_of_not_offends (sweep : Sweep) (called : String) (active : Bool)
    (hs : s.dict.Indexed) (happlies : sweep.Applies s.dict) (hne : targets ≠ [])
    (h : ∀ place target, targets[place]? = some target → ¬ sweep.Offends s.dict place target) :
    ∃ (counts : List Nat) (s' t : Session),
      sweep.run called active targets s = .ok (sweep.answer counts.sum) s' ∧
      targets.mapM (fun target => sweep.run called active [target]) s
        = .ok (counts.map sweep.answer) t ∧ s'.SameButLog t := by
  cases sweep with
  | names change =>
    have hclear : ∀ target ∈ targets, ¬ change.Refuses s.dict target := by
      intro target htarget
      obtain ⟨place, hplace⟩ := List.mem_iff_getElem?.mp htarget
      exact h place target hplace
    obtain ⟨s', hdone, -⟩ := NameChange.forM_of_not_refuses hs hclear
    have hsingle : (fun target => (names change).run called active [target])
        = fun target => (do [target].forM change.one; return "" : Action String) :=
      funext fun target => run_names change (List.cons_ne_nil target [])
    refine ⟨targets.map fun _ => 0, s', s', ?_, ?_, rfl⟩
    · rw [run_names change hne, bind_apply, hdone]
      rfl
    · rw [hsingle, NameChange.mapM_forM hdone, List.map_map]
      rfl
  | patterns name counted =>
    obtain ⟨body, hbody⟩ := happlies
    have hfits := fits_of_not_offends hbody hne h
    obtain ⟨counts, body', t, hsegment, hruns, hsame⟩ := mapM_patterns hs hbody hfits
    exact ⟨counts, _, t, run_patterns_ok hbody hsegment, hruns, hsame⟩

/-- The first target that offends ends the work, and what was done before it stays done. -/
theorem run_of_offends {before : List String} {target : String} (sweep : Sweep)
    (called : String) (active : Bool) (hs : s.dict.Indexed) (happlies : sweep.Applies s.dict)
    (hbefore : ∀ place other, before[place]? = some other → ¬ sweep.Offends s.dict place other)
    (htarget : sweep.Offends s.dict before.length target) (after : List String) :
    ∃ s', sweep.run called active (before ++ target :: after) s
        = .error (sweep.refusal target) s' ∧
      (before = [] → s' = s) ∧
      (before ≠ [] → ∃ out t, sweep.run called active before s = .ok out t ∧ s'.SameButLog t) := by
  cases sweep with
  | names change =>
    have hclear : ∀ other ∈ before, ¬ change.Refuses s.dict other := by
      intro other hother
      obtain ⟨place, hplace⟩ := List.mem_iff_getElem?.mp hother
      exact hbefore place other hplace
    obtain ⟨s', hdone, hstopped⟩ := NameChange.forM_of_refuses hs hclear htarget after
    refine ⟨s', ?_, ?_, fun hne => ⟨"", s', ?_, rfl⟩⟩
    · rw [run_names change (by simp), bind_apply, hstopped]
      rfl
    · rintro rfl
      cases hdone
      rfl
    · rw [run_names change hne, bind_apply, hdone]
      rfl
  | patterns name counted =>
    obtain ⟨body, hbody, hfull⟩ := htarget
    by_cases hne : before = []
    · -- There is no mark for the first pattern, and the string is given the body that it has.
      subst hne
      have hsegment : body.segment name (target :: after)
          = (.error (.tooManySegments name), body) :=
        body.segmentFrom_of_full name 0 target after (by rw [List.length_nil] at hfull; omega)
      refine ⟨s, ?_, fun _ => rfl, fun hne => absurd rfl hne⟩
      rw [List.nil_append, run_patterns, onBody_of_body hbody hsegment]
      dsimp only
      rw [hs.setBody_self hbody]
      rfl
    · have hfits := fits_of_not_offends hbody hne hbefore
      obtain ⟨replaced, body', hsegments, hdone⟩ := body.segmentFrom_of_fits name before hfits
      have hbeforeDone : body.segment name before = (.ok (0 + replaced), body') := hdone 0
      have hstopped : body.segment name (before ++ target :: after)
          = (.error (.tooManySegments name), body') := by
        unfold Body.segment
        rw [Body.segmentFrom_append hbeforeDone]
        exact body'.segmentFrom_of_full name _ target after (by omega)
      refine ⟨{ s with dict := s.dict.setBody name body' }, ?_, fun heq => absurd heq hne,
        fun _ => ⟨_, _, run_patterns_ok hbody hbeforeDone, rfl⟩⟩
      rw [run_patterns, onBody_of_body hbody hstopped]
      rfl

/-- Either no item of a list satisfies a property that may depend on its place, or there is a first
that does. -/
theorem exists_first {α : Type} (p : Nat → α → Prop) (l : List α) :
    (∀ place x, l[place]? = some x → ¬ p place x) ∨
    ∃ before x after, l = before ++ x :: after ∧
      (∀ place y, before[place]? = some y → ¬ p place y) ∧ p before.length x := by
  induction l generalizing p with
  | nil => exact .inl (by simp)
  | cons first l ih =>
    by_cases hfirst : p 0 first
    · exact .inr ⟨[], first, l, rfl, by simp, hfirst⟩
    · -- The places behind the first count one less in the rest of the list.
      have hcons : ∀ items : List α,
          (∀ place x, items[place]? = some x → ¬ p (place + 1) x) →
          ∀ place x, (first :: items)[place]? = some x → ¬ p place x := by
        intro items hitems place x hx
        cases place with
        | zero =>
          obtain rfl : first = x := by simpa using hx
          exact hfirst
        | succ place => exact hitems place x (by simpa using hx)
      rcases ih fun place => p (place + 1) with hnone | ⟨before, x, after, rfl, hbefore, hx⟩
      · exact .inl (hcons l hnone)
      · exact .inr ⟨first :: before, x, after, rfl, hcons before hbefore, hx⟩

/-- The first place of a list where something holds is the least of such places. -/
theorem isLeast_offending {before : List String} {target : String} (sweep : Sweep)
    (d : Dictionary)
    (hbefore : ∀ place other, before[place]? = some other → ¬ sweep.Offends d place other)
    (htarget : sweep.Offends d before.length target) (after : List String) :
    IsLeast (sweep.offending d (before ++ target :: after)) before.length := by
  refine ⟨⟨target, by simp, htarget⟩, ?_⟩
  rintro place ⟨other, hother, hoffends⟩
  refine Nat.le_of_not_lt fun hlt => ?_
  rw [List.getElem?_append_left hlt] at hother
  exact hbefore place other hother hoffends

/-- A builtin that works through targets fails if one of them offends, and only then. It fails at
the first of these, with an error that names it, and leaves the session as it was if that is the
first target of all, and otherwise as a call with the targets before it alone does. If none offends,
the call does what calls with one target each do, and tells all their replacements together. What is
logged is left aside. That names can be looked up holds in every session that programs lead to
(`Session.invariant_indexed`). -/
theorem targets_in_turn (hs : s.dict.Indexed) (sweep : Sweep) (happlies : sweep.Applies s.dict)
    (called : String) (active : Bool) (targets : List String) (hne : targets ≠ []) :
    (∀ e s', sweep.run called active targets s = .error e s' →
      ∃ k target, IsLeast (sweep.offending s.dict targets) k ∧ targets[k]? = some target ∧
        e = sweep.refusal target ∧ (k = 0 → s' = s) ∧
        (k ≠ 0 → ∃ out t, sweep.run called active (targets.take k) s = .ok out t ∧
          s'.SameButLog t)) ∧
    ((sweep.offending s.dict targets).Nonempty →
      ∃ e s', sweep.run called active targets s = .error e s') ∧
    (sweep.offending s.dict targets = ∅ →
      ∃ (counts : List Nat) (s' t : Session),
        sweep.run called active targets s = .ok (sweep.answer counts.sum) s' ∧
        targets.mapM (fun target => sweep.run called active [target]) s
          = .ok (counts.map sweep.answer) t ∧ s'.SameButLog t) := by
  rcases exists_first (sweep.Offends s.dict) targets with
    hnone | ⟨before, target, after, rfl, hbefore, htarget⟩
  · obtain ⟨counts, s', t, hrun, hruns, hsame⟩ :=
      run_of_not_offends sweep called active hs happlies hne hnone
    refine ⟨fun e s'' hfailed => ?_, fun ⟨k, target, htarget, hoffends⟩ => ?_, fun _ => ?_⟩
    · rw [hrun] at hfailed
      cases hfailed
    · exact absurd hoffends (hnone k target htarget)
    · exact ⟨counts, s', t, hrun, hruns, hsame⟩
  · obtain ⟨s', hrun, hfirst, hlater⟩ :=
      run_of_offends sweep called active hs happlies hbefore htarget after
    have hleast := isLeast_offending sweep s.dict hbefore htarget after
    refine ⟨fun e s'' hfailed => ?_, fun _ => ⟨_, s', hrun⟩, fun hempty => ?_⟩
    · rw [hrun] at hfailed
      cases hfailed
      refine ⟨before.length, target, hleast, by simp, rfl, fun hzero => ?_, fun hpos => ?_⟩
      · exact hfirst (List.length_eq_zero_iff.mp hzero)
      · rw [List.take_left]
        exact hlater fun hnil => hpos (by rw [hnil]; rfl)
    · exact absurd hleast.1 (by rw [hempty]; exact id)

/-- A session in which `a` can be erased and `ds` is locked. -/
def erasableSession : Session := Interpreter.fresh.session.onDict (·.bind "a" "1")

/-- Of `a`, `é`, `a` again, `ds` and `a` once more, the fourth cannot be erased. The first three
can: the second is not bound, nor is the third by the time it is erased. -/
theorem targets_in_turn_repeated :
    ∃ s' t out, (names .erase).run "es" true ["a", "é", "a", "ds", "a"] erasableSession
        = .error (.locked "ds") s' ∧
      (names .erase).run "es" true ["a", "é", "a"] erasableSession = .ok out t ∧
      s'.SameButLog t := by
  have hindexed : erasableSession.dict.Indexed := Dictionary.indexed_initial.bind "a" "1"
  have hlocks : erasableSession.dict.isLocked "a" = false ∧
      erasableSession.dict.isLocked "é" = false ∧
      erasableSession.dict.isLocked "ds" = true := by
    decide +kernel
  obtain ⟨ha, hé, hds⟩ := hlocks
  obtain ⟨hfails, hoffends, -⟩ := targets_in_turn hindexed (names .erase) trivial "es" true
    ["a", "é", "a", "ds", "a"] (List.cons_ne_nil _ _)
  have hfourth : 3 ∈ (names .erase).offending erasableSession.dict ["a", "é", "a", "ds", "a"] :=
    ⟨"ds", rfl, hds⟩
  obtain ⟨e, s', hrun⟩ := hoffends ⟨3, hfourth⟩
  obtain ⟨k, target, hleast, htarget, rfl, -, hlater⟩ := hfails e s' hrun
  have hle : k ≤ 3 := hleast.2 hfourth
  obtain ⟨other, hother, hrefused⟩ := hleast.1
  have hlocked : erasableSession.dict.isLocked other = true := hrefused
  match k, hle with
  | 0, _ | 2, _ =>
    obtain rfl : "a" = other := by simpa using hother
    rw [ha] at hlocked
    cases hlocked
  | 1, _ =>
    obtain rfl : "é" = other := by simpa using hother
    rw [hé] at hlocked
    cases hlocked
  | 3, _ =>
    obtain rfl : "ds" = target := by simpa using htarget
    obtain ⟨out, t, hdone, hsame⟩ := hlater (by decide)
    exact ⟨s', t, out, hrun, hdone, hsame⟩

end Sweep

end TextMacro
