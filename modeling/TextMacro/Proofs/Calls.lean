import TextMacro.Proofs.Builtins
import TextMacro.Scanner.Expansion

/-!
# What calls can do

A call is what its function means, between two reports if it is traced (`Action.invoke_eq`), unless
its name is not bound or it has too few arguments. What a function means is a builtin, which may do
what that builtin may do, or a defined string, whose expansion generates a token at most
(`Meaning.permits`). So a call makes elementary changes of the session only, within what its
function may do (`Action.leaves_invoke`).
-/

namespace TextMacro

/-! ## What is permitted -/

/-- What carrying out the meaning of a function may do: the expansion of a string may generate a
token. -/
def Meaning.permits (meaning : Meaning) (f : Frame) : Permits :=
  match meaning with
  | .builtin code => code.permits f
  | .defined _ => { creates := true }

namespace Dictionary

/-- What carrying out a call may do. -/
def permits (d : Dictionary) (f : Frame) : Permits :=
  match d.function? f.name with
  | some function => function.meaning.permits f
  | none => {}

/-- Whether a call is one of the control builtin that asks for a fresh budget. -/
def reloads (d : Dictionary) (f : Frame) : Bool :=
  match d.function? f.name with
  | some ⟨_, .builtin code, _, _, _, _, _⟩ => code.reloads f
  | _ => false

/-- Whether a name stands for a builtin that reads a stream or a file. -/
def reads (d : Dictionary) (name : String) : Bool :=
  match d.function? name with
  | some ⟨_, .builtin code, _, _, _, _, _⟩ => code.reads
  | _ => false

variable {d : Dictionary} {f : Frame}

/-- A call may do what its function may do. -/
theorem permits_eq {function : Function} (h : d.function? f.name = some function) :
    d.permits f = function.meaning.permits f := by
  unfold permits
  rw [h]

/-- A fresh budget may be loaded by a call that asks for it. -/
theorem reloads_permits (d : Dictionary) (f : Frame) : (d.permits f).reloads = d.reloads f := by
  unfold permits reloads
  cases d.function? f.name with
  | none => rfl
  | some function =>
    obtain ⟨name, meaning, traced, locked, minArgs, maxArgs, disposition⟩ := function
    cases meaning with
    | builtin code => rfl
    | defined body => rfl

/-- A stream or a file may be read by a call whose name stands for a builtin that does so. -/
theorem reads_permits (d : Dictionary) (f : Frame) : (d.permits f).reads = d.reads f.name := by
  unfold permits reads
  cases d.function? f.name with
  | none => rfl
  | some function =>
    obtain ⟨name, meaning, traced, locked, minArgs, maxArgs, disposition⟩ := function
    cases meaning with
    | builtin code => rfl
    | defined body => rfl

end Dictionary

namespace Action

variable {s s' : Session} {f : Frame}

/-! ## Meanings -/

/-- Counts a token that was used, and yields a text or fails. -/
def settle (outcome : Bool × Except Error String) : Action String := do
  if outcome.1 then
    modify fun s => { s with creations := s.creations + 1 }
  lift outcome.2

/-- A body is expanded with the next token, which is then counted if it was used. -/
theorem expand_eq_settle (body : Body) (f : Frame) :
    expand body f = get >>= fun s => settle (body.expand f (token (s.creations + 1))) := by
  funext s
  show expand body f s = settle (body.expand f (token (s.creations + 1))) s
  unfold expand
  cases body.expand f (token (s.creations + 1)) with
  | mk used result => cases used <;> cases result <;> rfl

/-- The expansion of a body generates a token at most, and does not fail if the body is well formed.
-/
theorem within_expand {body : Body} (h : s.WellFormed → body.WellFormed) (f : Frame) :
    Within { creates := true } (expand body f) s := by
  rw [expand_eq_settle]
  refine .get_bind (fun _ => rfl) ?_
  have hspared := Body.spared_expandFrom body.text.content f (token (s.creations + 1)) 0 false ""
  have hclean : s.WellFormed → Clean (body.expand f (token (s.creations + 1))).2 := by
    intro hs
    obtain ⟨used, text, hexpand⟩ := (h hs).expand f (token (s.creations + 1))
    rw [hexpand]
    exact .ok text
  unfold settle
  split
  · refine .bind (.modify (.created rfl) (fun s => ?_) rfl) fun _ s' hrun => ?_
    · exact congrArg (fun s' : Session => { s' with creations := s'.creations + 1 })
        s.silent_silent
    · cases hrun
      exact .lift_wellFormed hspared hclean
  · exact .lift_wellFormed hspared hclean

/-- What a function means stays within what it may do. -/
theorem within_perform {name : String} {function : Function}
    (h : s.dict.function? name = some function) (f : Frame) :
    Within (function.meaning.permits f) (perform function.meaning f) s := by
  cases hmeaning : function.meaning with
  | builtin code => exact code.within_perform f s
  | defined body => exact within_expand (fun hs => (hs.1.function? h).2 body hmeaning) f

/-! ## Calls -/

/-- A call with enough arguments is what its function means, between two reports if it is traced. -/
theorem invoke_eq {function : Function} (depth : Nat)
    (hfunction : s.dict.function? f.name = some function) (hmany : function.minArgs ≤ f.argc) :
    invoke depth f s =
      let traced := s.traceAll || function.traced
      let entered := if traced then s.report (.callEntered depth (f.render s.chars)) else s
      match perform function.meaning f entered with
      | .ok text s' => .ok (function.disposition, text)
        (if traced then s'.report (.callLeft depth f.name text) else s')
      | .error e s' => .error e s' := by
  have hfound : s.dict.function f.name = .ok function := by
    unfold Dictionary.function
    rw [hfunction]
  have hfew : ¬ f.argc < function.minArgs := Nat.not_lt.mpr hmany
  have hget : ∀ s', (get : Action Session) s' = .ok s' s' := fun _ => rfl
  have hreport : ∀ e s', report e s' = .ok () (s'.report e) := fun _ _ => rfl
  dsimp only
  cases htraced : s.traceAll || function.traced with
  | false =>
    simp only [invoke, lift, bind, EStateM.bind, hget, hfound, hfew, htraced, if_false, pure,
      EStateM.pure, Bool.false_eq_true]
    cases perform function.meaning f s <;> rfl
  | true =>
    simp only [invoke, lift, bind, EStateM.bind, hget, hfound, hfew, htraced, if_true, if_false,
      hreport, pure, EStateM.pure]
    cases perform function.meaning f (s.report _) <;> rfl

/-- A call of a name that is not bound fails and changes nothing. -/
theorem invoke_unbound (depth : Nat) (hfunction : s.dict.function? f.name = none) :
    invoke depth f s = .error (.undefinedName f.name) s := by
  have hfound : s.dict.function f.name = .error (.undefinedName f.name) := by
    unfold Dictionary.function
    rw [hfunction]
  have hget : ∀ s', (get : Action Session) s' = .ok s' s' := fun _ => rfl
  simp only [invoke, lift, bind, EStateM.bind, hget, hfound]

/-- A call with too few arguments fails and changes nothing. -/
theorem invoke_few {function : Function} (depth : Nat)
    (hfunction : s.dict.function? f.name = some function) (hfew : f.argc < function.minArgs) :
    invoke depth f s = .error (.tooFewArgs f.name function.minArgs f.argc) s := by
  have hfound : s.dict.function f.name = .ok function := by
    unfold Dictionary.function
    rw [hfunction]
  have hget : ∀ s', (get : Action Session) s' = .ok s' s' := fun _ => rfl
  simp only [invoke, lift, bind, EStateM.bind, hget, hfound, hfew, if_true]
  rfl

/-- A call that succeeds is one of a bound name that means something which succeeds. -/
theorem exists_of_invoke {depth : Nat} {result : Disposition × String}
    (h : invoke depth f s = .ok result s') :
    ∃ function text left, s.dict.function? f.name = some function ∧
      perform function.meaning f (if s.traceAll || function.traced
        then s.report (.callEntered depth (f.render s.chars)) else s) = .ok text left ∧
      result = (function.disposition, text) ∧
      s' = if s.traceAll || function.traced then left.report (.callLeft depth f.name text)
        else left := by
  cases hfunction : s.dict.function? f.name with
  | none =>
    rw [invoke_unbound depth hfunction] at h
    cases h
  | some function =>
    by_cases hfew : f.argc < function.minArgs
    · rw [invoke_few depth hfunction hfew] at h
      cases h
    · rw [invoke_eq depth hfunction (Nat.le_of_not_lt hfew)] at h
      dsimp only at h
      split at h
      · rename_i text left hperform
        cases h
        exact ⟨function, text, left, rfl, hperform, rfl, rfl⟩
      · cases h

/-- A report leaves the dictionary alone. -/
theorem dict_report_if (traced : Bool) (e : Event) (s : Session) :
    (if traced then s.report e else s).dict = s.dict := by
  cases traced with
  | false => rfl
  | true => rfl

/-- A session with a report or without it follows from the one before. -/
theorem changes_report_if {permits : Permits} (traced : Bool) (e : Event) (s : Session) :
    s.Changes permits (if traced then s.report e else s) := by
  cases traced with
  | false => exact .refl
  | true => exact .single (.report e)

/-- A call makes elementary changes only, within what it may do, and fails with no error but those
that it may fail with. -/
theorem leaves_invoke (depth : Nat) (f : Frame) (s : Session) :
    Leaves (s.dict.permits f) s (invoke depth f s) := by
  cases hfunction : s.dict.function? f.name with
  | none =>
    rw [invoke_unbound depth hfunction]
    exact ⟨.refl, .of_clean rfl⟩
  | some function =>
    by_cases hfew : f.argc < function.minArgs
    · rw [invoke_few depth hfunction hfew]
      exact ⟨.refl, .of_clean rfl⟩
    · rw [invoke_eq depth hfunction (Nat.le_of_not_lt hfew), Dictionary.permits_eq hfunction]
      dsimp only
      generalize (s.traceAll || function.traced) = traced
      generalize hentered : (if traced then s.report (.callEntered depth (f.render s.chars))
        else s) = entered
      have hchanges : s.Changes (function.meaning.permits f) entered :=
        hentered ▸ changes_report_if traced _ s
      have hdict : entered.dict.function? f.name = some function := by
        rw [← hentered, dict_report_if, hfunction]
      have hleaves := (within_perform hdict f).leaves
      split
      · rename_i text s' hperform
        rw [hperform] at hleaves
        exact (hchanges.trans hleaves).trans (changes_report_if traced _ s')
      · rename_i e s' hperform
        rw [hperform] at hleaves
        exact ⟨hchanges.trans hleaves.1, hleaves.2.of_changes hchanges⟩

/-- What a call that is carried out changes. -/
theorem changes_of_invoke {depth : Nat} {result : Disposition × String}
    (h : invoke depth f s = .ok result s') : s.Changes (s.dict.permits f) s' := by
  have hleaves := leaves_invoke depth f s
  rw [h] at hleaves
  exact hleaves

/-- What a call that fails changes, and what it may fail with. -/
theorem changes_of_invoke_error {depth : Nat} {e : Error} (h : invoke depth f s = .error e s') :
    s.Changes (s.dict.permits f) s' ∧ (s.dict.permits f).Allows s e := by
  have hleaves := leaves_invoke depth f s
  rw [h] at hleaves
  exact hleaves

end Action

end TextMacro
