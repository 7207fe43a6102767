import TextMacro.Proofs.StringTexts

/-!
# What a lock keeps from a string

A builtin that is to change a locked string is refused if it asks for the lock: defining and erasing
do, and so does copying once its source is found (`Builtin.asksLock`). Adding text, marking and
segmenting do not ask. They change a locked string as they change any other (`Builtin.changed`). So
a locked string is as it was behind a builtin that asks, and every other builtin leaves its text as
it is, with the cursor moved only by those that read it (`locked_string_refused_iff`).
-/

namespace TextMacro

/-- Whether a builtin asks whether the entry that it is to change is locked. Copying finds its
source first. -/
def Builtin.asksLock (code : Builtin) (d : Dictionary) (f : Frame) : Bool :=
  match code with
  | .defineString | .eraseNames => true
  | .copyString => d.contains (f.arg 2)
  | _ => false

/-- What a builtin makes of the body of a string whose lock it does not ask for. -/
def Builtin.changed (code : Builtin) (f : Frame) (body : Body) : Body :=
  match code with
  | .appendString => body.append (f.arg 2)
  | .markCreation => (body.markCreation (f.arg 2)).2
  | .segment | .segmentCount => (body.segment (f.arg 1) f.rest.tail).2
  | _ => body

/-- A call fails because of what is permitted, and a name is still bound to the same entry. -/
def Action.Refused (name : String) (entry : Function) : EStateM.Result Error Session String → Prop
  | .ok _ _ => False
  | .error e s => e.kind = .policy ∧ s.dict.function? name = some entry

/-- Segmenting fails for no other reason than that no mark is left. -/
theorem Body.eq_of_segmentFrom {body : Body} {name : String} {count : Nat} {patterns : List String}
    {e : Error} (h : (body.segmentFrom name count patterns).1 = .error e) :
    e = .tooManySegments name := by
  induction patterns generalizing body count with
  | nil => simp [Body.segmentFrom] at h
  | cons pattern rest ih =>
    unfold Body.segmentFrom at h
    split at h
    · have heq : Error.tooManySegments name = e := by simpa using h
      exact heq.symm
    · exact ih h

namespace Dictionary

variable {d : Dictionary} {name : String} {entry : Function} {body : Body}

/-- A name is bound to a string that is locked. -/
structure HoldsLocked (d : Dictionary) (name : String) (entry : Function) (body : Body) : Prop where
  indexed : d.Indexed
  bound : d.function? name = some entry
  locked : entry.locked = true
  string : entry.meaning = .defined body

namespace HoldsLocked

/-- A locked string is refused where an unlocked name is asked for. -/
theorem unlocked (h : d.HoldsLocked name entry body) : d.unlocked name = .error (.locked name) := by
  unfold Dictionary.unlocked
  rw [h.bound]
  exact if_pos h.locked

/-- A locked string is not refused where only builtins are. -/
theorem extensible (h : d.HoldsLocked name entry body) : d.extensible name = .ok () := by
  unfold Dictionary.extensible Function.isBuiltin
  rw [h.bound]
  simp only [h.string]
  rfl

/-- The name of a locked string is bound. -/
theorem contains (h : d.HoldsLocked name entry body) : d.contains name = true := by
  rw [h.indexed.contains_eq, h.bound]
  rfl

/-- A locked string has its body. -/
theorem body_eq (h : d.HoldsLocked name entry body) : d.body name = .ok body :=
  body_of_meaning h.bound h.string

/-- The entry as it is with its own body. -/
theorem entry_eq (h : d.HoldsLocked name entry body) :
    { entry with meaning := .defined body } = entry := by
  have hstring := h.string
  obtain ⟨_, meaning, traced, locked, minArgs, maxArgs, disposition⟩ := entry
  obtain rfl : meaning = .defined body := hstring
  rfl

/-- The string is given another body. -/
theorem function?_setBody (h : d.HoldsLocked name entry body) (new : Body) :
    (d.setBody name new).function? name = some { entry with meaning := .defined new } := by
  unfold Dictionary.setBody
  rw [h.indexed.function?_modify, if_pos rfl, h.bound]
  rfl

/-- Text is added to the string. -/
theorem function?_extend (h : d.HoldsLocked name entry body) (text : String) :
    (d.extend name text).function? name
      = some { entry with meaning := .defined (body.append text) } := by
  have hstring := h.string
  rw [h.indexed.function?_extend, if_pos rfl, h.bound]
  obtain ⟨_, meaning, traced, locked, minArgs, maxArgs, disposition⟩ := entry
  obtain rfl : meaning = .defined body := hstring
  rfl

/-- Another name is removed. -/
theorem unbind (h : d.HoldsLocked name entry body) {other : String}
    (hother : d.unlocked other = .ok ()) : (d.unbind other).HoldsLocked name entry body := by
  refine ⟨h.indexed.unbind other, ?_, h.locked, h.string⟩
  have hne : name ≠ other := by
    rintro rfl
    rw [h.unlocked] at hother
    cases hother
  rw [h.indexed.function?_unbind, if_neg hne, h.bound]

end HoldsLocked

end Dictionary

/-! ## Builtins that are to change a locked string -/

namespace Builtins

open TextMacro.Action

variable {s : Session} {name : String} {entry : Function} {body : Body} {f : Frame}

/-- A locked string cannot be defined again. -/
theorem defineString_locked (h : s.dict.HoldsLocked (f.arg 1) entry body) :
    defineString f s = .error (.locked (f.arg 1)) s := by
  show (lift (s.dict.unlocked (f.arg 1)) >>= _ : Action String) s = _
  rw [h.unlocked]
  rfl

/-- A source that is not there is told of before the lock is. -/
theorem copyString_locked (h : s.dict.HoldsLocked (f.arg 1) entry body) :
    ∃ e, copyString f s = .error e s ∧
      (e.kind = .policy ↔ s.dict.contains (f.arg 2) = true) := by
  rw [h.indexed.contains_eq]
  show ∃ e, (lift (s.dict.body (f.arg 2)) >>= _ : Action String) s = .error e s ∧ _
  unfold Dictionary.body
  cases hsource : s.dict.function? (f.arg 2) with
  | none => exact ⟨.undefinedName (f.arg 2), rfl, by simp [Error.kind]⟩
  | some source =>
    obtain ⟨_, meaning, traced, locked, minArgs, maxArgs, disposition⟩ := source
    cases meaning with
    | builtin code => exact ⟨.primitive (f.arg 2), rfl, by simp [Error.kind]⟩
    | defined copied =>
      refine ⟨.locked (f.arg 1), ?_, by simp [Error.kind]⟩
      show (lift (s.dict.unlocked (f.arg 1)) >>= _ : Action String) s = _
      rw [h.unlocked]
      rfl

/-- Erasing a name that is not locked removes it, and a locked one is refused. -/
theorem eraseName_cases (other : String) (s : Session) :
    (∃ e, eraseName other s = .error e s ∧ e.kind = .policy) ∨
    ∃ s', eraseName other s = .ok () s' ∧ s.dict.unlocked other = .ok () ∧
      s'.dict = s.dict.unbind other := by
  show (∃ e, (lift (s.dict.unlocked other) >>= _ : Action PUnit) s = .error e s ∧ _) ∨
    ∃ s', (lift (s.dict.unlocked other) >>= _ : Action PUnit) s = .ok () s' ∧ _
  cases hunlocked : s.dict.unlocked other with
  | error e =>
    refine .inl ⟨e, rfl, ?_⟩
    unfold Dictionary.unlocked at hunlocked
    split at hunlocked
    · split at hunlocked
      · cases hunlocked
        rfl
      · cases hunlocked
    · cases hunlocked
  | ok _ =>
    right
    show ∃ s', (if s.dict.contains other = true then _ else _ : Action PUnit) s = .ok () s' ∧ _
    split
    · exact ⟨(s.report (.nameErased other)).onDict (·.unbind other), rfl, rfl, rfl⟩
    · exact ⟨s.onDict (·.unbind other), rfl, rfl, rfl⟩

/-- Erasing names of which one is locked fails, and leaves the locked one bound. -/
theorem refused_forM_eraseName {names : List String} (h : s.dict.HoldsLocked name entry body)
    (hname : name ∈ names) :
    ∃ e s', names.forM eraseName s = .error e s' ∧ e.kind = .policy ∧
      s'.dict.function? name = some entry := by
  induction names generalizing s with
  | nil => simp at hname
  | cons other names ih =>
    show ∃ e s', EStateM.bind (eraseName other) (fun _ => names.forM eraseName) s = .error e s' ∧ _
    unfold EStateM.bind
    rcases eraseName_cases other s with ⟨e, herased, hkind⟩ | ⟨s', herased, hunlocked, hdict⟩
    · rw [herased]
      exact ⟨e, s, rfl, hkind, h.bound⟩
    · -- The name that is removed is another, so the locked one is among the rest.
      have hkept : s'.dict.HoldsLocked name entry body := by
        rw [hdict]
        exact h.unbind hunlocked
      have hrest : name ∈ names := by
        refine List.mem_of_ne_of_mem ?_ hname
        rintro rfl
        rw [h.unlocked] at hunlocked
        cases hunlocked
      rw [herased]
      exact ih hkept hrest

/-- Text is added without a question about the lock. -/
theorem appendString_locked (h : s.dict.HoldsLocked (f.arg 1) entry body) :
    appendString f s = .ok "" (s.onDict (·.extend (f.arg 1) (f.arg 2))) := by
  show (lift (s.dict.extensible (f.arg 1)) >>= _ : Action String) s = _
  rw [h.extensible]
  show (if s.dict.contains (f.arg 1) = true then _ else _ : Action String) s = _
  rw [if_pos h.contains]
  rfl

/-- A string is worked on without a question about the lock. -/
theorem onBody_locked {α : Type} (h : s.dict.HoldsLocked name entry body)
    (work : Body → Except Error α × Body) :
    onBody name work s = match (work body).1 with
      | .ok a => .ok a { s with dict := s.dict.setBody name (work body).2 }
      | .error e => .error e { s with dict := s.dict.setBody name (work body).2 } := by
  unfold onBody
  rw [h.body_eq]
  dsimp only
  cases work body with
  | mk result new =>
    cases result with
    | ok a => rfl
    | error e => rfl

/-- Segmenting fails at most because no mark is left, and keeps what it has replaced before. -/
theorem segmentPatterns_locked (h : s.dict.HoldsLocked (f.arg 1) entry body) :
    (left (segmentPatterns f s)).dict.function? (f.arg 1)
        = some { entry with meaning := .defined (body.segment (f.arg 1) f.rest.tail).2 } ∧
      ∀ e s', segmentPatterns f s = .error e s' → e.kind ≠ .policy := by
  have hset := h.function?_setBody (body.segment (f.arg 1) f.rest.tail).2
  have hrun : segmentPatterns f s = EStateM.bind
      (onBody (f.arg 1) (·.segment (f.arg 1) f.rest.tail)) (fun replaced =>
        report (.stringSegmented (f.arg 1) replaced) >>= fun _ => pure replaced) s := rfl
  rw [hrun]
  unfold EStateM.bind
  rw [onBody_locked h]
  cases hresult : (body.segment (f.arg 1) f.rest.tail).1 with
  | ok replaced => exact ⟨hset, fun e s' hfailed => by cases hfailed⟩
  | error e =>
    refine ⟨hset, fun e' s' hfailed => ?_⟩
    cases hfailed
    rw [Body.eq_of_segmentFrom hresult]
    simp [Error.kind]

end Builtins

open Builtins in
/-- A builtin that is to change a locked string is refused exactly if it asks for the lock, and
makes of the string what it makes of any if it does not. -/
theorem Builtin.perform_locked {s : Session} {name : String} {entry : Function} {body : Body}
    {code : Builtin} {f : Frame} (h : s.dict.HoldsLocked name entry body)
    (htarget : name ∈ code.targets f) :
    (Action.Refused name entry (code.perform f s) ↔ code.asksLock s.dict f = true) ∧
      (Action.left (code.perform f s)).dict.function? name
        = some { entry with meaning := .defined (code.changed f body) } := by
  have hsame : some entry = some { entry with meaning := .defined body } := by rw [h.entry_eq]
  cases code with
  | defineString =>
    obtain rfl := List.mem_singleton.mp htarget
    have hrun : Builtin.defineString.perform f s = .error (.locked (f.arg 1)) s :=
      defineString_locked h
    rw [hrun]
    exact ⟨iff_of_true ⟨rfl, h.bound⟩ rfl, h.bound.trans hsame⟩
  | appendString =>
    obtain rfl := List.mem_singleton.mp htarget
    have hrun : Builtin.appendString.perform f s = _ := appendString_locked h
    rw [hrun]
    exact ⟨iff_of_false id Bool.false_ne_true, h.function?_extend (f.arg 2)⟩
  | copyString =>
    obtain rfl := List.mem_singleton.mp htarget
    obtain ⟨e, hcopy, hkind⟩ := copyString_locked h
    have hrun : Builtin.copyString.perform f s = .error e s := hcopy
    rw [hrun]
    exact ⟨⟨fun hrefused => hkind.mp hrefused.1, fun hfound => ⟨hkind.mpr hfound, h.bound⟩⟩,
      h.bound.trans hsame⟩
  | markCreation =>
    obtain rfl := List.mem_singleton.mp htarget
    have hrun : Builtin.markCreation.perform f s = .ok "" { s with
        dict := s.dict.setBody (f.arg 1) (body.markCreation (f.arg 2)).2 } := by
      show EStateM.bind (Action.onBody (f.arg 1) _) (fun _ => pure "") s = _
      unfold EStateM.bind
      rw [onBody_locked h]
      rfl
    rw [hrun]
    exact ⟨iff_of_false id Bool.false_ne_true, h.function?_setBody _⟩
  | eraseNames =>
    have hname : name ∈ f.rest := htarget
    obtain ⟨e, s', herase, hkind, hbound⟩ := refused_forM_eraseName h hname
    have hrun : Builtin.eraseNames.perform f s = .error e s' := by
      show EStateM.bind (f.rest.forM eraseName) (fun _ => pure "") s = _
      unfold EStateM.bind
      rw [herase]
    rw [hrun]
    exact ⟨iff_of_true ⟨hkind, hbound⟩ rfl, hbound.trans hsame⟩
  | segment | segmentCount =>
    obtain rfl := List.mem_singleton.mp htarget
    obtain ⟨hset, hfailed⟩ := segmentPatterns_locked h
    show (Action.Refused _ _ (EStateM.bind (segmentPatterns f) (fun _ => pure _) s) ↔ _) ∧
      (Action.left (EStateM.bind (segmentPatterns f) (fun _ => pure _) s)).dict.function? _ = _
    unfold EStateM.bind
    cases hrun : segmentPatterns f s with
    | ok replaced s' =>
      rw [hrun] at hset
      exact ⟨iff_of_false id Bool.false_ne_true, hset⟩
    | error e s' =>
      rw [hrun] at hset
      exact ⟨iff_of_false (fun hrefused => hfailed e s' hrun hrefused.1) Bool.false_ne_true, hset⟩
  | _ => exact absurd htarget List.not_mem_nil

/-- What a lock keeps from a string. A builtin that is to change a locked string fails because of
what is permitted, and leaves the entry exactly as it is, if and only if it defines or erases, or
copies a string that is there; the others make of the text, its marks and its cursor what they make
of any string, and copying what is not there leaves the entry alone. Every builtin that is not to
change the string keeps its text and its count of marks, and moves its cursor only if it reads the
string. -/
theorem locked_string_refused_iff {s : Session} {name : String} {entry : Function} {body : Body}
    (hindexed : s.dict.Indexed) (hbound : s.dict.function? name = some entry)
    (hlocked : entry.locked = true) (hstring : entry.meaning = .defined body)
    (code : Builtin) (f : Frame) :
    (name ∈ code.targets f →
      (Action.Refused name entry (code.perform f s) ↔ code.asksLock s.dict f = true) ∧
      (Action.left (code.perform f s)).dict.function? name
        = some { entry with meaning := .defined (code.changed f body) }) ∧
    (name ∉ code.targets f → ∃ body',
      (Action.left (code.perform f s)).dict.body name = .ok body' ∧
      body'.text.content = body.text.content ∧ body'.segments = body.segments ∧
      (code.reads? f ≠ some name → body'.text.index = body.text.index)) := by
  have h : s.dict.HoldsLocked name entry body := ⟨hindexed, hbound, hlocked, hstring⟩
  constructor
  · exact Builtin.perform_locked h
  · intro htarget
    obtain ⟨-, hkept⟩ := Builtin.keepsText_perform htarget s hindexed
    obtain ⟨body', hbody', hsame⟩ := hkept body h.body_eq
    exact ⟨body', hbody', hsame.content, hsame.segments, hsame.index⟩

/-- A session with a locked string. -/
def lockedSession : Session :=
  (Session.start (.ofInput ByteArray.empty) .empty ⟨0, 0⟩ default).onDict fun d =>
    (d.bind "x" "1").modify "x" ({ · with locked := true })

/-- The locked string of the session. -/
def lockedEntry : Function := { Function.ofString "x" "1" with locked := true }

/-- What is left when text is added to the locked string. -/
def lockedSessionAdded : EStateM.Result Error Session String :=
  Builtin.appendString.perform ⟨["ap", "x", "2"], true⟩ lockedSession

/-- Text is added to the locked string, which is not refused; the definition of the string is. -/
theorem locked_string_refused_iff_added :
    (¬ Action.Refused "x" lockedEntry lockedSessionAdded ∧
      (Action.left lockedSessionAdded).dict.function? "x"
        = some { lockedEntry with meaning := .defined ⟨⟨"12".toUTF8, 2⟩, 0⟩ }) ∧
    Action.Refused "x" lockedEntry
      (Builtin.defineString.perform ⟨["ds", "x", "2"], true⟩ lockedSession) := by
  have hbind : (Dictionary.initial.bind "x" "1").Indexed := Dictionary.indexed_initial.bind "x" "1"
  have hindexed : lockedSession.dict.Indexed := hbind.modify "x" _
  have hbound : lockedSession.dict.function? "x" = some lockedEntry := by
    show ((Dictionary.initial.bind "x" "1").modify "x" _).function? "x" = _
    rw [hbind.function?_modify, if_pos rfl, Dictionary.indexed_initial.function?_bind, if_pos rfl]
    rfl
  have hlocked := fun code f =>
    locked_string_refused_iff hindexed hbound rfl rfl code f
  obtain ⟨hadded, hchanged⟩ := (hlocked .appendString ⟨["ap", "x", "2"], true⟩).1 (by decide)
  obtain ⟨hdefined, -⟩ := (hlocked .defineString ⟨["ds", "x", "2"], true⟩).1 (by decide)
  have htext : Builtin.appendString.changed ⟨["ap", "x", "2"], true⟩ (Body.ofString "1")
      = ⟨⟨"12".toUTF8, 2⟩, 0⟩ := by
    decide
  rw [htext] at hchanged
  exact ⟨⟨fun hrefused => absurd (hadded.mp hrefused) Bool.false_ne_true, hchanged⟩,
    hdefined.mpr rfl⟩

end TextMacro
