import TextMacro.Proofs.DefinitionPrograms

/-!
# Edits of the dictionary

Defining, appending, copying and erasing are edits of one name, the target. Each is refused for one
reason (`Edit.refusal?`), and leaves the dictionary as it was then; otherwise it gives the target
the entry that is asked for (`Edit.entryAfter`) and leaves all other names alone (`edits_atomic`).

An edit has three forms. It takes a dictionary to another one (`Edit.apply`), is carried out on a
session by a builtin (`Edit.perform`), and is a number of steps on a dictionary in place
(`Edit.inPlace`). The last is where an edit could be left half made: appending and copying first
define the target and then give it its body, and each of these steps can be refused.
-/

namespace TextMacro

/-- The body of a function that is a defined string. -/
def Function.body? (f : Function) : Option Body :=
  match f.meaning with
  | .defined body => some body
  | .builtin _ => none

/-- An edit of the entry of one name. -/
inductive Edit where
  | define (name text : String)
  | append (name text : String)
  | copy (new old : String)
  | erase (name : String)

namespace Edit

/-- The name whose entry is edited. -/
def target : Edit → String
  | define name _ | append name _ | erase name => name
  | copy new _ => new

/-- The error with which an edit is refused. The source of a copy is looked for first. -/
def refusal? (d : Dictionary) : Edit → Option Error
  | define name _ | erase name => if d.isLocked name then some (.locked name) else none
  | append name _ =>
    if (d.function? name).any (·.isBuiltin) then some (.primitive name) else none
  | copy new old =>
    match d.function? old with
    | none => some (.undefinedName old)
    | some f =>
      if f.isBuiltin then some (.primitive old)
      else if d.isLocked new then some (.locked new)
      else none

/-- The entry of the target after an edit. Defining and copying make a new one. Appending keeps the
one that is there but for the text and the cursor, which comes to stand behind the text. -/
def entryAfter (d : Dictionary) : Edit → Option Function
  | define name text => some (.ofBody name ⟨⟨text.toUTF8, 0⟩, 0⟩)
  | append name text =>
    let f := (d.function? name).getD (.ofBody name ⟨⟨ByteArray.empty, 0⟩, 0⟩)
    f.body?.map fun ⟨⟨content, _⟩, segments⟩ =>
      { f with meaning :=
        .defined ⟨⟨content ++ text.toUTF8, (content ++ text.toUTF8).size⟩, segments⟩ }
  | copy new old => ((d.function? old).bind Function.body?).map (.ofBody new)
  | erase _ => none

/-- What an edit tells: erasing tells whether the name was bound. -/
def answer (d : Dictionary) : Edit → Option Bool
  | erase name => some (d.function? name).isSome
  | _ => none

/-- A dictionary is another one with an edit made: the target has its entry, and everything else is
as it was. -/
structure Made (edit : Edit) (d d' : Dictionary) : Prop where
  indexed : d'.Indexed
  target_eq : d'.function? edit.target = edit.entryAfter d
  others_eq : ∀ name, name ≠ edit.target → d'.function? name = d.function? name
  classes_eq : d'.classes = d.classes

/-! ## Three forms -/

/-- An edit as an operation that takes a dictionary to another one. -/
def apply (d : Dictionary) : Edit → Except Error (Option Bool × Dictionary)
  | define name text => (none, ·) <$> d.define name text
  | append name text => (none, ·) <$> d.append name text
  | copy new old => (none, ·) <$> d.copy new old
  | erase name => Prod.map some id <$> d.erase name

/-- An edit as the builtin that carries it out. -/
def perform : Edit → Action String
  | define name text => Builtins.defineString ⟨["ds", name, text], true⟩
  | append name text => Builtins.appendString ⟨["ap", name, text], true⟩
  | copy new old => Builtins.copyString ⟨["cf", new, old], true⟩
  | erase name => Builtins.eraseNames ⟨["es", name], true⟩

/-- Work on a dictionary in place. What has been changed when it fails stays changed. -/
abbrev Work := EStateM Error Dictionary

/-- Fails if a question about the dictionary does. -/
def ask {α : Type} (question : Dictionary → Except Error α) : Work α := fun d =>
  match question d with
  | .ok a => .ok a d
  | .error e => .error e d

/-- Binds a name to a string if its entry is not locked. -/
def bindName (name text : String) : Work PUnit := do
  ask (·.unlocked name)
  modify (·.bind name text)

/-- Changes the body of a name that has to be bound to a string. -/
def changeBody (name : String) (change : Body → Body) : Work PUnit := do
  let body ← ask (·.body name)
  modify (·.setBody name (change body))

/-- An edit as steps in place. -/
def inPlace : Edit → Work (Option Bool)
  | define name text => do
    bindName name text
    return none
  | append name text => do
    unless (← get).contains name do
      bindName name ""
    changeBody name (·.append text)
    return none
  | copy new old => do
    let body ← ask (·.body old)
    bindName new ""
    changeBody new fun _ => body
    return none
  | erase name => do
    ask (·.unlocked name)
    let present := (← get).contains name
    modify (·.unbind name)
    return some present

/-! ## What an edit makes of a dictionary -/

variable {d d' : Dictionary} {name text : String}

/-- An edit is made if all names have the functions that it gives them. -/
theorem made_of_function? {edit : Edit} (hindexed : d'.Indexed) (hclasses : d'.classes = d.classes)
    (h : ∀ name, d'.function? name
      = if name = edit.target then edit.entryAfter d else d.function? name) : edit.Made d d' where
  indexed := hindexed
  target_eq := by rw [h, if_pos rfl]
  others_eq name hname := by rw [h, if_neg hname]
  classes_eq := hclasses

/-- Binding a name makes the edit that defines it. -/
theorem made_bind (hd : d.Indexed) (name text : String) :
    (define name text).Made d (d.bind name text) :=
  made_of_function? (hd.bind name text) rfl fun other => hd.function?_bind name text other

/-- Removing a name makes the edit that erases it. -/
theorem made_unbind (hd : d.Indexed) (name : String) : (erase name).Made d (d.unbind name) :=
  made_of_function? (hd.unbind name) rfl fun other => hd.function?_unbind name other

/-- The entry that a copy has. -/
theorem entryAfter_copy {new old : String} {body : Body} (hbody : d.body old = .ok body) :
    (copy new old).entryAfter d = some (.ofBody new body) := by
  obtain ⟨f, hf, hmeaning⟩ := Dictionary.function?_of_body hbody
  simp [entryAfter, hf, Function.body?, hmeaning]

/-- Entering a copy of a body makes the edit that copies it. -/
theorem made_register {new old : String} {body : Body} (hd : d.Indexed)
    (hbody : d.body old = .ok body) : (copy new old).Made d (d.register (.ofBody new body)) := by
  refine made_of_function? (hd.register _) rfl fun other => ?_
  rw [entryAfter_copy hbody]
  exact hd.function?_register _ other

/-- A name that is bound to a string and then given another body. -/
theorem function?_bind_setBody (hd : d.Indexed) (name other : String) (body : Body) :
    ((d.bind name "").setBody name body).function? other
      = if other = name then some (.ofBody name body) else d.function? other := by
  unfold Dictionary.setBody
  rw [(hd.bind name "").function?_modify, hd.function?_bind, hd.function?_bind, if_pos rfl]
  split
  · rfl
  · rfl

/-- Binding a name and giving it a body afterwards makes the edit that leaves that body there. -/
theorem made_bind_setBody {edit : Edit} {body : Body} (hd : d.Indexed)
    (hentry : edit.entryAfter d = some (.ofBody edit.target body)) :
    edit.Made d ((d.bind edit.target "").setBody edit.target body) := by
  refine made_of_function? ((hd.bind _ "").modify _ _) rfl fun other => ?_
  rw [function?_bind_setBody hd, hentry]

/-- Text that is added to a string goes behind what is there, and the cursor behind the text. -/
theorem entryAfter_append {f : Function} {body : Body}
    (hf : (d.function? name).getD (.ofString name "") = f) (hmeaning : f.meaning = .defined body)
    (text : String) :
    (append name text).entryAfter d = some { f with meaning := .defined (body.append text) } := by
  have hempty : Function.ofBody name ⟨⟨ByteArray.empty, 0⟩, 0⟩ = .ofString name "" := rfl
  unfold entryAfter Function.body?
  dsimp only
  rw [hempty, hf, hmeaning, Option.map_some]
  simp [Body.append, Buffer.append, Buffer.setIndex, Buffer.size]

/-- Changing the body of a string in its place makes the edit that adds text to it. -/
theorem made_setBody {f : Function} {body : Body} (hd : d.Indexed)
    (hf : d.function? name = some f) (hmeaning : f.meaning = .defined body) (text : String) :
    (append name text).Made d (d.setBody name (body.append text)) := by
  refine made_of_function? (hd.modify name _) rfl fun other => ?_
  rw [entryAfter_append (by rw [hf, Option.getD_some]) hmeaning]
  unfold Dictionary.setBody
  rw [hd.function?_modify, hf]
  rfl

/-- Adding text to a string, bound before or not, makes the edit for it. -/
theorem made_extend {f : Function} {body : Body} (hd : d.Indexed)
    (hf : (d.function? name).getD (.ofString name "") = f) (hmeaning : f.meaning = .defined body)
    (text : String) : (append name text).Made d (d.extend name text) := by
  refine made_of_function? (hd.extend name text) ?_ fun other => ?_
  · unfold Dictionary.extend
    dsimp only
    split
    · rfl
    · rfl
  · rw [entryAfter_append hf hmeaning, hd.function?_extend, hf]
    obtain ⟨fname, meaning, traced, locked, minArgs, maxArgs, disposition⟩ := f
    obtain rfl : meaning = .defined body := hmeaning
    rfl

end Edit

/-! ## What is refused -/

namespace Dictionary

variable {d : Dictionary} {name : String}

/-- Exactly the builtins cannot be added to. -/
theorem extensible_eq (d : Dictionary) (name : String) : d.extensible name
    = if (d.function? name).any (·.isBuiltin) then .error (.primitive name) else .ok () := by
  unfold extensible
  cases d.function? name with
  | none => rfl
  | some f => rfl

/-- What can be added to is a string, or becomes one. -/
theorem exists_of_extensible (h : (d.function? name).any (·.isBuiltin) = false) :
    ∃ f body, (d.function? name).getD (.ofString name "") = f ∧ f.meaning = .defined body := by
  cases hf : d.function? name with
  | none => exact ⟨_, _, rfl, rfl⟩
  | some f =>
    rw [hf, Option.any_some] at h
    rcases f.isBuiltin_or_defined with hbuiltin | ⟨-, body, hmeaning⟩
    · rw [hbuiltin] at h
      cases h
    · exact ⟨f, body, rfl, hmeaning⟩

end Dictionary

namespace Edit

variable {d : Dictionary}

/-! ## The forms of an edit -/

/-- A copy is refused for the lack of a string to copy or for the lock of the target. -/
theorem copy_cases (d : Dictionary) (new old : String) :
    (∃ e, (copy new old).refusal? d = some e ∧ d.body old = .error e) ∨
    ∃ body, d.body old = .ok body ∧
      (copy new old).refusal? d = if d.isLocked new then some (.locked new) else none := by
  unfold refusal?
  dsimp only
  cases hf : d.function? old with
  | none => exact .inl ⟨_, rfl, Dictionary.body_of_unbound hf⟩
  | some f =>
    rcases f.isBuiltin_or_defined with hbuiltin | ⟨hstring, body, hmeaning⟩
    · exact .inl ⟨_, if_pos hbuiltin, Dictionary.body_of_builtin hf hbuiltin⟩
    · refine .inr ⟨body, Dictionary.body_of_meaning hf hmeaning, ?_⟩
      exact if_neg (by rw [hstring]; exact Bool.false_ne_true)

/-- An edit of a dictionary is refused or made. -/
theorem apply_spec (hd : d.Indexed) (edit : Edit) :
    match edit.refusal? d with
    | some e => edit.apply d = .error e
    | none => ∃ d', edit.apply d = .ok (edit.answer d, d') ∧ edit.Made d d' := by
  cases edit with
  | define name text =>
    unfold refusal? apply Dictionary.define
    dsimp only
    rw [Dictionary.unlocked_eq]
    cases d.isLocked name with
    | true => rfl
    | false => exact ⟨_, rfl, made_bind hd name text⟩
  | append name text =>
    unfold refusal? apply Dictionary.append
    dsimp only
    rw [Dictionary.extensible_eq]
    cases hbuiltin : (d.function? name).any (·.isBuiltin) with
    | true => rfl
    | false =>
      obtain ⟨f, body, hf, hmeaning⟩ := Dictionary.exists_of_extensible hbuiltin
      exact ⟨_, rfl, made_extend hd hf hmeaning text⟩
  | copy new old =>
    unfold apply Dictionary.copy
    dsimp only
    rcases copy_cases d new old with ⟨e, hrefusal, hbody⟩ | ⟨body, hbody, hrefusal⟩
    · rw [hrefusal, hbody]
      rfl
    · rw [hrefusal, hbody, Dictionary.unlocked_eq]
      cases d.isLocked new with
      | true => rfl
      | false => exact ⟨_, rfl, made_register hd hbody⟩
  | erase name =>
    unfold refusal? apply Dictionary.erase
    dsimp only
    rw [Dictionary.unlocked_eq, hd.contains_eq]
    cases d.isLocked name with
    | true => rfl
    | false => exact ⟨_, rfl, made_unbind hd name⟩

/-- One piece of work after another, on a dictionary or on a session. -/
theorem bind_apply {σ α β : Type} (work : EStateM Error σ α) (next : α → EStateM Error σ β)
    (s : σ) : (work >>= next) s = match work s with
      | .ok a s' => next a s'
      | .error e s' => .error e s' := by
  show EStateM.bind work next s = _
  unfold EStateM.bind
  cases work s with
  | ok a s' => rfl
  | error e s' => rfl

/-- Binding a name in place is refused if it is locked. -/
theorem bindName_eq (d : Dictionary) (name text : String) :
    bindName name text d = if d.isLocked name then .error (.locked name) d
      else .ok () (d.bind name text) := by
  unfold bindName
  rw [bind_apply, ask, Dictionary.unlocked_eq]
  cases d.isLocked name with
  | true => rfl
  | false => rfl

/-- Changing a body in place is refused if there is none. -/
theorem changeBody_eq (d : Dictionary) (name : String) (change : Body → Body) :
    changeBody name change d = match d.body name with
      | .ok body => .ok () (d.setBody name (change body))
      | .error e => .error e d := by
  unfold changeBody
  rw [bind_apply, ask]
  cases d.body name with
  | ok body => rfl
  | error e => rfl

/-- What a name has just been bound to is a string, so that its body can be changed. -/
theorem changeBody_bind (hd : d.Indexed) (name text : String) (change : Body → Body) :
    changeBody name change (d.bind name text)
      = .ok () ((d.bind name text).setBody name (change (.ofString text))) := by
  have hbound : (d.bind name text).body name = .ok (.ofString text) :=
    Dictionary.body_of_meaning (by rw [hd.function?_bind, if_pos rfl]) rfl
  rw [changeBody_eq, hbound]

/-- Appending in place binds the name first if it is not bound. -/
theorem inPlace_append (hd : d.Indexed) (name text : String) :
    (append name text).inPlace d
      = (changeBody name (·.append text) >>= fun _ => pure none : Work (Option Bool))
        (if d.contains name then d else d.bind name "") := by
  show (if d.contains name = true then _ else _ : Work (Option Bool)) d = _
  cases hcontains : d.contains name with
  | true => rfl
  | false =>
    -- What is not bound is not locked, so the binding is not refused.
    have hlocked : d.isLocked name = false := by
      have hunbound : d.function? name = none := by simpa [hd.contains_eq] using hcontains
      unfold Dictionary.isLocked
      rw [hunbound]
      rfl
    rw [if_neg Bool.false_ne_true, bind_apply, bindName_eq, hlocked]
    rfl

/-- In place, no step is refused once one has changed the dictionary. -/
theorem inPlace_spec (hd : d.Indexed) (edit : Edit) :
    match edit.refusal? d with
    | some e => edit.inPlace d = .error e d
    | none => ∃ d', edit.inPlace d = .ok (edit.answer d) d' ∧ edit.Made d d' := by
  cases edit with
  | define name text =>
    unfold refusal? inPlace
    dsimp only
    rw [bind_apply, bindName_eq]
    cases d.isLocked name with
    | true => rfl
    | false => exact ⟨_, rfl, made_bind hd name text⟩
  | append name text =>
    rw [inPlace_append hd, hd.contains_eq, bind_apply]
    unfold refusal?
    dsimp only
    cases hf : d.function? name with
    | none =>
      -- The name is bound first, and the text goes to the string that it then is.
      have hunbound : ¬ (none : Option Function).isSome = true := Bool.false_ne_true
      rw [if_neg hunbound, changeBody_bind hd]
      exact ⟨_, rfl, made_bind_setBody hd (entryAfter_append (by rw [hf]) rfl text)⟩
    | some f =>
      rw [if_pos Option.isSome_some, changeBody_eq]
      rcases f.isBuiltin_or_defined with hbuiltin | ⟨hstring, body, hmeaning⟩
      · rw [Dictionary.body_of_builtin hf hbuiltin, Option.any_some, hbuiltin]
        rfl
      · rw [Dictionary.body_of_meaning hf hmeaning, Option.any_some, hstring]
        exact ⟨_, rfl, made_setBody hd hf hmeaning text⟩
  | copy new old =>
    unfold inPlace
    dsimp only
    rw [bind_apply, ask]
    rcases copy_cases d new old with ⟨e, hrefusal, hbody⟩ | ⟨body, hbody, hrefusal⟩
    · rw [hrefusal, hbody]
    · rw [hrefusal, hbody]
      dsimp only
      rw [bind_apply, bindName_eq]
      cases d.isLocked new with
      | true => rfl
      | false =>
        -- The body was taken before the target was bound, so a name can be copied to itself.
        refine ⟨_, ?_, made_bind_setBody hd (entryAfter_copy hbody)⟩
        rw [if_neg Bool.false_ne_true]
        dsimp only
        rw [bind_apply, changeBody_bind hd]
        rfl
  | erase name =>
    unfold refusal? inPlace
    dsimp only
    rw [bind_apply, ask, Dictionary.unlocked_eq]
    cases d.isLocked name with
    | true => rfl
    | false =>
      refine ⟨_, ?_, made_unbind hd name⟩
      show EStateM.Result.ok (some (d.contains name)) _ = _
      rw [hd.contains_eq]
      rfl

variable {s : Session}

/-- A change of the dictionary is the same whether something is reported before it or not. -/
theorem dict_report_onDict (s : Session) (reports : Bool) (e : Event)
    (change : Dictionary → Dictionary) :
    ((if reports then s.report e else s).onDict change).dict = change s.dict := by
  cases reports with
  | true => rfl
  | false => rfl

/-- The builtin that adds text refuses the name of a builtin, and reports a name that is new. -/
theorem perform_append (s : Session) (name text : String) : (append name text).perform s
    = if (s.dict.function? name).any (·.isBuiltin) then .error (.primitive name) s
      else .ok "" ((if !s.dict.contains name then s.report (.nameDefined name 0) else s).onDict
        (·.extend name text)) := by
  have hrequire : Action.require (·.extensible name) s
      = if (s.dict.function? name).any (·.isBuiltin) then .error (.primitive name) s
        else .ok () s := by
    show Action.lift (s.dict.extensible name) s = _
    rw [Dictionary.extensible_eq]
    cases (s.dict.function? name).any (·.isBuiltin) with
    | true => rfl
    | false => rfl
  show (Action.require (·.extensible name) >>= _ : Action String) s = _
  rw [bind_apply, hrequire]
  cases (s.dict.function? name).any (·.isBuiltin) with
  | true => rfl
  | false =>
    show (if s.dict.contains name = true then _ else _ : Action String) s = _
    cases s.dict.contains name with
    | true => rfl
    | false => rfl

/-- The builtin that copies a string refuses a name without one first, and a locked name then. -/
theorem perform_copy (s : Session) (new old : String) : (copy new old).perform s
    = match s.dict.body old with
      | .error e => .error e s
      | .ok body =>
        if s.dict.isLocked new then .error (.locked new) s
        else .ok "" ((s.onDict (·.register (.ofBody new body))).report (.nameDefined new 0)) := by
  show (Action.lift (s.dict.body old) >>= _ : Action String) s = _
  rw [bind_apply]
  cases s.dict.body old with
  | error e => rfl
  | ok body =>
    show (Action.require (·.unlocked new) >>= _ : Action String) s = _
    rw [bind_apply, Action.require_unlocked]
    cases s.dict.isLocked new with
    | true => rfl
    | false => rfl

/-- The builtin that removes a name refuses a locked one, and reports a name that was bound. -/
theorem perform_erase (s : Session) (name : String) : (erase name).perform s
    = if s.dict.isLocked name then .error (.locked name) s
      else .ok "" ((if s.dict.contains name then s.report (.nameErased name) else s).onDict
        (·.unbind name)) := by
  have herase : Builtins.eraseName name s
      = if s.dict.isLocked name then .error (.locked name) s
        else .ok () ((if s.dict.contains name then s.report (.nameErased name) else s).onDict
          (·.unbind name)) := by
    show (Action.require (·.unlocked name) >>= _ : Action PUnit) s = _
    rw [bind_apply, Action.require_unlocked]
    cases s.dict.isLocked name with
    | true => rfl
    | false =>
      show (if s.dict.contains name = true then _ else _ : Action PUnit) s = _
      cases s.dict.contains name with
      | true => rfl
      | false => rfl
  show ((Builtins.eraseName name >>= fun _ => pure ()) >>= _ : Action String) s = _
  rw [bind_apply, bind_apply, herase]
  cases s.dict.isLocked name with
  | true => rfl
  | false => rfl

/-- The builtins ask before they change anything, and an error leaves the session as it was. -/
theorem perform_spec (hs : s.dict.Indexed) (edit : Edit) :
    match edit.refusal? s.dict with
    | some e => edit.perform s = .error e s
    | none => ∃ s', edit.perform s = .ok "" s' ∧ edit.Made s.dict s'.dict := by
  cases edit with
  | define name text =>
    unfold refusal? perform
    dsimp only
    rw [Action.defineString_eq]
    cases s.dict.isLocked name with
    | true => rfl
    | false => exact ⟨_, rfl, made_bind hs name text⟩
  | append name text =>
    rw [perform_append]
    unfold refusal?
    dsimp only
    cases hbuiltin : (s.dict.function? name).any (·.isBuiltin) with
    | true => rfl
    | false =>
      obtain ⟨f, body, hf, hmeaning⟩ := Dictionary.exists_of_extensible hbuiltin
      refine ⟨_, rfl, ?_⟩
      rw [dict_report_onDict]
      exact made_extend hs hf hmeaning text
  | copy new old =>
    rw [perform_copy]
    rcases copy_cases s.dict new old with ⟨e, hrefusal, hbody⟩ | ⟨body, hbody, hrefusal⟩
    · rw [hrefusal, hbody]
    · rw [hrefusal, hbody]
      cases s.dict.isLocked new with
      | true => rfl
      | false => exact ⟨_, rfl, made_register hs hbody⟩
  | erase name =>
    rw [perform_erase]
    unfold refusal?
    dsimp only
    cases s.dict.isLocked name with
    | true => rfl
    | false =>
      refine ⟨_, rfl, ?_⟩
      rw [dict_report_onDict]
      exact made_unbind hs name

/-- Edits of a dictionary are atomic and local. An edit that is refused is refused in all its forms
with the same error, and leaves the dictionary and the session as they were. An edit that is not
gives the target its entry, and leaves the other names and the classes alone. That names can be
looked up holds of every dictionary that edits lead to. -/
theorem edits_atomic (hs : s.dict.Indexed) (edit : Edit) :
    match edit.refusal? s.dict with
    | some e =>
      edit.apply s.dict = .error e ∧ edit.inPlace s.dict = .error e s.dict ∧
        edit.perform s = .error e s
    | none =>
      (∃ d, edit.apply s.dict = .ok (edit.answer s.dict, d) ∧ edit.Made s.dict d) ∧
      (∃ d, edit.inPlace s.dict = .ok (edit.answer s.dict) d ∧ edit.Made s.dict d) ∧
      (∃ s', edit.perform s = .ok "" s' ∧ edit.Made s.dict s'.dict) := by
  have happly := apply_spec hs edit
  have hinPlace := inPlace_spec hs edit
  have hperform := perform_spec hs edit
  cases hrefusal : edit.refusal? s.dict with
  | some e =>
    rw [hrefusal] at happly hinPlace hperform
    exact ⟨happly, hinPlace, hperform⟩
  | none =>
    rw [hrefusal] at happly hinPlace hperform
    exact ⟨happly, hinPlace, hperform⟩

/-- In the first dictionary a builtin is not erased and nothing is copied from a name without an
entry, but text is added to such a name. -/
theorem edits_atomic_initial :
    (erase "ds").inPlace .initial = .error (.locked "ds") .initial ∧
    (copy "ds" "é").inPlace .initial = .error (.undefinedName "é") .initial ∧
    ∃ d, (append "é" "a").inPlace .initial = .ok none d ∧
      d.function? "é" = some (.ofBody "é" ⟨⟨"a".toUTF8, 1⟩, 0⟩) ∧
      d.function? "ds" = Dictionary.initial.function? "ds" := by
  have hs : Interpreter.fresh.session.dict.Indexed := Dictionary.indexed_initial
  have herase := edits_atomic hs (erase "ds")
  have hcopy := edits_atomic hs (copy "ds" "é")
  have happend := edits_atomic hs (append "é" "a")
  have hrefusals :
      (erase "ds").refusal? Interpreter.fresh.session.dict = some (.locked "ds") ∧
      (copy "ds" "é").refusal? Interpreter.fresh.session.dict = some (.undefinedName "é") ∧
      (append "é" "a").refusal? Interpreter.fresh.session.dict = none ∧
      (append "é" "a").entryAfter Interpreter.fresh.session.dict
        = some (.ofBody "é" ⟨⟨"a".toUTF8, 1⟩, 0⟩) := by
    decide +kernel
  obtain ⟨hlocked, hundefined, hfree, hentry⟩ := hrefusals
  rw [hlocked] at herase
  rw [hundefined] at hcopy
  rw [hfree] at happend
  obtain ⟨d, hd, hmade⟩ := happend.2.1
  refine ⟨herase.2.1, hcopy.2.1, d, hd, ?_, hmade.others_eq "ds" (by decide)⟩
  rw [← hentry]
  exact hmade.target_eq

end Edit

end TextMacro
