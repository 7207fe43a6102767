import Mathlib.Logic.Relation
import TextMacro.Proofs.Failures
import TextMacro.Proofs.Silence

/-!
# What an action can do

`Session.Change` lists the elementary changes that an action makes to a session, each with what has
been checked before it and with what has to be permitted (`Permits`). An action stays within what is
permitted (`Action.Within`) when it makes such changes only, fails with no errors but those that it
may fail with (`Permits.Allows`), reports no traces of calls, and comes to the same from sessions
that differ in tracing only. There is one rule for each operation that actions are made of, and
everything else about what an action does to a session follows from the list of changes.
-/

namespace TextMacro

/-- The five characters that give a program its structure are different. -/
def MetaChars.Distinct (m : MetaChars) : Prop :=
  [m.sharp, m.opening, m.semi, m.closing, m.escape].Nodup

namespace MetaChars

/-- The initial characters are different. -/
theorem distinct_initial : initial.Distinct := by
  unfold Distinct
  decide

/-- The character that ends what is read is not one of those that have to be different. -/
theorem distinct_of_setReadEnd {m m' : MetaChars} {text : String} (h : m.Distinct)
    (hset : m.setReadEnd text = .ok m') : m'.Distinct := by
  unfold setReadEnd at hset
  split at hset
  · cases hset
    exact h
  · simp at hset

/-- A list in which no character occurs again has different ones. -/
theorem nodup_of_firstRepeated? {cs : List Char} (h : firstRepeated? cs = none) : cs.Nodup := by
  induction cs with
  | nil => exact .nil
  | cons c rest ih =>
    unfold firstRepeated? at h
    split at h
    · simp at h
    · rename_i hnot
      exact List.nodup_cons.mpr ⟨by simpa using hnot, ih h⟩

/-- Only different characters are chosen. -/
theorem distinct_of_rebind {m m' : MetaChars} {chars : String} (h : m.rebind chars = .ok m') :
    m'.Distinct := by
  unfold rebind at h
  dsimp only at h
  split at h
  · split at h
    · simp at h
    · rename_i hnone
      cases h
      exact nodup_of_firstRepeated? hnone
  · split at h
    · simp at h
    · rename_i hnone
      cases h
      exact nodup_of_firstRepeated? hnone
  · simp at h

end MetaChars

/-! ## Work on a body -/

/-- A body is another with the cursor moved at most. -/
structure Body.Moved (old new : Body) : Prop where
  content : new.text.content = old.text.content
  segments : new.segments = old.segments

namespace Body

variable {α β : Type}

/-- Work on a body fails with none of the scanner's own errors. A well-formed body stays so, and the
work on it does not fail for bytes that are no unit. -/
structure Works (work : Body → Except Error α × Body) : Prop where
  spared : ∀ body, Spared (work body).1
  clean : ∀ body, body.WellFormed → Clean (work body).1
  wellFormed : ∀ body, body.WellFormed → (work body).2.WellFormed

/-- Work on a body that moves its cursor and does nothing else to it. -/
structure Reads (work : Body → Except Error α × Body) : Prop extends Works work where
  moved : ∀ body : Body, body.Moved (work body).2

/-- A scan does nothing to a body but move its cursor. -/
theorem moved_scanning (scan : ByteArray → Nat → Nat × Except Error α) (body : Body) :
    body.Moved (body.read (Buffer.scanning scan)).2 := by
  unfold read Buffer.scanning
  cases scan body.text.content body.text.index with
  | mk index result =>
    cases result with
    | ok a => exact ⟨rfl, rfl⟩
    | error e => exact ⟨rfl, rfl⟩

/-- A scan that stops between two units reads a body. -/
theorem reads_scanning {scan : ByteArray → Nat → Nat × Except Error α}
    (hspares : (Buffer.scanning scan).Spares) (hmoves : (Buffer.scanning scan).Moves) :
    Reads (·.read (Buffer.scanning scan)) where
  spared body := body.spared_read hspares
  clean body h := by
    obtain ⟨-, a, hok⟩ := h.read hmoves
    rw [hok]
    exact .ok a
  wellFormed _ h := (h.read hmoves).1
  moved := moved_scanning scan

/-- What a read yields is changed. -/
theorem read_map (body : Body) (reader : Buffer.Reader α) (f : α → β) :
    body.read (f <$> reader) = (f <$> (body.read reader).1, (body.read reader).2) := by
  have hmap : (f <$> reader) body.text = EStateM.map f reader body.text := rfl
  unfold read
  rw [hmap]
  unfold EStateM.map
  cases reader body.text with
  | ok a text => rfl
  | error e text => rfl

/-- A read whose result is changed. -/
theorem Reads.map {reader : Buffer.Reader α} (h : Reads (·.read reader)) (f : α → β) :
    Reads (·.read (f <$> reader)) where
  spared body := by
    rw [read_map]
    intro e he
    cases hread : (body.read reader).1 with
    | ok a =>
      rw [hread] at he
      cases he
    | error e' =>
      rw [hread] at he
      cases he
      exact h.spared body e hread
  clean body hbody := by
    rw [read_map]
    exact (h.clean body hbody).map f
  wellFormed body hbody := by
    rw [read_map]
    exact h.wellFormed body hbody
  moved body := by
    rw [read_map]
    exact h.moved body

end Body

/-! ## Changes of a session -/

/-- The dictionary is well formed, and the meta characters are different. -/
def Session.WellFormed (s : Session) : Prop :=
  s.dict.WellFormed ∧ s.chars.Distinct

/-- A property that is set is known and is given a value that it may have; the calls are counted
anew only if it is the budget. -/
theorem Session.eq_of_setProp {s s' : Session} {name : String} {value : Int}
    (h : s.setProp name value = .ok s') :
    ∃ p : Property, p.name = name ∧ p.allows value = true ∧ s' = { s with
      props := s.props.put p value
      execs := if name == Property.execCount.name then 0 else s.execs } := by
  unfold Session.setProp Properties.set Properties.named at h
  cases hfound : Property.ofName? name with
  | none =>
    rw [hfound] at h
    cases h
  | some p =>
    rw [hfound] at h
    have hname : p.name = name := by
      have hfind := List.find?_some hfound
      exact beq_iff_eq.mp hfind
    cases hallows : p.allows value with
    | false =>
      simp [bind, Except.bind, hallows] at h
    | true =>
      refine ⟨p, hname, hallows, ?_⟩
      simpa [bind, Except.bind, pure, Except.pure, hallows] using h.symm

/-- What may be done beyond the changes that everything may make. -/
structure Permits where
  /-- Whether a fresh budget may be loaded. -/
  reloads : Bool := false
  /-- The names that may be unlocked. -/
  unlocks : List String := []
  /-- The names that may be bound and removed, and whose strings may be changed. -/
  targets : List String := []
  /-- The name of the string whose cursor may be moved. -/
  cursor : Option String := none
  /-- Whether a stream or a file may be read. -/
  reads : Bool := false
  /-- Whether the program may be asked to stop, or not to stop any more. -/
  halts : Bool := false
  /-- Whether tokens may be generated. -/
  creates : Bool := false

/-- An elementary change of a session, with what has been checked before it is made, and with what
has to be permitted. -/
inductive Session.Change (permits : Permits) (s : Session) : Session → Prop
  | bind {name text : String} : name ∈ permits.targets → s.dict.unlocked name = .ok () →
    Change permits s (s.onDict (·.bind name text))
  | extend {name text : String} : name ∈ permits.targets → s.dict.extensible name = .ok () →
    Change permits s (s.onDict (·.extend name text))
  | copy {name old : String} {body : Body} : name ∈ permits.targets → s.dict.body old = .ok body →
    s.dict.unlocked name = .ok () → Change permits s (s.onDict (·.register (.ofBody name body)))
  | unbind {name : String} : name ∈ permits.targets → s.dict.unlocked name = .ok () →
    Change permits s (s.onDict (·.unbind name))
  | body {name : String} {old new : Body} : s.dict.body name = .ok old →
    (old.WellFormed → new.WellFormed) →
    (name ∈ permits.targets ∨ permits.cursor = some name ∧ old.Moved new) →
    Change permits s { s with dict := s.dict.setBody name new }
  | lock {name : String} (locked : Bool) : s.dict.bound name = .ok () →
    (locked = false → name ∈ permits.unlocks) →
    Change permits s (s.onDict (·.modify name ({ · with locked })))
  | trace {name : String} (traced : Bool) : s.dict.bound name = .ok () →
    Change permits s (s.onDict (·.modify name ({ · with traced })))
  | defineClass (name chars : String) (negative : Bool) :
    Change permits s (s.onDict (·.defineClass name chars negative))
  | eraseClass (name : String) : Change permits s (s.onDict (·.eraseClass name))
  | traceAll (traceAll : Bool) : Change permits s { s with traceAll }
  | setProp {name : String} {value : Int} {s' : Session} : s.setProp name value = .ok s' →
    (name = Property.execCount.name → permits.reloads = true) → Change permits s s'
  | reset : permits.reloads = true → Change permits s s.resetProps
  | readEnd {text : String} {chars : MetaChars} : s.chars.setReadEnd text = .ok chars →
    Change permits s { s with chars }
  | rebind {text : String} {chars : MetaChars} : s.chars.rebind text = .ok chars →
    Change permits s { s with chars }
  | printed (output : Output) (text : String) : Change permits s (s.print output text)
  /-- Something is read from the stream that programs read from. -/
  | read (source : Stream) : permits.reads = true →
    Change permits s { s with streams := s.streams.setRsSource source }
  /-- A path is looked for. -/
  | noted (path : String) : permits.reads = true →
    Change permits s { s with files := s.files.note path }
  | halt (halt : Option Int) : permits.halts = true → Change permits s { s with halt }
  | created : permits.creates = true → Change permits s { s with creations := s.creations + 1 }
  | report (e : Event) : Change permits s (s.report e)

/-- Elementary changes one after another. -/
def Session.Changes (permits : Permits) : Session → Session → Prop :=
  Relation.ReflTransGen (Session.Change permits)

namespace Session

variable {permits : Permits} {s s' : Session}

/-- An elementary change keeps the session well formed. -/
theorem Change.wellFormed (h : s.Change permits s') (hs : s.WellFormed) : s'.WellFormed := by
  cases h with
  | bind => exact ⟨hs.1.bind _ _, hs.2⟩
  | extend => exact ⟨hs.1.extend _ _, hs.2⟩
  | copy _ hbody => exact ⟨hs.1.registerBody (hs.1.body hbody), hs.2⟩
  | unbind => exact ⟨hs.1.unbind _, hs.2⟩
  | body hbody hwellFormed => exact ⟨hs.1.setBody _ (hwellFormed (hs.1.body hbody)), hs.2⟩
  | lock => exact ⟨hs.1.modify _ fun _ _ hf => hf, hs.2⟩
  | trace => exact ⟨hs.1.modify _ fun _ _ hf => hf, hs.2⟩
  | setProp hset =>
    obtain ⟨p, -, -, rfl⟩ := eq_of_setProp hset
    exact hs
  | readEnd hset => exact ⟨hs.1, MetaChars.distinct_of_setReadEnd hs.2 hset⟩
  | rebind hrebind => exact ⟨hs.1, MetaChars.distinct_of_rebind hrebind⟩
  | _ => exact hs

namespace Changes

/-- What every elementary change keeps is kept by all of them together. -/
theorem keeps {I : Session → Prop}
    (hchange : ∀ {s s' : Session}, s.Change permits s' → I s → I s')
    (h : s.Changes permits s') (hs : I s) : I s' := by
  induction h with
  | refl => exact hs
  | tail _ hlast ih => exact hchange hlast ih

/-- What every elementary change leaves alone is the same afterwards. -/
theorem part_eq {α : Type} (part : Session → α)
    (hchange : ∀ {s s' : Session}, s.Change permits s' → part s' = part s)
    (h : s.Changes permits s') : part s' = part s :=
  h.keeps (fun hlast hsame => (hchange hlast).trans hsame) rfl

/-- Elementary changes keep the session well formed. -/
theorem wellFormed (h : s.Changes permits s') (hs : s.WellFormed) : s'.WellFormed :=
  h.keeps Change.wellFormed hs

end Changes

end Session

/-- An error that something may fail with: it is none of the scanner's own, and it is one about
bytes that are no unit only if a stream or a file is read or the session is not well formed. -/
structure Permits.Allows (permits : Permits) (s : Session) (e : Error) : Prop where
  spared : e.ofScanner = false
  clean : permits.reads = false → s.WellFormed → e.malformed = false

namespace Permits.Allows

variable {permits : Permits} {s s' : Session} {e : Error}

/-- Everything may fail with an error that is not about bytes and none of the scanner's own. -/
theorem of_clean (h : (e.malformed || e.ofScanner) = false) : permits.Allows s e :=
  ⟨(Bool.or_eq_false_iff.mp h).2, fun _ _ => (Bool.or_eq_false_iff.mp h).1⟩

/-- What reads a stream or a file may also fail with an error about bytes. -/
theorem of_reads (hreads : permits.reads = true) (h : e.ofScanner = false) : permits.Allows s e :=
  ⟨h, fun hnot => absurd (hreads.symm.trans hnot) (by decide)⟩

/-- An error about bytes is met in a well-formed session only where a stream or a file is read. -/
theorem reads_of_malformed (h : permits.Allows s e) (hs : s.WellFormed) (he : e.malformed = true) :
    permits.reads = true := by
  cases hreads : permits.reads with
  | true => rfl
  | false => exact absurd (he.symm.trans (h.clean hreads hs)) (by decide)

/-- What may be met behind some changes may be met. -/
theorem of_changes (hchanges : s.Changes permits s') (h : permits.Allows s' e) :
    permits.Allows s e :=
  ⟨h.spared, fun hreads hs => h.clean hreads (hchanges.wellFormed hs)⟩

end Permits.Allows

/-- Something leads by elementary changes from `s` to `s'`, without traces of calls, and to the same
session up to tracing as what leads to `t'`. -/
structure Session.EndsIn (permits : Permits) (s s' t' : Session) : Prop where
  changes : s.Changes permits s'
  traces : s.log.SameTraces s'.log
  alike : s'.silent = t'.silent

namespace Session.EndsIn

variable {permits : Permits} {s s' s'' t t' t'' : Session}

/-- Nothing is done. -/
theorem refl (h : s.silent = t.silent) : s.EndsIn permits s t :=
  ⟨.refl, .refl s.log, h⟩

/-- One thing is done after another. -/
theorem trans (h : s.EndsIn permits s' t') (h' : s'.EndsIn permits s'' t'') :
    s.EndsIn permits s'' t'' :=
  ⟨h.changes.trans h'.changes, h.traces.trans h'.traces, h'.alike⟩

/-- One change is made, which leaves the log alone. -/
theorem of_change (hchange : s.Change permits s') (hlog : s'.log = s.log)
    (halike : s'.silent = t'.silent) : s.EndsIn permits s' t' where
  changes := .single hchange
  traces := by
    rw [hlog]
    exact .refl s.log
  alike := halike

end Session.EndsIn

/-! ## Actions -/

namespace Action

variable {α β : Type} {permits : Permits} {s : Session}

/-- The session that an action has left. -/
def left : EStateM.Result Error Session α → Session
  | .ok _ s => s
  | .error _ s => s

/-- What an action has come to, with the tracing taken out of the session it has left. -/
def silenced : EStateM.Result Error Session α → EStateM.Result Error Session α
  | .ok a s => .ok a s.silent
  | .error e s => .error e s.silent

/-- From `s`, an action has come to the first result within what is permitted, and to the second,
which is the same up to tracing, from another session. -/
inductive Ends (permits : Permits) (s : Session) :
    EStateM.Result Error Session α → EStateM.Result Error Session α → Prop
  | ok {x : α} {s' t' : Session} : s.EndsIn permits s' t' → Ends permits s (.ok x s') (.ok x t')
  | error {e : Error} {s' t' : Session} : s.EndsIn permits s' t' → permits.Allows s e →
    Ends permits s (.error e s') (.error e t')

/-- What comes behind something that has been done. -/
theorem Ends.of_endsIn {s' t' : Session} {result result' : EStateM.Result Error Session α}
    (h : s.EndsIn permits s' t') (hends : Ends permits s' result result') :
    Ends permits s result result' := by
  cases hends with
  | ok hnext => exact .ok (h.trans hnext)
  | error hnext hallows => exact .error (h.trans hnext) (hallows.of_changes h.changes)

/-- An action stays within what is permitted when it starts from a session, and comes to the same
from every session that differs from it in tracing only. -/
def Within (permits : Permits) (a : Action α) (s : Session) : Prop :=
  ∀ t : Session, s.silent = t.silent → Ends permits s (a s) (a t)

/-- What an action has left follows from a session by elementary changes, also if it has failed,
which it has with no error but those that it may fail with. -/
def Leaves (permits : Permits) (s : Session) : EStateM.Result Error Session α → Prop
  | .ok _ s' => s.Changes permits s'
  | .error e s' => s.Changes permits s' ∧ permits.Allows s e

namespace Within

/-! ### Rules -/

/-- Nothing is done. -/
theorem pure (x : α) : Within permits (Pure.pure x : Action α) s :=
  fun _ h => .ok (.refl h)

/-- An error is raised. -/
theorem throw {e : Error} (he : permits.Allows s e) : Within permits (throw e : Action α) s :=
  fun _ h => .error (.refl h) he

/-- What follows starts from the session that has been left, unless the action fails. -/
theorem bind {a : Action α} {f : α → Action β} (ha : Within permits a s)
    (hf : ∀ x s', a s = .ok x s' → Within permits (f x) s') : Within permits (a >>= f) s := by
  intro t ht
  have hfirst := ha t ht
  show Ends permits s (EStateM.bind a f s) (EStateM.bind a f t)
  unfold EStateM.bind
  generalize hrun : a s = result at hfirst ⊢
  generalize a t = result' at hfirst ⊢
  cases hfirst with
  | ok hends => exact (hf _ _ hrun _ hends.alike).of_endsIn hends
  | error hends hallows => exact .error hends hallows

/-- What follows stays within what is permitted from every session. -/
theorem bind_all {a : Action α} {f : α → Action β} (ha : Within permits a s)
    (hf : ∀ x s', Within permits (f x) s') : Within permits (a >>= f) s :=
  ha.bind fun x s' _ => hf x s'

/-- The result of an action is changed. -/
theorem map {a : Action α} (ha : Within permits a s) (f : α → β) : Within permits (f <$> a) s := by
  intro t ht
  have hfirst := ha t ht
  show Ends permits s (EStateM.map f a s) (EStateM.map f a t)
  unfold EStateM.map
  generalize a s = result at hfirst ⊢
  generalize a t = result' at hfirst ⊢
  cases hfirst with
  | ok hends => exact .ok hends
  | error hends hallows => exact .error hends hallows

/-- What follows does not depend on the tracing in the session that is looked at. -/
theorem get_bind {f : Session → Action β} (hview : ∀ s, f s.silent = f s)
    (hf : Within permits (f s) s) : Within permits (get >>= f) s := by
  intro t ht
  have hsame : f t = f s := by rw [← hview t, ← ht, hview s]
  show Ends permits s (f s s) (f t t)
  rw [hsame]
  exact hf t ht

/-- A result that may be about bytes only if the session is not well formed. -/
theorem lift_wellFormed {result : Except Error α} (hspared : Spared result)
    (hclean : s.WellFormed → Clean result) : Within permits (lift result) s := by
  cases result with
  | ok x => exact pure x
  | error e => exact throw ⟨hspared e rfl, fun _ hs => (hclean hs).malformed_eq_false rfl⟩

/-- A result that does not depend on the session. -/
theorem lift {result : Except Error α} (hclean : Clean result) :
    Within permits (lift result) s :=
  lift_wellFormed hclean.spared fun _ => hclean

/-- What follows may use what the result was. -/
theorem lift_bind {result : Except Error α} {f : α → Action β} (hclean : Clean result)
    (hf : ∀ x, result = .ok x → Within permits (f x) s) :
    Within permits (Action.lift result >>= f) s := by
  cases result with
  | ok x => exact hf x rfl
  | error e => exact throw (α := β) (.of_clean (hclean e rfl))

/-- What is looked up in the session is not the tracing. -/
theorem get_lift {look : Session → Except Error α} {f : α → Action β}
    (hlook : ∀ s, look s.silent = look s) (hclean : Clean (look s))
    (hf : ∀ x, look s = .ok x → Within permits (f x) s) :
    Within permits (get >>= fun s => Action.lift (look s) >>= f) s := by
  refine get_bind (fun s => ?_) (lift_bind hclean hf)
  rw [hlook]

/-- What follows may use that the dictionary permits it. -/
theorem require_bind {permit : Dictionary → Except Error PUnit} {f : PUnit → Action β}
    (hpermit : ∀ d, permit d.silent = permit d) (hclean : Clean (permit s.dict))
    (hf : permit s.dict = .ok () → Within permits (f ()) s) :
    Within permits (require permit >>= f) s := by
  show Within permits (get >>= fun s => Action.lift (permit s.dict) >>= f) s
  exact get_lift (fun s => hpermit s.dict) hclean fun _ hok => hf hok

/-- A change that leaves the log alone and comes to the same without the tracing. -/
theorem modify {change : Session → Session} (hchange : s.Change permits (change s))
    (hsilent : ∀ s, (change s.silent).silent = (change s).silent)
    (hlog : (change s).log = s.log) : Within permits (modify change : Action PUnit) s := by
  intro t ht
  refine .ok (.of_change hchange hlog ?_)
  rw [← hsilent s, ht, hsilent t]

/-- A change of the dictionary. -/
theorem changeDict {change : Dictionary → Dictionary}
    (hchange : s.Change permits (s.onDict change))
    (hsilent : ∀ d, (change d.silent).silent = (change d).silent) :
    Within permits (changeDict change) s :=
  modify hchange (fun s => s.silent_onDict hsilent) rfl

/-- What follows starts from the session with the dictionary that has been changed. -/
theorem changeDict_bind {change : Dictionary → Dictionary} {f : PUnit → Action β}
    (hchange : s.Change permits (s.onDict change))
    (hsilent : ∀ d, (change d.silent).silent = (change d).silent)
    (hf : ∀ s', Within permits (f ()) s') : Within permits (Action.changeDict change >>= f) s :=
  (changeDict hchange hsilent).bind_all fun _ s' => hf s'

/-- An event that is no trace is reported. -/
theorem report {e : Event} (he : e.isTrace = false) : Within permits (report e) s := by
  intro t ht
  refine .ok ⟨.single (.report e), s.log.sameTraces_record _ he, ?_⟩
  rw [s.silent_report he, t.silent_report he, ht]

/-- What follows starts from the session with the report. -/
theorem report_bind {e : Event} {f : PUnit → Action β} (he : e.isTrace = false)
    (hf : Within permits (f ()) (s.report e)) : Within permits (Action.report e >>= f) s := by
  refine (report he).bind fun _ s' hrun => ?_
  cases hrun
  exact hf

/-- A text is printed, unless the stream is one that is read. -/
theorem print (output : Output) (text : String) : Within permits (print output text) s := by
  intro t ht
  unfold Action.print
  rw [← (Session.sources_eq ht).1]
  cases hwritable : (s.streams.get output).writable with
  | ok u =>
    refine .ok (.of_change (.printed output text) rfl ?_)
    rw [s.silent_print, t.silent_print, ht]
  | error e =>
    exact .error (.refl ht) (.of_clean ((s.streams.get output).clean_writable e hwritable))

/-- Work on the body of a string, which is to be changed, or whose cursor is to be moved. -/
theorem onBody {name : String} {work : Body → Except Error α × Body} (hworks : Body.Works work)
    (h : name ∈ permits.targets ∨
      permits.cursor = some name ∧ ∀ body : Body, body.Moved (work body).2) :
    Within permits (onBody name work) s := by
  intro t ht
  have hsame : s.dict.body name = t.dict.body name := by
    have hsilent := congrArg (fun s : Session => s.dict.body name) ht
    simpa using hsilent
  unfold Action.onBody
  rw [← hsame]
  cases hbody : s.dict.body name with
  | error e => exact .error (.refl ht) (.of_clean (s.dict.clean_body name e hbody))
  | ok body =>
    have hends : s.EndsIn permits { s with dict := s.dict.setBody name (work body).2 }
        { t with dict := t.dict.setBody name (work body).2 } := by
      refine .of_change (.body hbody (hworks.wellFormed body) ?_) rfl ?_
      · exact h.imp_right fun hcursor => ⟨hcursor.1, hcursor.2 body⟩
      · rw [s.silent_setBody, t.silent_setBody, ht]
    have hspared := hworks.spared body
    have hclean := hworks.clean body
    dsimp only
    generalize work body = outcome at hends hspared hclean ⊢
    obtain ⟨result, new⟩ := outcome
    cases result with
    | ok a => exact .ok hends
    -- The body is put back also when the work on it has stopped halfway.
    | error e =>
      refine .error hends ⟨hspared e rfl, fun _ hs => ?_⟩
      exact (hclean (hs.1.body hbody)).malformed_eq_false rfl

/-- A string is read on. -/
theorem readBody {name : String} {reader : Buffer.Reader α} (hreads : Body.Reads (·.read reader))
    (hcursor : permits.cursor = some name) : Within permits (readBody name reader) s :=
  onBody hreads.toWorks (.inr ⟨hcursor, hreads.moved⟩)

/-- The stream that programs read from is read on, which may meet any bytes. -/
theorem readRs {reader : Files → Stream.Reader α} (hreads : permits.reads = true)
    (hspares : ∀ files, (reader files).Spares) : Within permits (readRs reader) s := by
  intro t ht
  have hends : ∀ source, s.EndsIn permits { s with streams := s.streams.setRsSource source }
      { t with streams := t.streams.setRsSource source } := fun source =>
    .of_change (.read source hreads) rfl (congrArg
      (fun left : Session => { left with streams := left.streams.setRsSource source }) ht)
  obtain ⟨hstreams, hfiles⟩ := Session.sources_eq ht
  have hsame : reader s.files s.streams.rsSource = reader t.files t.streams.rsSource := by
    rw [hstreams, hfiles]
  unfold Action.readRs
  rw [← hsame]
  cases hread : reader s.files s.streams.rsSource with
  | ok a source => exact .ok (hends source)
  | error e source =>
    exact .error (hends source) (.of_reads hreads (hspares s.files _ e source hread))

/-- An action for each item of a list. -/
theorem forM {f : α → Action PUnit} (l : List α) (hf : ∀ x ∈ l, ∀ s, Within permits (f x) s) :
    Within permits (l.forM f) s := by
  induction l generalizing s with
  | nil => exact pure ()
  | cons x l ih =>
    refine bind_all (hf x List.mem_cons_self s) fun _ _ => ih fun y hy => ?_
    exact hf y (List.mem_cons_of_mem x hy)

/-! ### Consequences -/

variable {a : Action α}

/-- Elementary changes are made only. -/
theorem leaves (h : Within permits a s) : Leaves permits s (a s) := by
  have hends := h s rfl
  generalize a s = result at hends
  cases hends with
  | ok hchanges => exact hchanges.changes
  | error hchanges hallows => exact ⟨hchanges.changes, hallows⟩

/-- The action comes to the same from two sessions that differ in tracing only. -/
theorem silenced_eq {t : Session} (h : Within permits a s) (ht : s.silent = t.silent) :
    silenced (a s) = silenced (a t) := by
  have hends := h t ht
  generalize a s = result at hends ⊢
  generalize a t = result' at hends ⊢
  cases hends with
  | ok hlast => exact congrArg (EStateM.Result.ok _) hlast.alike
  | error hlast => exact congrArg (EStateM.Result.error _) hlast.alike

/-- No traces of calls are reported. -/
theorem sameTraces (h : Within permits a s) : s.log.SameTraces (left (a s)).log := by
  have hends := h s rfl
  generalize a s = result at hends
  cases hends with
  | ok hlast => exact hlast.traces
  | error hlast => exact hlast.traces

end Within

/-- The session that is left follows by elementary changes. -/
theorem Leaves.changes {result : EStateM.Result Error Session α} (h : Leaves permits s result) :
    s.Changes permits (left result) := by
  cases result with
  | ok x s' => exact h
  | error e s' => exact h.1

end Action

end TextMacro
