import TextMacro.Proofs.DefinedStrings
import TextMacro.Proofs.Lookups
import TextMacro.Proofs.Steps

/-!
# Locked entries survive

A locked entry can be traced, and a locked string can be read and extended, but what kind of
function it is, the arguments it takes and what becomes of its text stay (`Function.Continues`).
Each elementary change keeps this unless it unlocks the name (`Session.Change.guards`), and only the
unlocking builtin does so, for the names it is given (`unlocking`). So a locked entry survives every
program that makes no such call, however the program ends, and a session without such calls keeps
all its builtins (`locked_entries_survive`).
-/

namespace TextMacro

/-- Two meanings are of one kind: the same builtin, or two strings. -/
def Meaning.SameKind : Meaning → Meaning → Prop
  | .builtin code, .builtin code' => code' = code
  | .defined _, .defined _ => True
  | _, _ => False

/-- A meaning is of its own kind. -/
theorem Meaning.SameKind.refl (m : Meaning) : m.SameKind m := by
  cases m with
  | builtin code => exact rfl
  | defined body => trivial

/-- An entry that another has become: it is locked, and is the same function up to tracing and the
body of a string. -/
structure Function.Continues (f g : Function) : Prop where
  name : g.name = f.name
  locked : g.locked = true
  kind : f.meaning.SameKind g.meaning
  minArgs : g.minArgs = f.minArgs
  maxArgs : g.maxArgs = f.maxArgs
  disposition : g.disposition = f.disposition

namespace Function

variable {f g : Function}

/-- A locked entry continues itself. -/
theorem Continues.refl (h : f.locked = true) : f.Continues f :=
  ⟨rfl, h, .refl _, rfl, rfl, rfl⟩

/-- The body of a string is changed. -/
theorem Continues.onBody (h : f.Continues g) (change : Body → Body) :
    f.Continues (g.onBody change) := by
  obtain ⟨gname, meaning, traced, locked, minArgs, maxArgs, disposition⟩ := g
  cases meaning with
  | builtin code => exact h
  | defined body =>
    have hkind := h.kind
    cases hmeaning : f.meaning with
    | builtin code =>
      rw [hmeaning] at hkind
      exact hkind.elim
    | defined old =>
      exact ⟨h.name, h.locked, by rw [hmeaning]; trivial, h.minArgs, h.maxArgs, h.disposition⟩

/-- A string is given another body. -/
theorem Continues.withBody {old : Body} (h : f.Continues g) (hmeaning : g.meaning = .defined old)
    (new : Body) : f.Continues { g with meaning := .defined new } := by
  have hbody := h.onBody fun _ => new
  obtain ⟨gname, meaning, traced, locked, minArgs, maxArgs, disposition⟩ := g
  obtain rfl : meaning = .defined old := hmeaning
  exact hbody

/-- An entry is continued whether it is traced or not. -/
theorem Continues.trace (h : f.Continues g) (traced : Bool) : f.Continues { g with traced } :=
  ⟨h.name, h.locked, h.kind, h.minArgs, h.maxArgs, h.disposition⟩

/-- An entry is continued when it is locked again. -/
theorem Continues.lock (h : f.Continues g) : f.Continues { g with locked := true } :=
  ⟨h.name, rfl, h.kind, h.minArgs, h.maxArgs, h.disposition⟩

end Function

/-- A name is bound to what an entry has become. -/
def Dictionary.Guards (d : Dictionary) (name : String) (f : Function) : Prop :=
  ∃ g, d.function? name = some g ∧ f.Continues g

namespace Dictionary

variable {d : Dictionary} {name other : String} {f : Function}

/-- What is locked is refused. -/
theorem Guards.ne_of_unlocked (h : d.Guards name f) (hunlocked : d.unlocked other = .ok ()) :
    name ≠ other := by
  rintro rfl
  obtain ⟨g, hg, hcontinues⟩ := h
  unfold Dictionary.unlocked at hunlocked
  rw [hg] at hunlocked
  simp [hcontinues.locked] at hunlocked

/-- Another name is bound to something else. -/
theorem Guards.of_ne {d' : Dictionary} (h : d.Guards name f)
    (hkept : d'.function? name = d.function? name) : d'.Guards name f := by
  obtain ⟨g, hg, hcontinues⟩ := h
  exact ⟨g, hkept.trans hg, hcontinues⟩

/-- An entry is changed in a way in which a locked one may be. -/
theorem Guards.modify {change : Function → Function} (h : d.Guards name f) (hindexed : d.Indexed)
    (hchange : name = other → ∀ g, d.function? name = some g → f.Continues g →
      f.Continues (change g)) : (d.modify other change).Guards name f := by
  by_cases hname : name = other
  · obtain ⟨g, hg, hcontinues⟩ := h
    refine ⟨change g, ?_, hchange hname g hg hcontinues⟩
    rw [hindexed.function?_modify, if_pos hname, ← hname, hg]
    rfl
  · refine h.of_ne ?_
    rw [hindexed.function?_modify, if_neg hname]

end Dictionary

/-- Each elementary change that does not unlock a name keeps what the name is bound to. -/
theorem Session.Change.guards {permits : Permits} {s s' : Session} {name : String} {f : Function}
    (hchange : s.Change permits s') (hindexed : s.dict.Indexed) (hname : name ∉ permits.unlocks)
    (h : s.dict.Guards name f) : s'.dict.Guards name f := by
  -- A change that needs an unlocked name is one of another name, and a change of the entry itself
  -- keeps its kind.
  cases hchange with
  | bind _ hunlocked =>
    refine h.of_ne ?_
    show (s.dict.bind _ _).function? name = _
    rw [hindexed.function?_bind, if_neg (h.ne_of_unlocked hunlocked)]
  | @extend extended text _ hextensible =>
    obtain ⟨g, hg, hcontinues⟩ := h
    by_cases hextended : name = extended
    · refine ⟨g.onBody (·.append text), ?_, hcontinues.onBody _⟩
      show (s.dict.extend extended text).function? name = _
      rw [hindexed.function?_extend, if_pos hextended, ← hextended, hg]
      rfl
    · refine ⟨g, ?_, hcontinues⟩
      show (s.dict.extend extended text).function? name = _
      rw [hindexed.function?_extend, if_neg hextended, hg]
  | copy _ _ hunlocked =>
    refine h.of_ne ?_
    show (s.dict.register _).function? name = _
    rw [hindexed.function?_register]
    exact if_neg (h.ne_of_unlocked hunlocked)
  | unbind _ hunlocked =>
    refine h.of_ne ?_
    show (s.dict.unbind _).function? name = _
    rw [hindexed.function?_unbind, if_neg (h.ne_of_unlocked hunlocked)]
  | body hbody =>
    refine h.modify hindexed fun heq g hg hcontinues => ?_
    subst heq
    obtain ⟨g', hg', hmeaning⟩ := Dictionary.function?_of_body hbody
    obtain rfl : g = g' := Option.some.inj (hg.symm.trans hg')
    exact hcontinues.withBody hmeaning _
  | lock locked hbound hunlocks =>
    refine h.modify hindexed fun heq g _ hcontinues => ?_
    subst heq
    cases locked with
    | true => exact hcontinues.lock
    | false => exact absurd (hunlocks rfl) hname
  | trace traced hbound =>
    exact h.modify hindexed fun _ g _ hcontinues => hcontinues.trace traced
  | setProp hset =>
    obtain ⟨p, -, -, rfl⟩ := eq_of_setProp hset
    exact h
  | _ => exact h

/-- Changes that do not unlock a name keep what it is bound to. -/
theorem Session.Changes.guards {permits : Permits} {s s' : Session} {name : String} {f : Function}
    (hchanges : s.Changes permits s') (hindexed : s.dict.Indexed) (hname : name ∉ permits.unlocks)
    (h : s.dict.Guards name f) : s'.dict.Guards name f := by
  induction hchanges with
  | refl => exact h
  | tail hbefore hchange ih =>
    exact hchange.guards (Session.invariant_indexed.changes hbefore hindexed) hname ih

namespace Interpreter

variable {t u : Interpreter} {name : String} {f : Function}

/-! ## Programs -/

/-- The names that the next step unlocks: those that are given to the unlocking builtin in the call
that is due. -/
def unlocking (t : Interpreter) : List String :=
  match t.callDue? with
  | some frame => (t.session.dict.permits frame).unlocks
  | none => []

/-- A call that is due unlocks the names that it may unlock. -/
theorem unlocking_eq {frame : Frame} (hdue : t.callDue? = some frame) :
    t.unlocking = (t.session.dict.permits frame).unlocks := by
  unfold unlocking
  rw [hdue]

/-- A step keeps what a locked name is bound to, unless it unlocks the name. -/
theorem guards_of_left {depth : Nat} (hindexed : t.session.dict.Indexed) (hname : name ∉ t.unlocking)
    (h : t.session.dict.Guards name f) (hleft : t.step.left? depth = some u) :
    u.session.dict.Guards name f := by
  cases hstep : t.step with
  | next v =>
    rw [hstep] at hleft
    obtain rfl := Option.some.inj hleft
    cases goesOn_of_step hstep with
    | passed _ hsession => rwa [hsession]
    | collected _ hsession => rwa [hsession]
    | givenUp _ _ hsession => rwa [hsession]
    | begun _ _ _ hsession => rwa [hsession]
    | carriedOut _ hdue hinvoke =>
      rw [unlocking_eq hdue] at hname
      exact (Action.changes_of_invoke hinvoke).guards hindexed hname h
  | finished v =>
    obtain ⟨-, -, rfl⟩ := finished_of_step hstep
    rw [hstep] at hleft
    obtain rfl := Option.some.inj hleft
    exact h
  | raised e v =>
    rw [hstep] at hleft
    obtain rfl := Option.some.inj hleft
    show v.session.dict.Guards name f
    cases fails_of_step hstep with
    | inText _ _ hsession => rwa [hsession]
    | spent _ _ _ hsame => rwa [hsame]
    | tooDeep _ _ _ _ hsession => rwa [hsession]
    | missed _ _ _ _ hsession => rwa [hsession]
    | inCall _ hdue hinvoke =>
      -- A call that fails may have made changes before.
      rw [unlocking_eq hdue] at hname
      exact (Action.changes_of_invoke_error hinvoke).1.guards hindexed hname h
  | fault =>
    rw [hstep] at hleft
    cases hleft

/-- Steps that do not unlock a name keep what it is bound to. -/
theorem Reaches.guards (hu : t.Reaches u) (hindexed : t.session.dict.Indexed)
    (hname : ∀ v, t.Reaches v → name ∉ v.unlocking) (h : t.session.dict.Guards name f) :
    u.session.dict.Guards name f := by
  induction hu with
  | refl => exact h
  | next hv hstep ih =>
    have hindexed' := Session.invariant_indexed.reaches hv hindexed
    have hleft : Step.left? 0 _ = some _ := congrArg (Step.left? 0) hstep
    exact guards_of_left hindexed' (hname _ hv) ih hleft

/-- A program that does not unlock a name keeps what it is bound to, however it ends. -/
theorem guards_evaluate (hindexed : t.session.dict.Indexed) (fuel : Nat) (text : String)
    (hname : ∀ u, (t.load text).Reaches u → name ∉ u.unlocking)
    (h : t.session.dict.Guards name f) :
    (t.evaluate fuel text).2.session.dict.Guards name f := by
  rcases left_of_evaluate fuel t text with hleft | ⟨v, hv, hleft | hleft⟩
  · rw [hleft]
    exact h
  · have hreached := hv.guards hindexed hname h
    have hindexed' := Session.invariant_indexed.reaches hv hindexed
    exact guards_of_left hindexed' (hname v hv) hreached hleft
  · have hreached := hv.guards hindexed hname h
    rw [hleft]
    exact hreached

/-! ## Sessions -/

/-- The states of an interpreter between programs in all whose states something holds. Between the
programs the surroundings may have changed, properties may have been set and other meta characters
chosen. -/
inductive ReachableWhile (P : Interpreter → Prop) : Interpreter → Prop
  | start (streams : Streams) (files : Files) (clock : Clock) (log : Log) :
    ReachableWhile P (ofSession (.start streams files clock log))
  | evaluate {t : Interpreter} (fuel : Nat) (text : String) : ReachableWhile P t →
    (∀ u, (t.load text).Reaches u → P u) → ReachableWhile P (t.evaluate fuel text).2
  | surroundings {t : Interpreter} (streams : Streams) (files : Files) (clock : Clock) (log : Log)
    (args : List String) (traceAll : Bool) : ReachableWhile P t →
    ReachableWhile P
      { t with session := { t.session with streams, files, clock, log, args, traceAll } }
  | setProp {t : Interpreter} {session : Session} (name : String) (value : Int) :
    ReachableWhile P t → t.session.setProp name value = .ok session →
    ReachableWhile P { t with session }
  | resetProps {t : Interpreter} : ReachableWhile P t →
    ReachableWhile P { t with session := t.session.resetProps }
  | rebind {t : Interpreter} {m : MetaChars} (chars : String) : ReachableWhile P t →
    t.session.chars.rebind chars = .ok m →
    ReachableWhile P { t with session := { t.session with chars := m } }

/-- States that are reached while something holds are reached. -/
theorem ReachableWhile.reachable {P : Interpreter → Prop} (h : t.ReachableWhile P) :
    t.Reachable := by
  induction h with
  | start streams files clock log => exact .start streams files clock log
  | evaluate fuel text _ _ ih => exact .evaluate fuel text ih
  | surroundings streams files clock log args traceAll _ ih =>
    exact .surroundings streams files clock log args traceAll ih
  | setProp name value _ hset ih => exact .setProp name value ih hset
  | resetProps _ ih => exact .resetProps ih
  | rebind chars _ hrebind ih => exact .rebind chars ih hrebind

/-- What names are bound to to begin with stays in a session that unlocks nothing. -/
theorem ReachableWhile.guards (h : t.ReachableWhile fun u => u.unlocking = [])
    (hinitial : Dictionary.initial.Guards name f) : t.session.dict.Guards name f := by
  induction h with
  | start streams files clock log => exact hinitial
  | @evaluate t fuel text hbefore hnothing ih =>
    have hindexed := Session.invariant_indexed.reachable hbefore.reachable
    refine guards_evaluate hindexed fuel text (fun u hu => ?_) ih
    rw [hnothing u hu]
    exact List.not_mem_nil
  | surroundings streams files clock log args traceAll _ ih => exact ih
  | setProp name value _ hset ih =>
    obtain ⟨p, -, -, rfl⟩ := Session.eq_of_setProp hset
    exact ih
  | resetProps _ ih => exact ih
  | rebind chars _ _ ih => exact ih

/-- A locked entry survives every program that does not unlock its name, whether the program
succeeds or fails: the name is still bound, its entry is locked and of the same kind, takes the same
arguments, and its text is treated in the same way. And in a session that never unlocks anything
every builtin of the catalogue is still what it was, up to being traced. -/
theorem locked_entries_survive :
    (∀ t : Interpreter, t.Reachable → ∀ name f, t.session.dict.function? name = some f →
      f.locked = true → ∀ fuel text, (∀ u, (t.load text).Reaches u → name ∉ u.unlocking) →
        ∃ g, (t.evaluate fuel text).2.session.dict.function? name = some g ∧ f.Continues g) ∧
    ∀ t : Interpreter, (t.ReachableWhile fun u => u.unlocking = []) →
      ∀ entry ∈ Builtin.catalogue, ∃ traced, t.session.dict.function? entry.name
        = some { Function.ofEntry entry with traced, locked := true } := by
  constructor
  · intro t ht name f hf hlocked fuel text hname
    have hindexed := Session.invariant_indexed.reachable ht
    exact guards_evaluate hindexed fuel text hname ⟨f, hf, .refl hlocked⟩
  · intro t ht entry hentry
    have hinitial : Dictionary.initial.Guards entry.name
        { Function.ofEntry entry with locked := true } :=
      ⟨_, Dictionary.function?_initial hentry, .refl rfl⟩
    obtain ⟨g, hg, hcontinues⟩ := ht.guards hinitial
    -- Of a builtin only the tracing may differ.
    refine ⟨g.traced, hg.trans (congrArg some ?_)⟩
    obtain ⟨gname, meaning, traced, locked, minArgs, maxArgs, disposition⟩ := g
    obtain ⟨rfl, rfl, hkind, rfl, rfl, rfl⟩ := hcontinues
    cases meaning with
    | builtin code =>
      obtain rfl : code = entry.builtin := hkind
      rfl
    | defined body => exact hkind.elim

/-- A program that traces a builtin, and fails to erase it. -/
def erasing : String := "#<tn;ds>#<es;x;ds>"

/-- The builtin is there after the program, and so are all others. -/
theorem locked_entries_survive_erasing :
    (∃ g, (fresh.evaluate 60 erasing).2.session.dict.function? "ds" = some g ∧
      Function.Continues ⟨"ds", .builtin .defineString, false, true, 2, some 2, .sideEffect⟩ g) ∧
    ∀ entry ∈ Builtin.catalogue, ∃ traced,
      (fresh.evaluate 60 erasing).2.session.dict.function? entry.name
        = some { Function.ofEntry entry with traced, locked := true } := by
  have halways : always (fun u => u.unlocking.isEmpty) 60 (fresh.load erasing) = true := by
    decide +kernel
  have hnothing : ∀ u, (fresh.load erasing).Reaches u → u.unlocking = [] :=
    fun u hu => List.isEmpty_iff.mp (hu.of_always halways)
  obtain ⟨hprograms, hsessions⟩ := locked_entries_survive
  constructor
  · have hentry : (⟨"ds", 2, some 2, .sideEffect, .defineString⟩ : Builtin.Entry)
        ∈ Builtin.catalogue := List.mem_cons_self
    have hbound := Dictionary.function?_initial hentry
    refine hprograms fresh reachable_fresh "ds" _ hbound rfl 60 erasing fun u hu => ?_
    rw [hnothing u hu]
    exact List.not_mem_nil
  · exact hsessions _ (.evaluate 60 erasing (.start _ _ _ _) hnothing)

end Interpreter

end TextMacro
