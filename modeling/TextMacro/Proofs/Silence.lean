import TextMacro.Proofs.SymbolTable
import TextMacro.Session.Basic

/-!
# Taking the tracing out

A session is silent when nothing in it is traced and its log holds no traces of calls
(`Session.silent`). The tracing is in the entries of the dictionary, in the switch for all calls
and in the log. Questions to a dictionary are answered alike when it is taken out
(`Dictionary.function?_silent` and what follows from it), and a change of a dictionary comes to the
same whether the tracing is taken out before or behind it, the switching of an entry excepted
(`Dictionary.silent_setTrace`).
-/

namespace TextMacro

/-! ## Taking the tracing out -/

/-- An entry that is not traced. -/
def Function.silent (f : Function) : Function := { f with traced := false }

/-- The dictionary in which no entry is traced. -/
def Dictionary.silent (d : Dictionary) : Dictionary := d.onFunctions (·.map Function.silent)

/-- Whether an event is the trace of a call. -/
def Event.isTrace : Event → Bool
  | .callEntered _ _ | .callLeft _ _ _ => true
  | _ => false

/-- The log without the traces of calls. -/
def Log.silent (log : Log) : Log :=
  { log with records := log.records.filter fun (_, e) => !e.isTrace }

/-- The traces of calls in a log, the earliest first. -/
def Log.traces (log : Log) : List Event :=
  ((log.records.map Prod.snd).filter Event.isTrace).reverse

/-- The session in which nothing is traced and nothing was. -/
def Session.silent (s : Session) : Session :=
  { s with dict := s.dict.silent, traceAll := false, log := s.log.silent }

namespace Function

/-- A body is changed in an entry that is not traced as in one that is. -/
theorem silent_onBody (f : Function) (change : Body → Body) :
    (f.onBody change).silent = f.silent.onBody change := by
  obtain ⟨name, meaning, traced, locked, minArgs, maxArgs, disposition⟩ := f
  cases meaning with
  | builtin code => rfl
  | defined body => rfl

end Function

namespace Dictionary

variable (d : Dictionary) (name : String)

/-! ## Questions to a dictionary -/

/-- Taking the tracing out reaches the function of every name. -/
@[simp]
theorem function?_silent : d.silent.function? name = (d.function? name).map Function.silent :=
  d.functions.get?_map Function.silent name

/-- A name that has no function has none without the tracing. -/
@[simp]
theorem function_silent : d.silent.function name = Function.silent <$> d.function name := by
  unfold function
  rw [function?_silent]
  cases d.function? name with
  | none => rfl
  | some f => rfl

/-- The same names are bound. -/
@[simp]
theorem contains_silent : d.silent.contains name = d.contains name :=
  d.functions.contains_map Function.silent name

/-- A name that is not bound is refused in the same way. -/
@[simp]
theorem bound_silent : d.silent.bound name = d.bound name := by
  unfold bound
  rw [contains_silent]

/-- A locked name is refused in the same way. -/
@[simp]
theorem unlocked_silent : d.silent.unlocked name = d.unlocked name := by
  unfold unlocked
  rw [function?_silent]
  cases d.function? name with
  | none => rfl
  | some f => rfl

/-- The name of a builtin is refused in the same way. -/
@[simp]
theorem extensible_silent : d.silent.extensible name = d.extensible name := by
  unfold extensible
  rw [function?_silent]
  cases d.function? name with
  | none => rfl
  | some f => rfl

/-- Bodies are found in the same way. -/
@[simp]
theorem body_silent : d.silent.body name = d.body name := by
  unfold body
  rw [function?_silent]
  cases d.function? name with
  | none => rfl
  | some f =>
    obtain ⟨_, meaning, traced, locked, minArgs, maxArgs, disposition⟩ := f
    cases meaning with
    | builtin code => rfl
    | defined body => rfl

/-- The bound names are listed in the same way. -/
@[simp]
theorem names_silent (all : Bool) : d.silent.names all = d.names all :=
  d.functions.sortedNames_map fun _ => rfl

/-- There is no tracing in a class. -/
@[simp]
theorem charClass_silent : d.silent.charClass name = d.charClass name := rfl

/-- The classes are listed in the same way. -/
@[simp]
theorem classNames_silent : d.silent.classNames = d.classNames := rfl

/-! ## Changes of a dictionary -/

/-- The tracing of a dictionary can be taken out only once. -/
@[simp]
theorem silent_silent : d.silent.silent = d.silent := by
  unfold silent onFunctions
  dsimp only
  congr 1
  exact SymbolTable.map_mapEntries d.functions fun _ _ => rfl

/-- An entry is entered without its tracing. -/
@[simp]
theorem silent_register (f : Function) : (d.register f).silent = d.silent.register f.silent :=
  congrArg (Dictionary.mk · d.classes) (d.functions.map_insert Function.silent f.name f)

/-- A defined string is not traced to begin with. -/
@[simp]
theorem silent_registerBody (body : Body) :
    (d.register (.ofBody name body)).silent = d.silent.register (.ofBody name body) :=
  d.silent_register (.ofBody name body)

/-- A name is bound to a string. -/
@[simp]
theorem silent_bind (text : String) : (d.bind name text).silent = d.silent.bind name text :=
  d.silent_registerBody name (.ofString text)

/-- A name is removed. -/
@[simp]
theorem silent_unbind : (d.unbind name).silent = d.silent.unbind name :=
  congrArg (Dictionary.mk · d.classes) (d.functions.map_erase Function.silent name)

/-- An entry is changed in something other than its being traced. -/
theorem silent_modify {change : Function → Function}
    (h : ∀ f, (change f).silent = change f.silent) :
    (d.modify name change).silent = d.silent.modify name change :=
  congrArg (Dictionary.mk · d.classes) (d.functions.map_modify name h)

/-- A string is given another body. -/
@[simp]
theorem silent_setBody (body : Body) :
    (d.setBody name body).silent = d.silent.setBody name body :=
  d.silent_modify name fun _ => rfl

/-- An entry becomes locked or not. -/
@[simp]
theorem silent_setLock (locked : Bool) :
    (d.modify name ({ · with locked })).silent = d.silent.modify name ({ · with locked }) :=
  d.silent_modify name fun _ => rfl

/-- An entry becomes traced or not. -/
@[simp]
theorem silent_setTrace (traced : Bool) :
    (d.modify name ({ · with traced })).silent = d.silent := by
  have hmap : (d.functions.modify name ({ · with traced })).map Function.silent
      = (d.functions.map Function.silent).modify name id :=
    d.functions.map_modify name fun _ => rfl
  rw [SymbolTable.modify_id] at hmap
  exact congrArg (Dictionary.mk · d.classes) hmap

/-- Text is added to a string. -/
@[simp]
theorem silent_extend (text : String) :
    (d.extend name text).silent = d.silent.extend name text := by
  unfold extend
  rw [contains_silent]
  dsimp only
  -- A name that is not bound is bound first, on both sides.
  split
  · exact d.silent_modify name fun f => f.silent_onBody _
  · rw [silent_modify _ name fun f => f.silent_onBody _, silent_bind]

/-- A class is defined. -/
@[simp]
theorem silent_defineClass (chars : String) (negative : Bool) :
    (d.defineClass name chars negative).silent = d.silent.defineClass name chars negative := rfl

/-- A class is removed. -/
@[simp]
theorem silent_eraseClass : (d.eraseClass name).silent = d.silent.eraseClass name := rfl

end Dictionary

/-! ## Logs -/

namespace Log

variable (log : Log)

/-- A log has the same filter and the same traces as one before it. -/
def SameTraces (log log' : Log) : Prop :=
  log'.filter = log.filter ∧ log'.traces = log.traces

/-- A log has its own traces. -/
theorem SameTraces.refl : log.SameTraces log := ⟨rfl, rfl⟩

/-- What adds no traces can be done one after another. -/
theorem SameTraces.trans {log log' log'' : Log} (h : log.SameTraces log')
    (h' : log'.SameTraces log'') : log.SameTraces log'' :=
  ⟨h'.1.trans h.1, h'.2.trans h.2⟩

/-- The traces of a log can be taken out only once. -/
@[simp]
theorem silent_silent : log.silent.silent = log.silent := by
  unfold silent
  rw [List.filter_filter]
  simp

/-- Recording leaves the filter as it is. -/
theorem filter_record (printed : Nat) (e : Event) : (log.record printed e).filter = log.filter := by
  unfold record
  split
  · rfl
  · rfl

/-- The trace of a call leaves no mark on what else is in the log. -/
theorem silent_record_of_trace (printed : Nat) {e : Event} (he : e.isTrace = true) :
    (log.record printed e).silent = log.silent := by
  unfold record
  split
  · simp [silent, he]
  · rfl

/-- Any other event is recorded beside the traces. -/
theorem silent_record (printed : Nat) {e : Event} (he : e.isTrace = false) :
    (log.record printed e).silent = log.silent.record printed e := by
  unfold record
  by_cases hallows : log.filter.allows e = true
  · rw [if_pos hallows, if_pos (by exact hallows)]
    simp [silent, he]
  · rw [if_neg hallows, if_neg (by exact hallows)]

/-- The trace of a call is added if the filter chooses it. -/
theorem traces_record_of_trace (printed : Nat) {e : Event} (he : e.isTrace = true) :
    (log.record printed e).traces = log.traces ++ if log.filter.allows e then [e] else [] := by
  unfold record
  split
  · simp [traces, he]
  · simp

/-- An event that is no trace adds none. -/
theorem sameTraces_record (printed : Nat) {e : Event} (he : e.isTrace = false) :
    log.SameTraces (log.record printed e) := by
  refine ⟨log.filter_record printed e, ?_⟩
  unfold record
  split
  · simp [traces, he]
  · rfl

end Log

namespace Session

variable (s : Session)

/-- The tracing of a session can be taken out only once. -/
@[simp]
theorem silent_silent : s.silent.silent = s.silent := by
  unfold silent
  dsimp only
  rw [Dictionary.silent_silent, Log.silent_silent]

/-- The dictionary of a silent session is silent. -/
@[simp]
theorem dict_silent : s.silent.dict = s.dict.silent := rfl

/-- An event that is no trace is reported in the same way. -/
theorem silent_report {e : Event} (he : e.isTrace = false) :
    (s.report e).silent = s.silent.report e := by
  unfold silent report
  dsimp only
  rw [Log.silent_record _ _ he]

/-- A trace that is reported is taken out again. -/
theorem silent_report_of_trace {e : Event} (he : e.isTrace = true) :
    (s.report e).silent = s.silent := by
  unfold silent report
  dsimp only
  rw [Log.silent_record_of_trace _ _ he]

/-- What is reported only if something is traced. -/
theorem silent_report_if (traced : Bool) {e : Event} (he : e.isTrace = true) :
    (if traced then s.report e else s).silent = s.silent := by
  cases traced with
  | false => rfl
  | true => exact s.silent_report_of_trace he

/-- A property is set in the same way when the tracing is taken out first. -/
theorem setProp_silent (name : String) (value : Int) :
    s.silent.setProp name value = silent <$> s.setProp name value := by
  unfold setProp
  show (s.props.set name value >>= _) = _
  cases s.props.set name value with
  | error e => rfl
  | ok props => rfl

/-- Sessions that differ in tracing only have the same streams and files. -/
theorem sources_eq {s t : Session} (h : s.silent = t.silent) :
    s.streams = t.streams ∧ s.files = t.files :=
  ⟨(congrArg streams h :), (congrArg files h :)⟩

/-- Printing has nothing to do with the tracing. -/
theorem silent_print (output : Output) (text : String) :
    (s.print output text).silent = s.silent.print output text := by
  obtain ⟨dict, props, chars, streams, files, args, traceAll, execs, creations, halt, clock, log⟩ :=
    s
  rfl

/-- A string is given another body. -/
theorem silent_setBody (name : String) (body : Body) :
    silent { s with dict := s.dict.setBody name body }
      = { s.silent with dict := s.silent.dict.setBody name body } := by
  simp [silent]

/-- A change of the dictionary that comes to the same when the tracing is taken out before it. -/
theorem silent_onDict {change : Dictionary → Dictionary}
    (h : ∀ d, (change d.silent).silent = (change d).silent) :
    (s.silent.onDict change).silent = (s.onDict change).silent := by
  have hdict := h s.dict
  have hlog := s.log.silent_silent
  obtain ⟨dict, props, chars, streams, files, args, traceAll, execs, creations, halt, clock, log⟩ :=
    s
  simp only [silent, onDict] at hdict hlog ⊢
  rw [hdict, hlog]

end Session

end TextMacro
