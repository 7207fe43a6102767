import TextMacro.Proofs.Budget
import TextMacro.Proofs.Lookups
import TextMacro.Proofs.Replacement

/-!
# Programs of definitions

A program that is nothing but definitions, each a call of `ds` with its entries escaped, defines
what it says and does nothing else (`Interpreter.evaluate_definitions`). Every name is bound to the
text of its last definition, the entries of other names stay as they are, and nothing is output. At
the first name whose entry is locked the program fails, and the definitions before it have been
made.

One definition is followed through the rewriting of plain texts (`Rewriter.goes_definition`), and a
program by induction on its definitions (`Rewriter.goes_definitions`).
-/

namespace TextMacro

/-! ## Definitions one after another -/

/-- The entry of a string that has just been defined: it is neither traced nor locked, has no marks,
and nothing of it has been read. -/
structure Function.Fresh (f : Function) (name text : String) : Prop where
  name_eq : f.name = name
  traced_eq : f.traced = false
  locked_eq : f.locked = false
  bounds : f.minArgs = 0 ∧ f.maxArgs = none ∧ f.disposition = .value
  meaning : ∃ body, f.meaning = .defined body ∧ body.units = text.toList.map .char ∧
    body.text.index = 0 ∧ body.segments = 0

/-- The units of a string that has just been defined are its characters. -/
theorem Body.units_ofString (text : String) : (ofString text).units = text.toList.map .char := by
  have hcontent : (ofString text).text.content = TextUnit.encodeAll (text.toList.map .char) :=
    TextUnit.toUTF8_eq_encodeAll text
  unfold units
  rw [hcontent, (TextUnit.splits_encodeAll _).decodeFrom_eq]

/-- A string that has just been defined is fresh. -/
theorem Function.fresh_ofString (name text : String) : (ofString name text).Fresh name text :=
  ⟨rfl, rfl, rfl, ⟨rfl, rfl, rfl⟩, _, rfl, Body.units_ofString text, rfl, rfl⟩

namespace Dictionary

variable {d : Dictionary}

/-- Whether a name has an entry that is locked. -/
def isLocked (d : Dictionary) (name : String) : Bool := (d.function? name).any (·.locked)

/-- What a dictionary is after definitions, of which the last one of a name counts. -/
structure Defines (d d' : Dictionary) (definitions : List (String × String)) : Prop where
  /-- A defined name has a new entry with the text of its last definition. -/
  bound : ∀ {name text : String}, definitions.reverse.lookup name = some text →
    ∃ f, d'.function? name = some f ∧ f.Fresh name text
  /-- The other names have the entries that they had. -/
  kept : ∀ {name : String}, name ∉ definitions.map Prod.fst → d'.function? name = d.function? name
  classes_eq : d'.classes = d.classes
  /-- The names of strings are listed in order, each once. -/
  names_ascending : (d'.names false).Pairwise (· < ·)
  mem_names : ∀ {name : String}, name ∈ d'.names false ↔
    name ∈ d.names false ∨ name ∈ definitions.map Prod.fst

/-- Binds names to texts one after another. -/
def bindAll (d : Dictionary) (definitions : List (String × String)) : Dictionary :=
  definitions.foldl (fun d definition => d.bind definition.1 definition.2) d

variable (definitions : List (String × String))

/-- Definitions of strings leave the classes alone. -/
theorem classes_bindAll (d : Dictionary) : (d.bindAll definitions).classes = d.classes := by
  induction definitions generalizing d with
  | nil => rfl
  | cons definition definitions ih => exact ih (d.bind definition.1 definition.2)

/-- Names can still be looked up behind any number of definitions. -/
theorem Indexed.bindAll (h : d.Indexed) : (d.bindAll definitions).Indexed := by
  induction definitions generalizing d with
  | nil => exact h
  | cons definition definitions ih => exact ih (h.bind _ _)

/-- The last definition of a name counts. -/
theorem Indexed.function?_bindAll (h : d.Indexed) (name : String) :
    (d.bindAll definitions).function? name =
      ((definitions.reverse.lookup name).map (Function.ofString name)).or (d.function? name) := by
  induction definitions generalizing d with
  | nil => rfl
  | cons definition definitions ih =>
    obtain ⟨bound, text⟩ := definition
    have hrest := ih (h.bind bound text)
    rw [h.function?_bind] at hrest
    refine hrest.trans ?_
    rw [List.reverse_cons, List.lookup_append]
    cases definitions.reverse.lookup name with
    | some later => simp
    | none =>
      by_cases hname : name = bound
      · simp [hname]
      · have hbeq : (name == bound) = false := beq_false_of_ne hname
        simp [hname, hbeq, List.lookup_cons]

/-- No text is found for the names that are not defined. -/
theorem lookup_reverse_eq_none_iff {name : String} :
    definitions.reverse.lookup name = none ↔ name ∉ definitions.map Prod.fst := by
  rw [List.lookup_eq_none_iff]
  constructor
  · intro hother hmem
    obtain ⟨definition, hdefinition, rfl⟩ := List.mem_map.mp hmem
    simpa using hother definition (List.mem_reverse.mpr hdefinition)
  · intro hmem definition hdefinition
    refine bne_iff_ne.mpr fun hname => hmem ?_
    rw [hname]
    exact List.mem_map_of_mem (List.mem_reverse.mp hdefinition)

/-- The names of defined strings are listed. -/
theorem Indexed.mem_names (h : d.Indexed) {name : String} :
    name ∈ d.names false ↔ ∃ f, d.function? name = some f ∧ f.isBuiltin = false := by
  unfold names function?
  rw [h.mem_sortedNames]
  simp

/-- Binding names to texts makes the definitions. -/
theorem Indexed.defines_bindAll (h : d.Indexed) :
    d.Defines (d.bindAll definitions) definitions where
  bound {name text} hlookup := by
    refine ⟨.ofString name text, ?_, Function.fresh_ofString name text⟩
    rw [h.function?_bindAll, hlookup]
    rfl
  kept {name} hname := by
    rw [h.function?_bindAll, (lookup_reverse_eq_none_iff definitions).mpr hname]
    rfl
  classes_eq := d.classes_bindAll definitions
  names_ascending := (h.bindAll definitions).sortedNames_ascending _
  mem_names {name} := by
    rw [(h.bindAll definitions).mem_names, h.mem_names, h.function?_bindAll]
    cases hlookup : definitions.reverse.lookup name with
    | none =>
      have hname := (lookup_reverse_eq_none_iff definitions).mp hlookup
      simp [hname]
    | some text =>
      have hname : name ∈ definitions.map Prod.fst := by
        by_contra hname
        rw [(lookup_reverse_eq_none_iff definitions).mpr hname] at hlookup
        simp at hlookup
      exact ⟨fun _ => .inr hname, fun _ => ⟨_, rfl, rfl⟩⟩

/-- Exactly the locked names are refused. -/
theorem unlocked_eq (d : Dictionary) (name : String) :
    d.unlocked name = if d.isLocked name then .error (.locked name) else .ok () := by
  unfold unlocked isLocked
  cases d.function? name with
  | none => rfl
  | some f => rfl

/-- A name that is bound to a text is not locked any more. -/
theorem Indexed.isLocked_bind (h : d.Indexed) (bound text name : String) :
    (d.bind bound text).isLocked name = (decide (name ≠ bound) && d.isLocked name) := by
  unfold isLocked
  rw [h.function?_bind]
  by_cases hname : name = bound
  · rw [if_pos hname, decide_eq_false (not_not.mpr hname)]
    rfl
  · rw [if_neg hname, decide_eq_true hname, Bool.true_and]

end Dictionary

/-! ## Definitions by calls -/

/-- A session in which strings can be defined by calls outside other calls. -/
structure Session.Defining (s : Session) : Prop where
  ready : s.Ready
  indexed : s.dict.Indexed
  depth : 0 < s.props.stackSize
  /-- The builtin is bound to its name, as the catalogue has it. -/
  builtin : ∃ f, s.dict.function? "ds" = some f ∧ f.meaning = .builtin .defineString ∧
    f.minArgs = 2 ∧ f.disposition = .sideEffect

/-- A session in which strings have been defined by calls. -/
def Session.defined (s : Session) (definitions : List (String × String)) (log : Log) : Session :=
  { s with dict := s.dict.bindAll definitions, execs := s.execs + definitions.length, log }

namespace Session

variable {s : Session} {name : String}

/-- Definitions can be made one after another. -/
theorem defined_defined (s : Session) (definition : String × String)
    (definitions : List (String × String)) (log log' : Log) :
    (s.defined [definition] log).defined definitions log'
      = s.defined (definition :: definitions) log' := by
  simp [defined, Dictionary.bindAll, Nat.add_assoc, Nat.add_comm 1]

/-- Further strings can be defined as long as no definition is of `ds`. -/
theorem Defining.defined (h : s.Defining) (hname : name ≠ "ds") (text : String) (log : Log) :
    (s.defined [(name, text)] log).Defining := by
  obtain ⟨f, hf, hbuiltin⟩ := h.builtin
  have hwellFormed := h.ready.wellFormed
  refine ⟨⟨⟨hwellFormed.1.bind name text, hwellFormed.2⟩, h.ready.plain.registerBody name _,
    h.ready.halt_eq⟩, h.indexed.bind name text, h.depth, f, ?_, hbuiltin⟩
  show (s.dict.bind name text).function? "ds" = some f
  rw [h.indexed.function?_bind, if_neg hname.symm, hf]

end Session

namespace Action

variable {s : Session} {name text : String}

/-- Asking for an unlocked name fails with the error about locks or does nothing. -/
theorem require_unlocked (s : Session) (name : String) : require (·.unlocked name) s
    = if s.dict.isLocked name then .error (.locked name) s else .ok () s := by
  show lift (s.dict.unlocked name) s = _
  rw [Dictionary.unlocked_eq]
  cases s.dict.isLocked name with
  | true => rfl
  | false => rfl

/-- Defining a string changes the dictionary and the log, unless the name is locked. -/
theorem defineString_eq (s : Session) (called name text : String) (active : Bool) :
    Builtins.defineString ⟨[called, name, text], active⟩ s
      = if s.dict.isLocked name then .error (.locked name) s
        else .ok "" ((s.onDict (·.bind name text)).report
          (.nameDefined name text.utf8ByteSize)) := by
  show EStateM.bind (require (·.unlocked name)) _ s = _
  unfold EStateM.bind
  rw [require_unlocked]
  cases s.dict.isLocked name <;> rfl

/-- A call that defines a string yields nothing, and changes nothing but the dictionary and the log.
-/
theorem invoke_definition (depth : Nat) (hs : s.Defining) (name text : String) :
    ∃ log, invoke depth ⟨["ds", name, text], true⟩ s
      = if s.dict.isLocked name then .error (.locked name) { s with log }
        else .ok (.sideEffect, "") { s with dict := s.dict.bind name text, log } := by
  obtain ⟨f, hf, hmeaning, hmin, hdisposition⟩ := hs.builtin
  have hperform : ∀ log, perform f.meaning ⟨["ds", name, text], true⟩ { s with log }
      = if s.dict.isLocked name then .error (.locked name) { s with log }
        else .ok "" (({ s with log }.onDict (·.bind name text)).report
          (.nameDefined name text.utf8ByteSize)) := by
    intro log
    rw [hmeaning]
    exact defineString_eq { s with log } "ds" name text true
  have hmany : f.minArgs ≤ (⟨["ds", name, text], true⟩ : Frame).argc := Nat.le_of_eq hmin
  rw [invoke_eq (f := ⟨["ds", name, text], true⟩) depth hf hmany, hdisposition]
  dsimp only
  -- The call may be traced, which the log shows.
  cases s.traceAll || f.traced with
  | false =>
    rw [if_neg Bool.false_ne_true, hperform s.log]
    cases s.dict.isLocked name with
    | true => exact ⟨_, rfl⟩
    | false => exact ⟨_, rfl⟩
  | true =>
    rw [if_pos rfl]
    unfold Session.report
    rw [hperform]
    cases s.dict.isLocked name with
    | true => exact ⟨_, rfl⟩
    | false => exact ⟨_, rfl⟩

end Action

/-- A program of definitions: a call of `ds` for each, with an escape before every character of its
name, the name to be defined and the text. -/
def MetaChars.definitionProgram (m : MetaChars) (definitions : List (String × String)) : String :=
  String.join (definitions.map fun definition =>
    m.quotedCall true "ds" [definition.1, definition.2])

/-- The program for some definitions begins with the call for the first. -/
theorem MetaChars.toList_definitionProgram_cons (m : MetaChars) (name text : String)
    (definitions : List (String × String)) :
    (m.definitionProgram ((name, text) :: definitions)).toList
      = (m.quotedCall true "ds" [name, text]).toList
        ++ (m.definitionProgram definitions).toList := by
  simp [definitionProgram, String.toList_join]

/-- The programs for two lists of definitions are written one behind the other. -/
theorem MetaChars.toList_definitionProgram_append (m : MetaChars)
    (definitions definitions' : List (String × String)) :
    (m.definitionProgram (definitions ++ definitions')).toList
      = (m.definitionProgram definitions).toList ++ (m.definitionProgram definitions').toList := by
  simp [definitionProgram, String.toList_join]

namespace Rewriter

variable {s : Session} {name : String}

/-- A definition comes to where its call is carried out, which fails if the name is locked, and
otherwise makes the definition. -/
theorem goes_definition (name text : String) (rest : List Char) (hs : s.Defining)
    (hbudget : s.execs < s.props.execCount) :
    ∃ log last, Goes ⟨s, [], (s.chars.quotedCall true "ds" [name, text]).toList ++ rest, []⟩ last ∧
      last.keepsWidths = true ∧
      last.step = if s.dict.isLocked name then
          .raised (.locked name) ⟨s.spent 1 s.creations log, [], rest,
            [⟨⟨["ds", name, text], true⟩, [], s.chars⟩]⟩
        else .next ⟨s.defined [(name, text)] log, [], rest, []⟩ := by
  have hfew : [name, text].length < maxEntries := (by decide : 2 < maxEntries)
  obtain ⟨log₁, last, hgoes, hkeeps, hlast⟩ := goes_carryingOut "ds" true [] rest hs.ready hbudget
    hs.depth hfew
  have hspent : (s.spent 1 s.creations log₁).Defining :=
    ⟨hs.ready.spent 1 s.creations log₁, hs.indexed, hs.depth, hs.builtin⟩
  obtain ⟨log₂, hinvoke⟩ := Action.invoke_definition 1 hspent name text
  refine ⟨log₂, last, hgoes, hkeeps, hlast.trans ?_⟩
  unfold finishCall
  dsimp only [List.length_nil]
  rw [hinvoke]
  -- Counting the call has not changed what is locked.
  have hdict : (s.spent 1 s.creations log₁).dict = s.dict := rfl
  rw [hdict]
  cases s.dict.isLocked name with
  | true => rfl
  | false => rfl

/-- Definitions of names that are not locked are made one after another. -/
theorem goes_definitions (definitions : List (String × String)) (rest : List Char)
    (hs : s.Defining) (hbudget : definitions.length ≤ s.callsLeft)
    (hnames : ∀ definition ∈ definitions, definition.1 ≠ "ds")
    (hlocked : ∀ definition ∈ definitions, s.dict.isLocked definition.1 = false) :
    ∃ log, (s.defined definitions log).Defining ∧
      Goes ⟨s, [], (s.chars.definitionProgram definitions).toList ++ rest, []⟩
        ⟨s.defined definitions log, [], rest, []⟩ := by
  induction definitions generalizing s with
  | nil => exact ⟨s.log, hs, .refl _⟩
  | cons definition definitions ih =>
    obtain ⟨name, text⟩ := definition
    rw [List.length_cons, Session.callsLeft] at hbudget
    have hname : name ≠ "ds" := hnames (name, text) List.mem_cons_self
    have hfree : s.dict.isLocked name = false := hlocked (name, text) List.mem_cons_self
    -- The first definition is made.
    obtain ⟨log₁, last, hgoes, hkeeps, hlast⟩ := goes_definition name text
      ((s.chars.definitionProgram definitions).toList ++ rest) hs (by omega)
    rw [if_neg (by simp [hfree])] at hlast
    -- It locks none of the other names.
    have hs₁ : (s.defined [(name, text)] log₁).Defining := hs.defined hname text log₁
    have hlocked₁ : ∀ definition ∈ definitions,
        (s.dict.bind name text).isLocked definition.1 = false := by
      intro definition hdefinition
      have hother := hlocked definition (List.mem_cons_of_mem _ hdefinition)
      rw [hs.indexed.isLocked_bind, hother, Bool.and_false]
    have hbudget₁ : definitions.length ≤ s.props.execCount - (s.execs + 1) := by omega
    have hnames₁ : ∀ definition ∈ definitions, definition.1 ≠ "ds" :=
      fun definition hdefinition => hnames definition (List.mem_cons_of_mem _ hdefinition)
    obtain ⟨log₂, hs₂, hrest⟩ := ih hs₁ hbudget₁ hnames₁ hlocked₁
    rw [Session.defined_defined] at hs₂ hrest
    refine ⟨log₂, hs₂, ?_⟩
    rw [MetaChars.toList_definitionProgram_cons, List.append_assoc]
    exact hgoes.trans (.step hkeeps hlast hrest)

/-- Where steps lead to an end, a run comes to it, however many steps more are allowed. -/
theorem Goes.run_of_le {r last : Rewriter} {rest : Rest} (h : Goes r last)
    (hlast : ∀ fuel, last.run (fuel + 1) = rest) :
    ∃ steps, ∀ fuel, steps ≤ fuel → r.run fuel = rest := by
  induction h with
  | refl r =>
    refine ⟨1, fun fuel hle => ?_⟩
    obtain ⟨more, rfl⟩ : ∃ more, fuel = more + 1 := ⟨fuel - 1, by omega⟩
    exact hlast more
  | step _ hstep _ ih =>
    obtain ⟨steps, hrun⟩ := ih hlast
    refine ⟨steps + 1, fun fuel hle => ?_⟩
    obtain ⟨more, rfl⟩ : ∃ more, fuel = more + 1 := ⟨fuel - 1, by omega⟩
    rw [run, hstep]
    exact hrun more (by omega)

/-- A program of definitions of names that are not locked ends with nothing left to scan. -/
theorem run_definitions (definitions : List (String × String)) (hs : s.Defining)
    (hbudget : definitions.length ≤ s.callsLeft)
    (hnames : ∀ definition ∈ definitions, definition.1 ≠ "ds")
    (hlocked : ∀ definition ∈ definitions, s.dict.isLocked definition.1 = false) :
    ∃ log steps, ∀ fuel, steps ≤ fuel →
      run fuel ⟨s, [], (s.chars.definitionProgram definitions).toList, []⟩
        = .finished ⟨s.defined definitions log, [], [], []⟩ := by
  obtain ⟨log, hdefining, hgoes⟩ := goes_definitions definitions [] hs hbudget hnames hlocked
  rw [List.append_nil] at hgoes
  have hlast : ∀ fuel, run (fuel + 1) ⟨s.defined definitions log, [], [], []⟩
      = .finished ⟨s.defined definitions log, [], [], []⟩ := by
    intro fuel
    rw [run, step_nil (by simp [hdefining.ready.halt_eq]) rfl]
    rfl
  exact ⟨log, hgoes.run_of_le hlast⟩

/-- A program of definitions fails at the first name that is locked, when those before it have been
defined and the failing call has been counted. -/
theorem run_definitions_locked (before after : List (String × String)) (name text : String)
    (hs : s.Defining) (hbudget : before.length < s.callsLeft)
    (hnames : ∀ definition ∈ before, definition.1 ≠ "ds")
    (hbefore : ∀ definition ∈ before, s.dict.isLocked definition.1 = false)
    (hlocked : s.dict.isLocked name = true) :
    ∃ log steps, ∀ fuel, steps ≤ fuel →
      run fuel ⟨s, [], (s.chars.definitionProgram (before ++ (name, text) :: after)).toList, []⟩
        = .raised (.locked name) ⟨{ s with
              dict := s.dict.bindAll before, execs := s.execs + before.length + 1, log },
            [], (s.chars.definitionProgram after).toList,
            [⟨⟨["ds", name, text], true⟩, [], s.chars⟩]⟩ := by
  let behind := (s.chars.definitionProgram after).toList
  obtain ⟨log₁, hs₁, hgoes⟩ := goes_definitions before
    ((s.chars.quotedCall true "ds" [name, text]).toList ++ behind) hs (Nat.le_of_lt hbudget) hnames
    hbefore
  have hmore : s.execs + before.length < s.props.execCount := by
    unfold Session.callsLeft at hbudget
    omega
  obtain ⟨log₂, last, hnext, -, hstep⟩ := goes_definition name text behind hs₁ hmore
  -- The name is not among those before it, and so it is still locked.
  have hother : name ∉ before.map Prod.fst := by
    intro hmem
    obtain ⟨definition, hdefinition, rfl⟩ := List.mem_map.mp hmem
    exact Bool.false_ne_true ((hbefore definition hdefinition).symm.trans hlocked)
  have hstill : (s.dict.bindAll before).isLocked name = true := by
    rw [← hlocked, Dictionary.isLocked, (hs.indexed.defines_bindAll before).kept hother]
    rfl
  have hlast : ∀ fuel, last.run (fuel + 1) = .raised (.locked name) ⟨{ s with
        dict := s.dict.bindAll before, execs := s.execs + before.length + 1, log := log₂ },
      [], behind, [⟨⟨["ds", name, text], true⟩, [], s.chars⟩]⟩ := by
    intro fuel
    rw [run, hstep.trans (if_pos hstill)]
    rfl
  rw [MetaChars.toList_definitionProgram_append, MetaChars.toList_definitionProgram_cons]
  exact ⟨log₂, (hgoes.trans hnext).run_of_le hlast⟩

end Rewriter

namespace Interpreter

variable {t : Interpreter}

/-- A program is evaluated to what the rewriting of it comes to. -/
theorem evaluate_of_run {fuel : Nat} {text : String} {rest : Rewriter.Rest}
    {ending : Ending Failure Outcome} {session : Session} (ht : t.calls = .empty)
    (hrun : Rewriter.run fuel (.start t.session text) = rest)
    (hresult : rest.result? = some (ending, session)) :
    t.evaluate fuel text = (ending, ofSession session) := by
  have hwidths : Rewriter.run fuel (.start t.session text) ≠ .widthsChanged := by
    rw [hrun]
    rintro rfl
    simp [Rewriter.Rest.result?] at hresult
  have hevaluate := evaluate_of_mirrors ht (run_mirrors ht hwidths)
  rw [hrun, hresult] at hevaluate
  exact (Option.some.inj hevaluate).symm

/-- Strings can be defined by calls from a state between programs in which `ds` is the builtin. -/
theorem Reachable.defining {f : Function} (ht : t.Reachable)
    (hfound : t.session.dict.function? "ds" = some f)
    (hmeaning : f.meaning = .builtin .defineString) :
    ({ t.session with halt := none } : Session).Defining := by
  have hcatalogued : t.session.dict.Catalogued := Session.invariant_catalogued.reachable ht
  obtain ⟨entry, hentry, hcode, hmin, hdisposition⟩ := hcatalogued.of_builtin hfound hmeaning
  have honly : ∀ entry ∈ Builtin.catalogue, entry.builtin = .defineString →
      entry.minArgs = 2 ∧ entry.disposition = .sideEffect := by
    decide
  obtain ⟨hargs, hdrops⟩ := honly entry hentry hcode
  exact ⟨⟨ht.wellFormed, Session.invariant_plain.reachable ht, rfl⟩,
    Session.invariant_indexed.reachable ht, Session.invariant_stackSize.reachable ht, f, hfound,
    hmeaning, hmin.trans hargs, hdisposition.trans hdrops⟩

/-- The interpreter in which calls have been counted and another dictionary is left. -/
def leaving (t : Interpreter) (dict : Dictionary) (calls : Nat) (log : Log) : Interpreter :=
  ofSession { t.session with dict, execs := t.session.execs + calls, halt := none, log }

/-- A program of definitions defines exactly what it says. Take a state between programs, with any
meta characters, in which `ds` is bound to its builtin, and any definitions, no more than there are
calls left and none of `ds` unless that is locked. If none of the names is locked, the program
outputs nothing and does not stop early, and leaves a dictionary in which the definitions have been
made. If some are, it fails at the first of them, within that call, when exactly the definitions
before it have been made. Nothing else changes but the number of calls and the log. -/
theorem evaluate_definitions {f : Function} (definitions : List (String × String))
    (ht : t.Reachable) (hfound : t.session.dict.function? "ds" = some f)
    (hmeaning : f.meaning = .builtin .defineString)
    (hnames : ∀ definition ∈ definitions, definition.1 = "ds" → f.locked = true)
    (hbudget : definitions.length ≤ t.session.callsLeft) :
    ((∀ definition ∈ definitions, t.session.dict.isLocked definition.1 = false) →
      ∃ dict log steps, t.session.dict.Defines dict definitions ∧
        ∀ fuel, steps ≤ fuel →
          t.evaluate fuel (t.session.chars.definitionProgram definitions)
            = (.ok ⟨"", none⟩, t.leaving dict definitions.length log)) ∧
    ((∃ definition ∈ definitions, t.session.dict.isLocked definition.1 = true) →
      ∃ before name text after, definitions = before ++ (name, text) :: after ∧
        (∀ definition ∈ before, t.session.dict.isLocked definition.1 = false) ∧
        t.session.dict.isLocked name = true ∧
        ∃ dict log steps, t.session.dict.Defines dict before ∧
          ∀ fuel, steps ≤ fuel →
            t.evaluate fuel (t.session.chars.definitionProgram definitions)
              = (.error ⟨.locked name, [Frame.render ⟨["ds", name, text], true⟩ t.session.chars],
                  "", String.ofList ((t.session.chars.definitionProgram after).toList.take
                    Failure.contextLength)⟩,
                t.leaving dict (before.length + 1) log)) := by
  have hs := ht.defining hfound hmeaning
  have hindexed : t.session.dict.Indexed := Session.invariant_indexed.reachable ht
  -- A definition of `ds` is one of a locked name.
  have hother : ∀ definition ∈ definitions, t.session.dict.isLocked definition.1 = false →
      definition.1 ≠ "ds" := by
    intro definition hdefinition hfree hname
    rw [hname, Dictionary.isLocked, hfound, Option.any_some,
      hnames definition hdefinition hname] at hfree
    exact Bool.noConfusion hfree
  refine ⟨fun hfree => ?_, fun hlocked => ?_⟩
  · have hne := fun definition hdefinition =>
      hother definition hdefinition (hfree definition hdefinition)
    obtain ⟨log, steps, hrun⟩ := Rewriter.run_definitions definitions hs hbudget hne hfree
    refine ⟨_, log, steps, hindexed.defines_bindAll definitions, fun fuel hle => ?_⟩
    exact evaluate_of_run ht.calls_eq (hrun fuel hle) rfl
  · -- The first locked name is looked for.
    obtain ⟨⟨name, text⟩, hfind⟩ := Option.isSome_iff_exists.mp (List.find?_isSome.mpr hlocked)
    obtain ⟨hname, before, after, rfl, hbefore⟩ := List.find?_eq_some_iff_append.mp hfind
    have hfree : ∀ definition ∈ before, t.session.dict.isLocked definition.1 = false := by
      intro definition hdefinition
      simpa using hbefore definition hdefinition
    have hne : ∀ definition ∈ before, definition.1 ≠ "ds" := fun definition hdefinition =>
      hother definition (List.mem_append_left _ hdefinition) (hfree definition hdefinition)
    have hless : before.length < t.session.callsLeft := by
      rw [List.length_append, List.length_cons] at hbudget
      omega
    obtain ⟨log, steps, hrun⟩ := Rewriter.run_definitions_locked before after name text hs hless hne
      hfree hname
    refine ⟨before, name, text, after, rfl, hfree, hname, _, log, steps,
      hindexed.defines_bindAll before, fun fuel hle => ?_⟩
    exact evaluate_of_run ht.calls_eq (hrun fuel hle) rfl

/-- An interpreter with meta characters that each take up more than one byte. -/
def foreign : Interpreter :=
  { fresh with session := { fresh.session with chars := ⟨'→', '«', '·', '»', '¦', '\n'⟩ } }

/-- The session with other meta characters can come about. -/
theorem reachable_foreign : foreign.Reachable :=
  .rebind "→«·»¦" reachable_fresh rfl

/-- Meta characters can be defined and a name twice, and `ds` cannot be defined while it is locked.
-/
theorem evaluate_definitions_foreign :
    (∃ dict log steps,
      foreign.session.dict.Defines dict [("a", "«→"), ("é", ""), ("a", "»¦·")] ∧
      ∀ fuel, steps ≤ fuel →
        foreign.evaluate fuel "→«¦d¦s·¦a·¦«¦→»→«¦d¦s·¦é·»→«¦d¦s·¦a·¦»¦¦¦·»"
          = (.ok ⟨"", none⟩, foreign.leaving dict 3 log)) ∧
    (∃ dict log steps, foreign.session.dict.Defines dict [("a", "x")] ∧
      ∀ fuel, steps ≤ fuel →
        foreign.evaluate fuel "→«¦d¦s·¦a·¦x»→«¦d¦s·¦d¦s·¦y»→«¦d¦s·¦b·¦z»"
          = (.error ⟨.locked "ds", ["→«ds·ds·y»"], "", "→«¦d¦s·¦b·¦z»"⟩,
            foreign.leaving dict 2 log)) := by
  have hfacts : foreign.session.dict.isLocked "a" = false ∧
      foreign.session.dict.isLocked "é" = false ∧ foreign.session.dict.isLocked "ds" = true ∧
      3 ≤ foreign.session.callsLeft := by
    decide +kernel
  obtain ⟨ha, hé, hds, hbudget⟩ := hfacts
  have hentry : (⟨"ds", 2, some 2, .sideEffect, .defineString⟩ : Builtin.Entry)
      ∈ Builtin.catalogue := List.mem_cons_self
  have hfound := Dictionary.function?_initial hentry
  constructor
  · have hall := evaluate_definitions [("a", "«→"), ("é", ""), ("a", "»¦·")] reachable_foreign
      hfound rfl (fun _ _ _ => rfl) hbudget
    exact hall.1 (by simp [ha, hé])
  · have hall := evaluate_definitions [("a", "x"), ("ds", "y"), ("b", "z")] reachable_foreign
      hfound rfl (fun _ _ _ => rfl) hbudget
    obtain ⟨before, name, text, after, hsplit, hbefore, hname, hleaves⟩ :=
      hall.2 ⟨("ds", "y"), by simp, hds⟩
    -- The first locked name is the second one.
    match before with
    | [] =>
      obtain ⟨⟨rfl, rfl⟩, rfl⟩ : ("a" = name ∧ "x" = text) ∧ _ = after := by simpa using hsplit
      exact absurd (ha.symm.trans hname) Bool.false_ne_true
    | [definition] =>
      obtain ⟨rfl, ⟨rfl, rfl⟩, rfl⟩ :
          ("a", "x") = definition ∧ ("ds" = name ∧ "y" = text) ∧ _ = after := by
        simpa using hsplit
      exact hleaves
    | definition :: definition' :: before =>
      obtain ⟨-, rfl, -⟩ : ("a", "x") = definition ∧ ("ds", "y") = definition' ∧ _ := by
        simpa using hsplit
      have hfree := hbefore ("ds", "y") (by simp)
      exact absurd (hfree.symm.trans hds) Bool.false_ne_true

end Interpreter

end TextMacro
