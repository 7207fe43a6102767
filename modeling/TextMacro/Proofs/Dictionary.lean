import TextMacro.Proofs.Bodies
import TextMacro.Proofs.SymbolTable

/-!
# Well-formed dictionaries

In a well-formed dictionary every entry stands under its own name, and the body of every defined
string is well formed. Every operation that changes the functions keeps this. None of the questions
that are asked of a dictionary is answered with an error about bytes that are no unit or with one of
the scanner's own (`Clean`).
-/

namespace TextMacro

/-- Whether an error says that bytes are no unit. -/
def Error.malformed : Error → Bool
  | .badUnit _ => true
  | _ => false

/-- Whether an error is about the stack of calls or their budget, which only the scanner has. -/
def Error.ofScanner : Error → Bool
  | .stackOverflow _ | .stackUnderflow | .execsExhausted _ => true
  | _ => false

/-- A result that is no error about bytes that are no unit and none of the scanner's own. -/
def Clean {α : Type} (result : Except Error α) : Prop :=
  ∀ e, result = .error e → (e.malformed || e.ofScanner) = false

namespace Clean

variable {α β : Type}

/-- A value is no error at all. -/
theorem ok (a : α) : Clean (.ok a : Except Error α) := by
  intro e he
  simp at he

/-- An error of another kind is clean. -/
theorem error {e : Error} (h : (e.malformed || e.ofScanner) = false) :
    Clean (.error e : Except Error α) := by
  intro e' he
  obtain rfl : e = e' := by simpa using he
  exact h

/-- A result that is clean is no error about bytes that are no unit. -/
theorem malformed_eq_false {result : Except Error α} {e : Error} (h : Clean result)
    (he : result = .error e) : e.malformed = false :=
  (Bool.or_eq_false_iff.mp (h e he)).1

/-- A result that is handed on. -/
theorem bind {result : Except Error α} {next : α → Except Error β} (h : Clean result)
    (hnext : ∀ a, Clean (next a)) : Clean (result >>= next) := by
  cases result with
  | error e => exact error (h e rfl)
  | ok a => exact hnext a

/-- A result that is changed. -/
theorem map {result : Except Error α} (h : Clean result) (f : α → β) : Clean (f <$> result) := by
  cases result with
  | error e => exact error (h e rfl)
  | ok a => exact ok (f a)

/-- Results of a list one after another. -/
theorem mapM {f : α → Except Error β} (h : ∀ a, Clean (f a)) (l : List α) : Clean (l.mapM f) := by
  induction l with
  | nil => exact ok []
  | cons a l ih =>
    rw [List.mapM_cons]
    exact (h a).bind fun b => ih.bind fun bs => ok (b :: bs)

/-- A list that is combined step by step. -/
theorem foldlM {f : β → α → Except Error β} (h : ∀ b a, Clean (f b a)) (l : List α) (b : β) :
    Clean (l.foldlM f b) := by
  induction l generalizing b with
  | nil => exact ok b
  | cons a l ih =>
    rw [List.foldlM_cons]
    exact (h b a).bind ih

end Clean

/-- An entry stands under its own name, and its body is well formed if it has one. -/
def Function.WellFormed (name : String) (f : Function) : Prop :=
  f.name = name ∧ ∀ body, f.meaning = .defined body → body.WellFormed

/-- All entries stand under their own names, and all bodies are well formed. -/
def Dictionary.WellFormed (d : Dictionary) : Prop :=
  d.functions.All Function.WellFormed

namespace Function

/-- The body of a defined string is changed. -/
theorem WellFormed.onBody {name : String} {f : Function} {change : Body → Body}
    (h : WellFormed name f) (hchange : ∀ body, body.WellFormed → (change body).WellFormed) :
    WellFormed name (f.onBody change) := by
  obtain ⟨fname, meaning, traced, locked, minArgs, maxArgs, disposition⟩ := f
  cases meaning with
  | builtin code => exact h
  | defined body =>
    refine ⟨h.1, fun changed hchanged => ?_⟩
    obtain rfl : change body = changed := by simpa [Function.onBody] using hchanged
    exact hchange body (h.2 body rfl)

end Function

namespace Dictionary

variable {d : Dictionary}

/-! ## Questions -/

/-- The function of a name. -/
theorem WellFormed.function? {name : String} {f : Function} (h : d.WellFormed)
    (hf : d.function? name = some f) : f.WellFormed name :=
  h.get? hf

/-- The body of a defined string is well formed. -/
theorem WellFormed.body {name : String} {body : Body} (h : d.WellFormed)
    (hbody : d.body name = .ok body) : body.WellFormed := by
  unfold Dictionary.body at hbody
  split at hbody
  · rename_i fname found traced locked minArgs maxArgs disposition hfound
    obtain rfl : found = body := by simpa using hbody
    exact (h.function? hfound).2 found rfl
  · simp at hbody
  · simp at hbody

/-- A name without a body is refused with an error about the name. -/
theorem clean_body (d : Dictionary) (name : String) : Clean (d.body name) := by
  unfold Dictionary.body
  split
  · exact .ok _
  · exact .error rfl
  · exact .error rfl

/-- A name without a function is refused with an error about the name. -/
theorem clean_function (d : Dictionary) (name : String) : Clean (d.function name) := by
  unfold Dictionary.function
  split
  · exact .ok _
  · exact .error rfl

/-- A name without a class is refused with an error about the name. -/
theorem clean_charClass (d : Dictionary) (name : String) : Clean (d.charClass name) := by
  unfold Dictionary.charClass
  split
  · exact .ok _
  · exact .error rfl

/-- A name that is not bound is refused with an error about the name. -/
theorem clean_bound (d : Dictionary) (name : String) : Clean (d.bound name) := by
  unfold Dictionary.bound
  split
  · exact .ok _
  · exact .error rfl

/-- A locked name is refused with an error about the name. -/
theorem clean_unlocked (d : Dictionary) (name : String) : Clean (d.unlocked name) := by
  unfold Dictionary.unlocked
  split
  · split
    · exact .error rfl
    · exact .ok _
  · exact .ok _

/-- The name of a builtin is refused with an error about the name. -/
theorem clean_extensible (d : Dictionary) (name : String) : Clean (d.extensible name) := by
  unfold Dictionary.extensible
  split
  · split
    · exact .error rfl
    · exact .ok _
  · exact .ok _

/-! ## Changes -/

/-- A well-formed entry is entered under its own name. -/
theorem WellFormed.register {f : Function} (h : d.WellFormed)
    (hf : ∀ body, f.meaning = .defined body → body.WellFormed) : (d.register f).WellFormed :=
  h.insert ⟨rfl, hf⟩

/-- A name is bound to a well-formed body. -/
theorem WellFormed.registerBody {name : String} {body : Body} (h : d.WellFormed)
    (hbody : body.WellFormed) : (d.register (.ofBody name body)).WellFormed := by
  refine h.register fun other hother => ?_
  obtain rfl : body = other := by simpa [Function.ofBody] using hother
  exact hbody

/-- The body of a string that has just been defined is well formed. -/
theorem WellFormed.bind (h : d.WellFormed) (name text : String) : (d.bind name text).WellFormed :=
  h.registerBody (Body.wellFormed_ofString text)

/-- An entry is changed to a well-formed one of the same name. -/
theorem WellFormed.modify {change : Function → Function} (h : d.WellFormed) (name : String)
    (hchange : ∀ name f, f.WellFormed name → (change f).WellFormed name) :
    (d.modify name change).WellFormed :=
  SymbolTable.All.modify h hchange

/-- A string is given another well-formed body. -/
theorem WellFormed.setBody {body : Body} (h : d.WellFormed) (name : String)
    (hbody : body.WellFormed) : (d.setBody name body).WellFormed := by
  refine h.modify name fun name f hf => ⟨hf.1, fun other hother => ?_⟩
  obtain rfl : body = other := by simpa using hother
  exact hbody

/-- Text that is added is units as well. -/
theorem WellFormed.extend (h : d.WellFormed) (name text : String) :
    (d.extend name text).WellFormed := by
  have happend : ∀ name f, Function.WellFormed name f →
      Function.WellFormed name (f.onBody (·.append text)) :=
    fun _ _ hf => hf.onBody fun _ hbody => hbody.append text
  unfold Dictionary.extend
  dsimp only
  split
  · exact h.modify name happend
  · exact (h.bind name "").modify name happend

/-- The entries that are left when a name is removed are well formed. -/
theorem WellFormed.unbind (h : d.WellFormed) (name : String) : (d.unbind name).WellFormed :=
  SymbolTable.All.erase h

/-- Locking all entries leaves their names and bodies as they are. -/
theorem WellFormed.lockAll (h : d.WellFormed) : d.lockAll.WellFormed :=
  SymbolTable.All.map h fun _ _ hf => hf

/-- The dictionary that a session starts with has no bodies. -/
theorem wellFormed_initial : initial.WellFormed := by
  have hfold : ∀ (entries : List Builtin.Entry) (d : Dictionary), d.WellFormed →
      (entries.foldl (fun d entry => d.register (.ofEntry entry)) d).WellFormed := by
    intro entries
    induction entries with
    | nil => exact fun _ h => h
    | cons entry entries ih =>
      intro d h
      refine ih _ (h.register fun body hbody => ?_)
      simp [Function.ofEntry] at hbody
  have hempty : empty.WellFormed := SymbolTable.all_empty
  exact (hfold _ _ hempty).lockAll

end Dictionary

end TextMacro
