import TextMacro.Proofs.Changes
import TextMacro.Proofs.FiniteMaps

/-!
# What names are bound to

The functions of a dictionary are an indexed table in every session, so that an operation on one
name leaves the other names bound to what they were bound to (`function?_register` and the like). A
session starts with every builtin of the catalogue under its name (`function?_initial`), and the
entry of a builtin stays as the catalogue has it (`Session.invariant_catalogued`).
-/

namespace TextMacro

namespace Dictionary

variable {d : Dictionary}

/-- The functions can be looked up by name. -/
def Indexed (d : Dictionary) : Prop := d.functions.Indexed

/-! ## Lookups after a change -/

/-- An entry that is entered can be looked up. -/
theorem Indexed.register (h : d.Indexed) (f : Function) : (d.register f).Indexed :=
  SymbolTable.Indexed.insert h f.name f

/-- A changed entry can be looked up as before. -/
theorem Indexed.modify (h : d.Indexed) (name : String) (change : Function → Function) :
    (d.modify name change).Indexed :=
  SymbolTable.Indexed.modify h name change

/-- The entries that are left can be looked up. -/
theorem Indexed.unbind (h : d.Indexed) (name : String) : (d.unbind name).Indexed :=
  SymbolTable.Indexed.erase h name

/-- A string that is defined can be looked up. -/
theorem Indexed.bind (h : d.Indexed) (name text : String) : (d.bind name text).Indexed :=
  h.register _

/-- A string that text is added to can be looked up. -/
theorem Indexed.extend (h : d.Indexed) (name text : String) : (d.extend name text).Indexed := by
  unfold Dictionary.extend
  dsimp only
  split
  · exact h.modify name _
  · exact (h.bind name "").modify name _

/-- The function with its entry locked. -/
theorem functions_lockAll (d : Dictionary) :
    d.lockAll.functions = d.functions.map ({ · with locked := true }) := rfl

/-- Locked entries can be looked up. -/
theorem Indexed.lockAll (h : d.Indexed) : d.lockAll.Indexed := by
  unfold Indexed
  rw [functions_lockAll]
  exact SymbolTable.Indexed.map h _

/-- A function is entered under its own name. -/
theorem Indexed.function?_register (h : d.Indexed) (f : Function) (name : String) :
    (d.register f).function? name = if name = f.name then some f else d.function? name :=
  SymbolTable.Indexed.get?_insert h f.name name f

/-- A name is bound to a string. -/
theorem Indexed.function?_bind (h : d.Indexed) (bound text name : String) :
    (d.bind bound text).function? name
      = if name = bound then some (.ofString bound text) else d.function? name :=
  h.function?_register (.ofString bound text) name

/-- The function of one name is changed. -/
theorem Indexed.function?_modify (h : d.Indexed) (changed name : String)
    (change : Function → Function) :
    (d.modify changed change).function? name
      = if name = changed then (d.function? changed).map change else d.function? name :=
  SymbolTable.Indexed.get?_modify h changed name change

/-- One name is removed. -/
theorem Indexed.function?_unbind (h : d.Indexed) (removed name : String) :
    (d.unbind removed).function? name
      = if name = removed then none else d.function? name :=
  SymbolTable.Indexed.get?_erase h removed name

/-- A name is bound if it has a function. -/
theorem Indexed.contains_eq (h : d.Indexed) (name : String) :
    d.contains name = (d.function? name).isSome :=
  SymbolTable.Indexed.contains_eq h name

/-- Text is added to the string of one name, which may have had none. -/
theorem Indexed.function?_extend (h : d.Indexed) (extended text name : String) :
    (d.extend extended text).function? name
      = if name = extended then
          some (((d.function? extended).getD (.ofString extended "")).onBody (·.append text))
        else d.function? name := by
  unfold Dictionary.extend
  dsimp only
  rw [h.contains_eq]
  cases hfound : d.function? extended with
  | some f =>
    rw [if_pos Option.isSome_some, h.function?_modify, hfound]
    rfl
  | none =>
    rw [if_neg (by simp), (h.bind extended "").function?_modify]
    by_cases hname : name = extended
    · rw [if_pos hname, if_pos hname, h.function?_bind, if_pos rfl]
      rfl
    · rw [if_neg hname, if_neg hname, h.function?_bind, if_neg hname]

/-! ## The dictionary that a session starts with -/

/-- Entries of builtins are entered one after another. -/
def registerAll (d : Dictionary) (entries : List Builtin.Entry) : Dictionary :=
  entries.foldl (fun d entry => d.register (.ofEntry entry)) d

/-- Any number of entries can be looked up when they have been entered. -/
theorem Indexed.registerAll (h : d.Indexed) (entries : List Builtin.Entry) :
    (d.registerAll entries).Indexed := by
  induction entries generalizing d with
  | nil => exact h
  | cons entry entries ih => exact ih (h.register _)

/-- Names that are not among those of the entries are bound as before. -/
theorem Indexed.function?_registerAll_of_notMem (h : d.Indexed) {entries : List Builtin.Entry}
    {name : String} (hname : name ∉ entries.map Builtin.Entry.name) :
    (d.registerAll entries).function? name = d.function? name := by
  induction entries generalizing d with
  | nil => rfl
  | cons entry entries ih =>
    rw [List.map_cons, List.mem_cons, not_or] at hname
    have hrest := ih (h.register (.ofEntry entry)) hname.2
    rw [h.function?_register] at hrest
    exact hrest.trans (if_neg hname.1)

/-- If their names are different, every entry is found under its name. -/
theorem Indexed.function?_registerAll (h : d.Indexed) {entries : List Builtin.Entry}
    (hnames : (entries.map Builtin.Entry.name).Nodup) {entry : Builtin.Entry}
    (hentry : entry ∈ entries) :
    (d.registerAll entries).function? entry.name = some (.ofEntry entry) := by
  induction entries generalizing d with
  | nil => simp at hentry
  | cons first entries ih =>
    obtain ⟨hfirst, hrest⟩ := List.nodup_cons.mp hnames
    rcases List.mem_cons.mp hentry with rfl | hmem
    · have hkept := (h.register (.ofEntry entry)).function?_registerAll_of_notMem hfirst
      rw [h.function?_register] at hkept
      exact hkept.trans (if_pos rfl)
    · exact ih (h.register _) hrest hmem

/-- Without entries there is nothing to look up. -/
theorem indexed_empty : empty.Indexed := SymbolTable.indexed_empty

/-- The builtins of the initial dictionary can be looked up. -/
theorem indexed_initial : initial.Indexed :=
  (indexed_empty.registerAll Builtin.catalogue).lockAll

/-- No two builtins have the same name. -/
theorem nodup_catalogue : (Builtin.catalogue.map Builtin.Entry.name).Nodup := by
  decide +kernel

/-- To begin with, every builtin of the catalogue is bound to its name, and locked. -/
theorem function?_initial {entry : Builtin.Entry} (hentry : entry ∈ Builtin.catalogue) :
    initial.function? entry.name = some { Function.ofEntry entry with locked := true } := by
  have hbound := indexed_empty.function?_registerAll nodup_catalogue hentry
  have hinitial : initial = (empty.registerAll Builtin.catalogue).lockAll := rfl
  rw [hinitial]
  unfold function? at hbound ⊢
  rw [functions_lockAll, SymbolTable.get?_map, hbound]
  rfl

end Dictionary

/-! ## Builtins stay as they are -/

/-- A builtin is entered as the catalogue has it, but for being traced and locked. -/
def Function.Catalogued (name : String) (f : Function) : Prop :=
  f.isBuiltin = true → ∃ entry ∈ Builtin.catalogue, entry.name = name ∧
    f = { Function.ofEntry entry with traced := f.traced, locked := f.locked }

/-- A builtin has no body that could be changed. -/
theorem Function.Catalogued.onBody {name : String} {f : Function} (h : f.Catalogued name)
    (change : Body → Body) : (f.onBody change).Catalogued name := by
  obtain ⟨fname, meaning, traced, locked, minArgs, maxArgs, disposition⟩ := f
  cases meaning with
  | builtin code => exact h
  | defined body => exact fun hbuiltin => absurd hbuiltin Bool.false_ne_true

/-- The entry may become traced or not, and locked or not. -/
theorem Function.Catalogued.relabel {name : String} {f : Function} (h : f.Catalogued name)
    (traced locked : Bool) : Catalogued name { f with traced, locked } := by
  intro hbuiltin
  obtain ⟨entry, hentry, hname, heq⟩ := h hbuiltin
  refine ⟨entry, hentry, hname, ?_⟩
  rw [heq]

/-- All builtins are entered as the catalogue has them. -/
def Dictionary.Catalogued (d : Dictionary) : Prop :=
  d.functions.All Function.Catalogued

namespace Dictionary

variable {d : Dictionary}

/-- A defined string is no builtin. -/
theorem Catalogued.registerBody (h : d.Catalogued) (name : String) (body : Body) :
    (d.register (.ofBody name body)).Catalogued :=
  SymbolTable.All.insert h fun hbuiltin => absurd hbuiltin Bool.false_ne_true

/-- An entry is changed to one that is as the catalogue has it, if it is a builtin. -/
theorem Catalogued.modify {change : Function → Function} (h : d.Catalogued) (name : String)
    (hchange : ∀ name f, f.Catalogued name → (change f).Catalogued name) :
    (d.modify name change).Catalogued :=
  SymbolTable.All.modify h hchange

/-- Adding text to a string leaves the builtins as they are. -/
theorem Catalogued.extend (h : d.Catalogued) (name text : String) :
    (d.extend name text).Catalogued := by
  unfold Dictionary.extend
  dsimp only
  split
  · exact h.modify name fun _ _ hf => hf.onBody _
  · exact (h.registerBody name _).modify name fun _ _ hf => hf.onBody _

/-- The initial dictionary has the builtins as the catalogue has them. -/
theorem catalogued_initial : initial.Catalogued := by
  have hfold : ∀ (entries : List Builtin.Entry) (d : Dictionary), d.Catalogued →
      (∀ entry ∈ entries, entry ∈ Builtin.catalogue) → (d.registerAll entries).Catalogued := by
    intro entries
    induction entries with
    | nil => exact fun _ h _ => h
    | cons entry entries ih =>
      intro d h hentries
      have hentry := hentries entry List.mem_cons_self
      refine ih _ (SymbolTable.All.insert h fun _ => ⟨entry, hentry, rfl, rfl⟩) ?_
      exact fun other hother => hentries other (List.mem_cons_of_mem _ hother)
  have hcatalogue := hfold Builtin.catalogue empty SymbolTable.all_empty fun _ hentry => hentry
  exact SymbolTable.All.map hcatalogue fun _ f hf => hf.relabel f.traced true

/-- The entry of a builtin is that of the catalogue for its code. -/
theorem Catalogued.of_builtin {name : String} {f : Function} {code : Builtin} (h : d.Catalogued)
    (hf : d.function? name = some f) (hmeaning : f.meaning = .builtin code) :
    ∃ entry ∈ Builtin.catalogue, entry.builtin = code ∧ f.minArgs = entry.minArgs ∧
      f.disposition = entry.disposition := by
  have hbuiltin : f.isBuiltin = true := by
    unfold Function.isBuiltin
    rw [hmeaning]
  obtain ⟨entry, hentry, -, heq⟩ := h.get? hf hbuiltin
  rw [heq] at hmeaning ⊢
  exact ⟨entry, hentry, Meaning.builtin.inj hmeaning, rfl, rfl⟩

end Dictionary

/-- Builtins are entered as the catalogue has them, whatever has happened. -/
theorem Session.invariant_catalogued : Session.Invariant fun s => s.dict.Catalogued where
  start _ _ _ _ := Dictionary.catalogued_initial
  change hchange hs := by
    cases hchange with
    | bind => exact hs.registerBody _ _
    | extend => exact hs.extend _ _
    | copy => exact hs.registerBody _ _
    | unbind => exact SymbolTable.All.erase hs
    | body => exact hs.modify _ fun _ _ _ hbuiltin => absurd hbuiltin Bool.false_ne_true
    | lock => exact hs.modify _ fun _ _ hf => hf.relabel _ _
    | trace => exact hs.modify _ fun _ _ hf => hf.relabel _ _
    | setProp hset =>
      obtain ⟨p, -, -, rfl⟩ := eq_of_setProp hset
      exact hs
    | _ => exact hs
  counted hs := hs
  surroundings _ _ _ _ _ _ hs := hs

/-- The functions can be looked up by name, whatever has happened. -/
theorem Session.invariant_indexed : Session.Invariant fun s => s.dict.Indexed where
  start _ _ _ _ := Dictionary.indexed_initial
  change hchange hs := by
    cases hchange with
    | bind => exact hs.register _
    | extend => exact hs.extend _ _
    | copy => exact hs.register _
    | unbind => exact hs.unbind _
    | body => exact hs.modify _ _
    | lock => exact hs.modify _ _
    | trace => exact hs.modify _ _
    | setProp hset =>
      obtain ⟨p, -, -, rfl⟩ := eq_of_setProp hset
      exact hs
    | _ => exact hs
  counted hs := hs
  surroundings _ _ _ _ _ _ hs := hs

end TextMacro
