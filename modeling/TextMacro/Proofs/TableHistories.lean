import Mathlib.Data.Set.Card
import TextMacro.Proofs.FiniteMaps
import TextMacro.Proofs.TextOrder

/-!
# Histories of symbol tables

A symbol table is a map from names to values, whatever has been done to it since it was empty: every
operation answers as it would on the map, and what a table shows of itself is what the map has
(`histories_agree`). The map is a function here, with finitely many names that have a value, and the
operations on it are plain updates of a function (`Operation.onBindings`).

The map of a table is its lookup, `get?`, and one operation on the table is the same operation on
the lookup (`onBindings_get?`). What else a table shows follows from two facts that each operation
keeps: the table is indexed, and its size is the number of its entries (`Counted`). The entries of
an indexed table are as many as the names that have a value (`Indexed.ncard_bound`), so that counting
them is a matter of sets of names.
-/

namespace TextMacro.SymbolTable

variable {α : Type} {t : SymbolTable α}

/-- What can be done to a table. -/
inductive Operation (α : Type) where
  | insert (name : String) (value : α)
  | remove (name : String)
  /-- A name is looked up, and given a value at the location that was found. -/
  | insertLocated (name : String) (value : α)
  /-- A name is looked up, and the entry at the location that was found is removed. -/
  | removeLocated (name : String)
  /-- The value of a name is changed where it stands. -/
  | update (name : String) (change : α → α)
  /-- All values are changed where they stand. -/
  | updateAll (change : String → α → α)
  | retain (keep : String → α → Bool)
  | clear

/-- The values of names. -/
abbrev Bindings (α : Type) := String → Option α

/-- The names that have a value. -/
def Bindings.bound (m : Bindings α) : Set String := {name | (m name).isSome = true}

/-- The bound names are those that have a value. -/
theorem Bindings.mem_bound {m : Bindings α} {name : String} :
    name ∈ m.bound ↔ (m name).isSome = true := Iff.rfl

namespace Operation

/-- Carries out an operation on a table. What is yielded is the value that was found under the name,
if the operation is about one name. -/
def onTable (op : Operation α) (t : SymbolTable α) : Option α × SymbolTable α :=
  match op with
  | insert name value => t.exchange name value
  | remove name => t.take name
  | insertLocated name value =>
    let place := t.locate name
    t.exchangeAt place name value
  | removeLocated name =>
    let place := t.locate name
    t.takeAt place
  | update name change => (t.get? name, t.modify name change)
  | updateAll change => (none, t.mapEntries change)
  | retain keep => (none, t.filter keep)
  | clear => (none, t.clear)

/-- Carries out an operation on a map. -/
def onBindings (op : Operation α) (m : Bindings α) : Option α × Bindings α :=
  match op with
  | insert name value | insertLocated name value =>
    (m name, Function.update m name (some value))
  | remove name | removeLocated name => (m name, Function.update m name none)
  | update name change => (m name, Function.update m name ((m name).map change))
  | updateAll change => (none, fun name => (m name).map (change name))
  | retain keep => (none, fun name => (m name).filter (keep name))
  | clear => (none, fun _ => none)

end Operation

/-- Carries out operations one after another, and yields what they yield. -/
def performAll {σ : Type} (step : Operation α → σ → Option α × σ) :
    List (Operation α) → σ → List (Option α) × σ
  | [], s => ([], s)
  | op :: ops, s =>
    let (answer, s) := step op s
    let (answers, s) := performAll step ops s
    (answer :: answers, s)

/-- What a table shows is what a map has. -/
structure Shows (t : SymbolTable α) (m : Bindings α) : Prop where
  get? : ∀ name, t.get? name = m name
  contains : ∀ name, t.contains name = (m name).isSome
  finite : m.bound.Finite
  size : t.size = m.bound.ncard
  isEmpty : t.isEmpty = true ↔ ∀ name, m name = none
  mem_toList : ∀ name value, (name, value) ∈ t.toList ↔ m name = some value
  /-- No name is listed twice, so that no entry is. -/
  nodup : (t.toList.map Prod.fst).Nodup
  mem_sortedNames : ∀ keep name,
    name ∈ t.sortedNames keep ↔ ∃ value, m name = some value ∧ keep value = true
  /-- The bytes of each name come before those of the names that follow it. -/
  ascending : ∀ keep, (t.sortedNames keep).Pairwise fun a b => Utf8.bytes a < Utf8.bytes b

/-- The representation of a table. -/
structure Sound (t : SymbolTable α) : Prop where
  /-- A slot is in the chain that the first byte of its name chooses, and carries the hash of its
  name, which is not zero. -/
  placed : ∀ i, ∀ slot ∈ t.chain i,
    chainOf slot.name = i ∧ slot.hash = hash slot.name ∧ slot.hash ≠ 0
  /-- No name is in two slots. -/
  distinct : ((List.finRange chainCount).flatMap fun i => (t.chain i).map Slot.name).Nodup
  /-- The size is the number of slots. -/
  size : t.size = (t.chains.toList.map Array.size).sum

/-! ## Operations on a table are operations on its lookups -/

/-- An operation keeps a table indexed. -/
theorem Indexed.onTable (h : t.Indexed) (op : Operation α) : (op.onTable t).2.Indexed := by
  cases op with
  | insert name value | insertLocated name value => exact h.insert name value
  | remove name | removeLocated name => exact h.erase name
  | update name change => exact h.modify name change
  | updateAll change => exact h.mapEntries change
  | retain keep => exact h.filter keep
  | clear =>
    show t.clear.Indexed
    rw [clear_eq]
    exact indexed_empty

/-- One operation on a table is the operation on its lookups. -/
theorem Indexed.onBindings_get? (h : t.Indexed) (op : Operation α) :
    op.onBindings t.get? = ((op.onTable t).1, (op.onTable t).2.get?) := by
  have hupdate : ∀ {t' : SymbolTable α} {name : String} {value : Option α},
      (∀ other, t'.get? other = if other = name then value else t.get? other) →
      Function.update t.get? name value = t'.get? := by
    intro t' name value hget
    refine funext fun other => ?_
    rw [Function.update_apply, hget]
  cases op with
  | insert name value | insertLocated name value =>
    exact Prod.ext rfl (hupdate fun other => h.get?_insert name other value)
  | remove name | removeLocated name =>
    exact Prod.ext rfl (hupdate fun other => h.get?_erase name other)
  | update name change =>
    exact Prod.ext rfl (hupdate fun other => h.get?_modify name other change)
  | updateAll change =>
    exact Prod.ext rfl (funext fun name => (t.get?_mapEntries change name).symm)
  | retain keep => exact Prod.ext rfl (funext fun name => (h.get?_filter name keep).symm)
  | clear =>
    refine Prod.ext rfl (funext fun name => ?_)
    show none = t.clear.get? name
    rw [clear_eq, get?_empty]

/-! ## Counting entries -/

/-- The size of a table is the number of its entries. -/
def Counted (t : SymbolTable α) : Prop := t.size = t.toList.length

/-- The entries are the slots of all chains. -/
theorem length_toList (t : SymbolTable α) :
    t.toList.length = (t.chains.toList.map Array.size).sum := by
  unfold toList
  simp [List.length_flatMap]

/-- A table without entries has size zero. -/
theorem counted_empty : (empty : SymbolTable α).Counted := by
  have hentries : (empty : SymbolTable α).toList = [] := by
    simp [toList_eq, chain_empty]
  unfold Counted
  rw [hentries]
  rfl

/-- The names that have a value are as many as the entries. -/
theorem Indexed.ncard_bound (h : t.Indexed) :
    (Bindings.bound t.get?).Finite ∧ (Bindings.bound t.get?).ncard = t.toList.length := by
  have hbound : Bindings.bound t.get? = ↑(t.toList.map Prod.fst).toFinset := by
    refine Set.ext fun name => ?_
    rw [Bindings.mem_bound, Option.isSome_iff_exists, Finset.mem_coe, List.mem_toFinset,
      List.mem_map]
    constructor
    · rintro ⟨value, hvalue⟩
      exact ⟨(name, value), h.mem_toList.mpr hvalue, rfl⟩
    · rintro ⟨⟨name, value⟩, hmem, rfl⟩
      exact ⟨value, h.mem_toList.mp hmem⟩
  rw [hbound, Set.ncard_coe_finset, List.toFinset_card_of_nodup h.nodup_names, List.length_map]
  exact ⟨Finset.finite_toSet _, rfl⟩

/-- A table is counted if its size is the number of the names that have a value. -/
theorem Indexed.counted_iff (h : t.Indexed) :
    t.Counted ↔ t.size = (Bindings.bound t.get?).ncard := by
  rw [h.ncard_bound.2]
  rfl

/-- Adding a name makes the size one more if the name is new. -/
theorem size_insert (t : SymbolTable α) (name : String) (value : α) :
    (t.insert name value).size = if t.contains name then t.size else t.size + 1 := by
  unfold insert insertAt contains
  cases t.locate name with
  | found chain pos => rfl
  | vacant chain hash => rfl

/-- Removing a name makes the size one less if the name is there. -/
theorem size_erase (t : SymbolTable α) (name : String) :
    (t.erase name).size = if t.contains name then t.size - 1 else t.size := by
  unfold erase eraseAt contains
  cases t.locate name with
  | found chain pos => rfl
  | vacant chain hash => rfl

/-- Changing an entry leaves the size as it is. -/
theorem size_modify (t : SymbolTable α) (name : String) (f : α → α) :
    (t.modify name f).size = t.size := by
  unfold modify
  cases t.locate name with
  | found chain pos => rfl
  | vacant chain hash => rfl

/-- The size of the entries that are chosen is that of their chains. -/
theorem size_filter (t : SymbolTable α) (keep : String → α → Bool) :
    (t.filter keep).size = ((t.filter keep).chains.toList.map Array.size).sum := by
  have hsum : ∀ (chains : List (Array (Slot α))) (count : Nat),
      chains.foldl (fun count chain => count + chain.size) count
        = count + (chains.map Array.size).sum := by
    intro chains
    induction chains with
    | nil => exact fun _ => rfl
    | cons chain chains ih =>
      intro count
      rw [List.foldl_cons, ih, List.map_cons, List.sum_cons, Nat.add_assoc]
  unfold filter
  dsimp only
  rw [hsum, Nat.zero_add]

namespace Counted

/-- An entry that is new is counted. -/
theorem insert (hcounted : t.Counted) (h : t.Indexed) (name : String) (value : α) :
    (t.insert name value).Counted := by
  have hbound : Bindings.bound (t.insert name value).get?
      = Insert.insert name (Bindings.bound t.get?) := by
    refine Set.ext fun other => ?_
    rw [Set.mem_insert_iff, Bindings.mem_bound, Bindings.mem_bound, h.get?_insert]
    by_cases hother : other = name
    · simp [hother]
    · simp [hother]
  rw [(h.insert name value).counted_iff, hbound, size_insert, h.contains_eq]
  rw [h.counted_iff] at hcounted
  by_cases hname : (t.get? name).isSome = true
  · have hmem : name ∈ Bindings.bound t.get? := hname
    rw [if_pos hname, Set.insert_eq_of_mem hmem, hcounted]
  · have hnew : name ∉ Bindings.bound t.get? := hname
    rw [if_neg hname, Set.ncard_insert_of_notMem hnew h.ncard_bound.1, hcounted]

/-- An entry that is removed is counted no more. -/
theorem erase (hcounted : t.Counted) (h : t.Indexed) (name : String) :
    (t.erase name).Counted := by
  have hbound : Bindings.bound (t.erase name).get? = Bindings.bound t.get? \ {name} := by
    refine Set.ext fun other => ?_
    rw [Set.mem_sdiff, Set.mem_singleton_iff, Bindings.mem_bound, Bindings.mem_bound, h.get?_erase]
    by_cases hother : other = name
    · simp [hother]
    · simp [hother]
  rw [(h.erase name).counted_iff, hbound, size_erase, h.contains_eq]
  rw [h.counted_iff] at hcounted
  by_cases hname : (t.get? name).isSome = true
  · have hmem : name ∈ Bindings.bound t.get? := hname
    rw [if_pos hname, Set.ncard_sdiff_singleton_of_mem hmem, hcounted]
  · have hnone : name ∉ Bindings.bound t.get? := hname
    rw [if_neg hname, Set.sdiff_singleton_eq_self hnone, hcounted]

/-- A change of values leaves the names that have a value. -/
theorem of_isSome {t' : SymbolTable α} (hcounted : t.Counted) (h : t.Indexed) (h' : t'.Indexed)
    (hsize : t'.size = t.size)
    (hsame : ∀ name, (t'.get? name).isSome = (t.get? name).isSome) : t'.Counted := by
  have hbound : Bindings.bound t'.get? = Bindings.bound t.get? := by
    refine Set.ext fun name => ?_
    rw [Bindings.mem_bound, Bindings.mem_bound, hsame]
  rw [h'.counted_iff, hbound, hsize]
  exact h.counted_iff.mp hcounted

/-- Every operation keeps the size the number of entries. -/
theorem onTable (hcounted : t.Counted) (h : t.Indexed) (op : Operation α) :
    (op.onTable t).2.Counted := by
  cases op with
  | insert name value | insertLocated name value => exact hcounted.insert h name value
  | remove name | removeLocated name => exact hcounted.erase h name
  | update name change =>
    refine hcounted.of_isSome h (h.modify name change) (t.size_modify name change) fun other => ?_
    show ((t.modify name change).get? other).isSome = _
    rw [h.get?_modify]
    by_cases hother : other = name
    · rw [if_pos hother, hother, Option.isSome_map]
    · rw [if_neg hother]
  | updateAll change =>
    refine hcounted.of_isSome h (h.mapEntries change) rfl fun name => ?_
    show ((t.mapEntries change).get? name).isSome = _
    rw [get?_mapEntries, Option.isSome_map]
  | retain keep => exact (t.size_filter keep).trans (length_toList _).symm
  | clear =>
    show t.clear.Counted
    rw [clear_eq]
    exact counted_empty

end Counted

/-! ## Histories -/

/-- What an operation keeps is kept by all of them, and the operations on the table are the
operations on its lookups. -/
theorem performAll_get? (ops : List (Operation α)) (h : t.Indexed) (hcounted : t.Counted) :
    (performAll Operation.onTable ops t).2.Indexed ∧
      (performAll Operation.onTable ops t).2.Counted ∧
      performAll Operation.onBindings ops t.get?
        = ((performAll Operation.onTable ops t).1,
          (performAll Operation.onTable ops t).2.get?) := by
  induction ops generalizing t with
  | nil => exact ⟨h, hcounted, rfl⟩
  | cons op ops ih =>
    obtain ⟨hindexed, hcounted', hrest⟩ := ih (h.onTable op) (hcounted.onTable h op)
    refine ⟨hindexed, hcounted', ?_⟩
    unfold performAll
    rw [h.onBindings_get?]
    dsimp only
    rw [hrest]

/-- No name has the hash zero. -/
theorem hash_ne_zero (name : String) : hash name ≠ 0 := by
  unfold hash
  dsimp only
  split
  · decide
  · assumption

/-- An indexed and counted table shows the map of its lookups. -/
theorem Indexed.shows (h : t.Indexed) (hcounted : t.Counted) : t.Shows t.get? where
  get? _ := rfl
  contains := h.contains_eq
  finite := h.ncard_bound.1
  size := h.counted_iff.mp hcounted
  isEmpty := by
    have hsize := h.counted_iff.mp hcounted
    unfold isEmpty
    rw [beq_iff_eq, hsize, Set.ncard_eq_zero h.ncard_bound.1, Set.eq_empty_iff_forall_notMem]
    refine forall_congr' fun name => ?_
    rw [Bindings.mem_bound, Bool.not_eq_true, Option.isSome_eq_false_iff, Option.isNone_iff_eq_none]
  mem_toList _ _ := h.mem_toList
  nodup := h.nodup_names
  mem_sortedNames _ _ := h.mem_sortedNames
  ascending keep := (h.sortedNames_ascending keep).imp Utf8.bytes_lt

/-- An indexed and counted table is represented as it should be. -/
theorem Indexed.sound (h : t.Indexed) (hcounted : t.Counted) : t.Sound where
  placed i slot hslot := by
    obtain ⟨hchain, hhash⟩ := h.placed i slot hslot
    refine ⟨hchain, hhash, ?_⟩
    rw [hhash]
    exact hash_ne_zero _
  distinct := by
    have hnames := h.nodup_names
    rw [toList_eq, List.map_flatMap] at hnames
    simp only [List.map_map] at hnames
    exact hnames
  size := hcounted.trans t.length_toList

/-- Whatever is done to a table that is empty to begin with, every operation yields what it yields on
a map from names to values, and afterwards the table shows what the map has: its lookups, its size
and its entries, each name once, and its names in the ascending order of their bytes. And every slot
is where its name is looked for, with the hash of the name, and no name is in two slots. -/
theorem histories_agree (ops : List (Operation α)) :
    (performAll Operation.onTable ops empty).1
        = (performAll Operation.onBindings ops fun _ => none).1 ∧
      (performAll Operation.onTable ops empty).2.Shows
        (performAll Operation.onBindings ops fun _ => none).2 ∧
      (performAll Operation.onTable ops empty).2.Sound := by
  have hempty : (fun _ => none) = (empty : SymbolTable α).get? :=
    funext fun name => (get?_empty name).symm
  obtain ⟨hindexed, hcounted', hagree⟩ := performAll_get? ops indexed_empty counted_empty
  rw [hempty, hagree]
  exact ⟨rfl, hindexed.shows hcounted', hindexed.sound hcounted'⟩

end TextMacro.SymbolTable
