import TextMacro.SymbolTable

/-!
# What holds of all entries of a symbol table

`SymbolTable.All` says that every entry passes a test of its name and its value. Looking a name up
yields a value that passes under that name, and the operations keep the test when what they put in
passes it.

A change of all values does not move a name (`locate_mapEntries`), so that it can be made before the
other operations as well as after them (`map_insert`, `map_erase`, `map_modify`).
-/

namespace TextMacro.SymbolTable

variable {α : Type} {t : SymbolTable α} {P : String → α → Prop}

/-- Every entry passes a test of its name and its value. -/
def All (t : SymbolTable α) (P : String → α → Prop) : Prop :=
  ∀ entry ∈ t.toList, P entry.1 entry.2

/-- The entries are the slots of the chains. -/
theorem all_iff : t.All P ↔ ∀ chain ∈ t.chains.toList, ∀ slot ∈ chain, P slot.name slot.value := by
  unfold All toList
  constructor
  · intro h chain hchain slot hslot
    refine h (slot.name, slot.value) (List.mem_flatMap.mpr ⟨chain, hchain, ?_⟩)
    exact List.mem_map.mpr ⟨slot, Array.mem_toList_iff.mpr hslot, rfl⟩
  · intro h entry hentry
    obtain ⟨chain, hchain, hentry⟩ := List.mem_flatMap.mp hentry
    obtain ⟨slot, hslot, rfl⟩ := List.mem_map.mp hentry
    exact h chain hchain slot (Array.mem_toList_iff.mp hslot)

/-- The table without entries. -/
theorem all_empty : (empty : SymbolTable α).All P := by
  rw [all_iff]
  intro chain hchain slot hslot
  obtain rfl : chain = #[] := by
    simpa [empty] using hchain
  simp at hslot

/-- After a chain is changed, a chain is the changed one or one of those from before. -/
theorem mem_onChain {chains : Vector (Array (Slot α)) chainCount} {i : Fin chainCount}
    {change : Array (Slot α) → Array (Slot α)} {chain : Array (Slot α)}
    (h : chain ∈ (onChain chains i change).toList) :
    chain ∈ chains.toList ∨ chain = change (chains.get i) := by
  have hmem : chain ∈ chains.toArray.modify i change := Array.mem_toList_iff.mp h
  obtain ⟨j, hj, rfl⟩ := Array.mem_iff_getElem.mp hmem
  rw [Array.getElem_modify]
  split
  · rename_i hij
    subst hij
    exact .inr rfl
  · left
    simp

/-- A chain is one of the chains. -/
theorem getElem_mem_chains (t : SymbolTable α) (i : Fin chainCount) :
    t.chains.get i ∈ t.chains.toList := by
  rw [Vector.mem_toList_iff]
  exact Vector.getElem_mem i.isLt

/-- A change of one chain keeps the test when the changed chain passes it. -/
theorem All.onChain {i : Fin chainCount} {change : Array (Slot α) → Array (Slot α)} {size : Nat}
    (h : t.All P) (hchange : ∀ slot ∈ change (t.chains.get i), P slot.name slot.value) :
    All ⟨onChain t.chains i change, size⟩ P := by
  rw [all_iff] at h ⊢
  intro chain hchain slot hslot
  rcases mem_onChain hchain with hold | rfl
  · exact h chain hold slot hslot
  · exact hchange slot hslot

/-- A slot of a chain in which one value is changed has its old value or the changed one. -/
theorem mem_modify {chain : Array (Slot α)} {pos : Nat} {change : Slot α → Slot α} {slot : Slot α}
    (h : slot ∈ chain.modify pos change) :
    slot ∈ chain ∨ ∃ old, chain[pos]? = some old ∧ slot = change old := by
  obtain ⟨j, hj, rfl⟩ := Array.mem_iff_getElem.mp h
  rw [Array.getElem_modify]
  split
  · rename_i hpos
    subst hpos
    have hlt : pos < chain.size := by simpa using hj
    exact .inr ⟨chain[pos], Array.getElem?_eq_getElem hlt, rfl⟩
  · exact .inl (Array.getElem_mem _)

/-- A name is found in a slot that has this name. -/
theorem name_of_locate {name : String} {i : Fin chainCount} {pos : Nat}
    (h : t.locate name = .found i pos) :
    ∃ slot, (t.chains.get i)[pos]? = some slot ∧ slot.name = name := by
  unfold locate at h
  dsimp only at h
  split at h
  · rename_i found hfound
    obtain ⟨rfl, rfl⟩ : chainOf name = i ∧ found = pos := by simpa using h
    obtain ⟨hlt, hslot, -⟩ := Array.findIdx?_eq_some_iff_getElem.mp hfound
    refine ⟨_, Array.getElem?_eq_getElem hlt, ?_⟩
    exact beq_iff_eq.mp (Bool.and_eq_true_iff.mp hslot).2
  · simp at h

/-- The value of a name passes the test under this name. -/
theorem All.get? {name : String} {value : α} (h : t.All P) (hget : t.get? name = some value) :
    P name value := by
  unfold SymbolTable.get? at hget
  cases hplace : t.locate name with
  | vacant i hash =>
    rw [hplace] at hget
    simp [valueAt?] at hget
  | found i pos =>
    obtain ⟨slot, hslot, rfl⟩ := name_of_locate hplace
    have hvalue : t.valueAt? (.found i pos) = some slot.value := by
      show Option.map Slot.value (t.chains.get i)[pos]? = some slot.value
      rw [hslot]
      rfl
    rw [hplace, hvalue] at hget
    obtain rfl : slot.value = value := by simpa using hget
    rw [all_iff] at h
    exact h _ (t.getElem_mem_chains i) slot (Array.mem_of_getElem? hslot)

/-- A value that passes the test can be given to a name. -/
theorem All.insert {name : String} {value : α} (h : t.All P) (hvalue : P name value) :
    (t.insert name value).All P := by
  have hslots := all_iff.mp h
  unfold SymbolTable.insert SymbolTable.insertAt
  cases hplace : t.locate name with
  | found i pos =>
    obtain ⟨found, hfound, hname⟩ := name_of_locate hplace
    refine h.onChain fun slot hslot => ?_
    rcases mem_modify hslot with hold | ⟨old, hold, rfl⟩
    · exact hslots _ (t.getElem_mem_chains i) slot hold
    · obtain rfl : found = old := Option.some.inj (hfound.symm.trans hold)
      rw [← hname] at hvalue
      exact hvalue
  | vacant i hash =>
    refine h.onChain fun slot hslot => ?_
    rcases Array.mem_push.mp hslot with hold | rfl
    · exact hslots _ (t.getElem_mem_chains i) slot hold
    · exact hvalue

/-- What is left when an element is replaced by the last one was there before. -/
theorem mem_of_mem_swapRemove {β : Type} {xs : Array β} {pos : Nat} {x : β}
    (h : x ∈ swapRemove xs pos) : x ∈ xs := by
  unfold swapRemove at h
  split at h
  · rename_i last hlast
    obtain ⟨i, hi, rfl⟩ := Array.mem_iff_getElem.mp h
    rw [Array.getElem_pop]
    rcases Array.mem_or_eq_of_mem_setIfInBounds (Array.getElem_mem _) with hold | hold
    · exact hold
    · rw [hold]
      exact Array.mem_of_back? hlast
  · exact h

/-- Removing a name keeps the test. -/
theorem All.erase {name : String} (h : t.All P) : (t.erase name).All P := by
  have hslots := all_iff.mp h
  unfold SymbolTable.erase SymbolTable.eraseAt
  cases hplace : t.locate name with
  | found i pos =>
    refine h.onChain fun slot hslot => ?_
    exact hslots _ (t.getElem_mem_chains i) slot (mem_of_mem_swapRemove hslot)
  | vacant i hash => exact h

/-- The value of a name can be changed if the changed value passes the test. -/
theorem All.modify_at {name : String} {f : α → α} (h : t.All P)
    (hf : ∀ value, t.get? name = some value → P name value → P name (f value)) :
    (t.modify name f).All P := by
  have hslots := all_iff.mp h
  unfold SymbolTable.modify
  cases hplace : t.locate name with
  | found i pos =>
    obtain ⟨found, hfound, rfl⟩ := name_of_locate hplace
    have hget : t.get? found.name = some found.value := by
      show t.valueAt? (t.locate found.name) = _
      rw [hplace]
      show Option.map Slot.value (t.chains.get i)[pos]? = _
      rw [hfound]
      rfl
    refine h.onChain fun slot hslot => ?_
    rcases mem_modify hslot with hold | ⟨old, hold, rfl⟩
    · exact hslots _ (t.getElem_mem_chains i) slot hold
    · obtain rfl : found = old := Option.some.inj (hfound.symm.trans hold)
      exact hf _ hget (hslots _ (t.getElem_mem_chains i) found (Array.mem_of_getElem? hold))
  | vacant i hash => exact h

/-- A change of values that keeps the test can be made to one name. -/
theorem All.modify {name : String} {f : α → α} (h : t.All P)
    (hf : ∀ name value, P name value → P name (f value)) : (t.modify name f).All P :=
  h.modify_at fun value _ hvalue => hf name value hvalue

/-- A change of values that keeps the test can be made to all names. -/
theorem All.map {f : α → α} (h : t.All P) (hf : ∀ name value, P name value → P name (f value)) :
    (t.map f).All P := by
  rw [all_iff] at h ⊢
  intro chain hchain slot hslot
  unfold SymbolTable.map SymbolTable.mapEntries at hchain
  simp only [Vector.toList_map, List.mem_map] at hchain
  obtain ⟨old, hold, rfl⟩ := hchain
  obtain ⟨before, hbefore, rfl⟩ := Array.mem_map.mp hslot
  exact hf _ _ (h old hold before hbefore)

/-! ## Changing all values -/

/-- Names stand where they stood. -/
theorem locate_mapEntries (t : SymbolTable α) (f : String → α → α) (name : String) :
    (t.mapEntries f).locate name = t.locate name := by
  have hchain : (t.mapEntries f).chains[chainOf name] = t.chains[chainOf name].map
      fun slot => { slot with value := f slot.name slot.value } :=
    Vector.getElem_map _ _
  unfold locate
  dsimp only
  rw [hchain, Array.findIdx?_map]
  rfl

/-- Changing all values changes the value of every name. -/
theorem get?_mapEntries (t : SymbolTable α) (f : String → α → α) (name : String) :
    (t.mapEntries f).get? name = (t.get? name).map (f name) := by
  unfold SymbolTable.get?
  rw [locate_mapEntries]
  cases hplace : t.locate name with
  | vacant i hash => rfl
  | found i pos =>
    obtain ⟨slot, hslot, rfl⟩ := name_of_locate hplace
    have hvalue : t.valueAt? (.found i pos) = some slot.value :=
      congrArg (Option.map Slot.value) hslot
    have hchain : (t.mapEntries f).chains.get i = (t.chains.get i).map
        fun slot => { slot with value := f slot.name slot.value } :=
      Vector.getElem_map _ _
    have hchanged : (t.mapEntries f).valueAt? (.found i pos) = some (f slot.name slot.value) := by
      show Option.map Slot.value ((t.mapEntries f).chains.get i)[pos]? = _
      rw [hchain, Array.getElem?_map, hslot]
      rfl
    rw [hvalue, hchanged]
    rfl

/-- What is found in a changed table is the changed value. -/
theorem get?_map (t : SymbolTable α) (f : α → α) (name : String) :
    (t.map f).get? name = (t.get? name).map f :=
  t.get?_mapEntries (fun _ => f) name

/-- A change that another undoes. -/
theorem map_mapEntries (t : SymbolTable α) {f : α → α} {change : String → α → α}
    (h : ∀ name value, f (change name value) = f value) :
    (t.mapEntries change).map f = t.map f := by
  unfold map mapEntries
  dsimp only
  rw [Vector.map_map]
  simp [Function.comp_def, h]

/-- Changing the values leaves the names. -/
theorem contains_map (t : SymbolTable α) (f : α → α) (name : String) :
    (t.map f).contains name = t.contains name := by
  unfold contains map
  rw [locate_mapEntries]

/-- The entries have the changed values. -/
theorem toList_map (t : SymbolTable α) (f : α → α) :
    (t.map f).toList = t.toList.map fun entry => (entry.1, f entry.2) := by
  unfold toList map mapEntries
  rw [Vector.toList_map, List.flatMap_map, List.map_flatMap]
  simp [Function.comp_def]

/-- A test that does not see the change lists the same names. -/
theorem sortedNames_map (t : SymbolTable α) {f : α → α} {keep : α → Bool}
    (h : ∀ value, keep (f value) = keep value) :
    (t.map f).sortedNames keep = t.sortedNames keep := by
  unfold sortedNames
  rw [toList_map, List.filter_map, List.map_map]
  simp [Function.comp_def, h]

/-- A change of one chain can be made before a change of all chains as well as after it. -/
theorem map_onChain {chains : Vector (Array (Slot α)) chainCount} {i : Fin chainCount}
    {all one one' : Array (Slot α) → Array (Slot α)}
    (h : ∀ chain, all (one chain) = one' (all chain)) :
    (onChain chains i one).map all = onChain (chains.map all) i one' := by
  refine Vector.ext fun j hj => ?_
  have hone : (onChain chains i one)[j] = if i.val = j then one chains[j] else chains[j] :=
    Array.getElem_modify _
  have hone' : (onChain (chains.map all) i one')[j]
      = if i.val = j then one' (chains.map all)[j] else (chains.map all)[j] :=
    Array.getElem_modify _
  rw [Vector.getElem_map, hone, hone', Vector.getElem_map]
  split
  · exact h _
  · rfl

/-- A change of one element can be made before a change of all elements as well as after it. -/
theorem map_modifyAt {β : Type} {xs : Array β} {pos : Nat} {all one one' : β → β}
    (h : ∀ x, all (one x) = one' (all x)) :
    (xs.modify pos one).map all = (xs.map all).modify pos one' := by
  refine Array.ext (by simp) fun i hi _ => ?_
  rw [Array.getElem_map, Array.getElem_modify, Array.getElem_modify, Array.getElem_map]
  split
  · exact h _
  · rfl

/-- The last element comes to stand where one is removed, also after a change of all elements. -/
theorem map_swapRemove {β : Type} (xs : Array β) (pos : Nat) (f : β → β) :
    (swapRemove xs pos).map f = swapRemove (xs.map f) pos := by
  unfold swapRemove
  rw [Array.back?_map]
  cases xs.back? with
  | none => rfl
  | some last => simp only [Option.map_some, Array.map_pop, Array.map_setIfInBounds]

/-- An entry is entered before or behind a change of all values. -/
theorem map_insert (t : SymbolTable α) (f : α → α) (name : String) (value : α) :
    (t.insert name value).map f = (t.map f).insert name (f value) := by
  unfold insert insertAt map
  rw [locate_mapEntries]
  cases t.locate name with
  | found i pos =>
    unfold mapEntries
    dsimp only
    congr 1
    exact map_onChain fun chain => map_modifyAt fun _ => rfl
  | vacant i hash =>
    unfold mapEntries
    dsimp only
    congr 1
    exact map_onChain fun chain => Array.map_push

/-- An entry is removed before or behind a change of all values. -/
theorem map_erase (t : SymbolTable α) (f : α → α) (name : String) :
    (t.erase name).map f = (t.map f).erase name := by
  unfold erase eraseAt map
  rw [locate_mapEntries]
  cases t.locate name with
  | found i pos =>
    unfold mapEntries
    dsimp only
    congr 1
    exact map_onChain fun chain => map_swapRemove chain pos _
  | vacant i hash => rfl

/-- An entry is changed before or behind a change of all values, if the changes agree. -/
theorem map_modify (t : SymbolTable α) {f change change' : α → α} (name : String)
    (h : ∀ value, f (change value) = change' (f value)) :
    (t.modify name change).map f = (t.map f).modify name change' := by
  unfold modify map
  rw [locate_mapEntries]
  cases t.locate name with
  | found i pos =>
    unfold mapEntries
    dsimp only
    congr 1
    exact map_onChain fun chain => map_modifyAt fun slot => by rw [h]
  | vacant i hash => rfl

/-- Slots that are changed to themselves. -/
theorem onChain_modify_self {chains : Vector (Array (Slot α)) chainCount} {i : Fin chainCount}
    {pos : Nat} {change : Slot α → Slot α} (hchange : ∀ slot, change slot = slot) :
    onChain chains i (·.modify pos change) = chains := by
  refine Vector.ext fun j hj => ?_
  have hone : (onChain chains i (·.modify pos change))[j]
      = if i.val = j then chains[j].modify pos change else chains[j] := Array.getElem_modify _
  rw [hone]
  split
  · refine Array.ext (Array.size_modify ..) fun k hk _ => ?_
    rw [Array.getElem_modify]
    split
    · exact hchange _
    · rfl
  · rfl

/-- A value that is changed to itself. -/
theorem modify_id (t : SymbolTable α) (name : String) : t.modify name id = t := by
  unfold modify
  split
  · exact congrArg (SymbolTable.mk · t.size) (onChain_modify_self fun slot => rfl)
  · rfl

/-- A change of a value leaves every name where it stands. -/
theorem locate_modify (t : SymbolTable α) (name other : String) (f : α → α) :
    (t.modify name f).locate other = t.locate other := by
  cases hplace : t.locate name with
  | vacant i hash =>
    unfold modify
    rw [hplace]
  | found i pos =>
    obtain ⟨slot, -, -⟩ := name_of_locate hplace
    -- Names stand where they do in a table all of whose values are the same.
    have hsame : (t.modify name f).map (fun _ => slot.value)
        = (t.map fun _ => slot.value).modify name id := t.map_modify name fun _ => rfl
    rw [modify_id] at hsame
    have hplaces := congrArg (locate · other) hsame
    unfold map at hplaces
    rwa [locate_mapEntries, locate_mapEntries] at hplaces

/-- Two changes of one value are one change. -/
theorem modify_modify (t : SymbolTable α) (name : String) (f g : α → α) :
    (t.modify name f).modify name g = t.modify name (g ∘ f) := by
  have hlocate := t.locate_modify name name f
  unfold modify at hlocate ⊢
  cases hplace : t.locate name with
  | vacant i hash =>
    dsimp only
    rw [hplace]
  | found i pos =>
    rw [hplace] at hlocate
    dsimp only at hlocate ⊢
    rw [hlocate]
    dsimp only
    congr 1
    refine Vector.ext fun j hj => ?_
    have hone : ∀ (chains : Vector (Array (Slot α)) chainCount) change,
        (onChain chains i change)[j] = if i.val = j then change chains[j] else chains[j] :=
      fun _ _ => Array.getElem_modify _
    rw [hone, hone, hone]
    split
    · refine Array.ext (by simp) fun k hk _ => ?_
      rw [Array.getElem_modify, Array.getElem_modify, Array.getElem_modify]
      split
      · rfl
      · rfl
    · rfl

end TextMacro.SymbolTable
