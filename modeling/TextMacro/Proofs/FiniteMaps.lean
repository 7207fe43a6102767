import Mathlib.Data.List.Nodup
import TextMacro.Proofs.SymbolTable

/-!
# Symbol tables are finite maps

A table is indexed when every slot stands in the chain of its name and carries the hash of its name,
and no name stands in a chain twice (`Indexed`). All operations keep this. In an indexed table what
a name is looked up as is decided by the slots that carry the name, so that an entry that is added,
replaced or removed changes the value of its own name only (`get?_insert`, `get?_erase`), also where
removing it moves the last slot of its chain to another place.

Up to the order of the slots, which no lookup sees, adding a name puts one slot in front of the
slots of all other names, and removing it leaves those (`chain_insert`, `chain_erase`). The
entries of the whole table are its lookups (`mem_toList`), and a listing of names has each of them
once, in ascending order (`mem_sortedNames`, `sortedNames_ascending`).
-/

namespace TextMacro.SymbolTable

variable {α : Type} {t : SymbolTable α} {name : String}

/-- The slots of a chain. -/
def chain (t : SymbolTable α) (i : Fin chainCount) : List (Slot α) :=
  (t.chains.get i).toList

/-- Every slot stands where its name is looked for, and no name stands there twice. -/
structure Indexed (t : SymbolTable α) : Prop where
  /-- A slot is in the chain of its name and carries the hash of its name. -/
  placed : ∀ i, ∀ slot ∈ t.chain i, chainOf slot.name = i ∧ slot.hash = hash slot.name
  /-- No name is in a chain twice. -/
  distinct : ∀ i, ((t.chain i).map Slot.name).Nodup

/-- After a chain is changed the others are as they were. -/
theorem chain_onChain (i j : Fin chainCount) (change : Array (Slot α) → Array (Slot α))
    (size : Nat) :
    chain ⟨onChain t.chains i change, size⟩ j
      = if j = i then (change (t.chains.get i)).toList else t.chain j := by
  have hget : (onChain t.chains i change).get j
      = if i.val = j.val then change (t.chains.get j) else t.chains.get j :=
    Array.getElem_modify _
  unfold chain
  dsimp only
  rw [hget]
  by_cases hji : j = i
  · subst hji
    rw [if_pos rfl, if_pos rfl]
  · have hij : i.val ≠ j.val := fun h => hji (Fin.ext h.symm)
    rw [if_neg hij, if_neg hji]

/-! ## Looking names up -/

/-- A list around one of its places. -/
theorem exists_append_cons {β : Type} {l : List β} {pos : Nat} {x : β} (h : l[pos]? = some x) :
    ∃ front back, l = front ++ x :: back ∧ front.length = pos := by
  obtain ⟨hlt, rfl⟩ := List.getElem?_eq_some_iff.mp h
  refine ⟨l.take pos, l.drop (pos + 1), ?_, ?_⟩
  · rw [List.getElem_cons_drop, List.take_append_drop]
  · rw [List.length_take]
    omega

/-- A name is located in the slot that carries it, or else no slot of its chain does. -/
theorem Indexed.locate_cases (h : t.Indexed) (name : String) :
    (∃ front slot back, t.chain (chainOf name) = front ++ slot :: back ∧ slot.name = name ∧
      t.locate name = .found (chainOf name) front.length) ∨
    ((∀ slot ∈ t.chain (chainOf name), slot.name ≠ name) ∧
      t.locate name = .vacant (chainOf name) (hash name)) := by
  unfold locate
  dsimp only
  split
  · rename_i pos hfound
    obtain ⟨hlt, hslot, -⟩ := Array.findIdx?_eq_some_iff_getElem.mp hfound
    have hname := beq_iff_eq.mp (Bool.and_eq_true_iff.mp hslot).2
    have hat : (t.chain (chainOf name))[pos]? = some (t.chains.get (chainOf name))[pos] := by
      unfold chain
      rw [Array.getElem?_toList]
      exact Array.getElem?_eq_getElem hlt
    obtain ⟨front, back, hchain, hfront⟩ := exists_append_cons hat
    exact .inl ⟨front, _, back, hchain, hname, by rw [hfront]⟩
  · rename_i hnone
    refine .inr ⟨fun slot hslot hname => ?_, rfl⟩
    -- A slot with the name has its hash too, so that the search would have stopped there.
    have hhash := (h.placed _ slot hslot).2
    have hrefused := Array.findIdx?_eq_none_iff.mp hnone slot (Array.mem_toList_iff.mp hslot)
    simp [hhash, hname] at hrefused

/-- Two slots of a chain with one name are the same. -/
theorem Indexed.slot_eq {i : Fin chainCount} {slot slot' : Slot α} (h : t.Indexed)
    (hslot : slot ∈ t.chain i) (hslot' : slot' ∈ t.chain i) (hname : slot.name = slot'.name) :
    slot = slot' :=
  List.inj_on_of_nodup_map (h.distinct i) hslot hslot' hname

/-- The value of a name is that of the slot in its chain that carries it. -/
theorem Indexed.get?_eq_some_iff {value : α} (h : t.Indexed) : t.get? name = some value ↔
    ∃ slot ∈ t.chain (chainOf name), slot.name = name ∧ slot.value = value := by
  unfold get?
  rcases h.locate_cases name with ⟨front, slot, back, hchain, hname, hplace⟩ | ⟨hnone, hplace⟩
  · have hat : (t.chains.get (chainOf name))[front.length]? = some slot := by
      rw [← Array.getElem?_toList]
      have hchain : (t.chains.get (chainOf name)).toList = front ++ slot :: back := hchain
      simp [hchain]
    have hvalue : t.valueAt? (.found (chainOf name) front.length) = some slot.value := by
      show Option.map Slot.value (t.chains.get (chainOf name))[front.length]? = _
      rw [hat]
      rfl
    have hmem : slot ∈ t.chain (chainOf name) := by simp [hchain]
    rw [hplace, hvalue]
    constructor
    · intro heq
      exact ⟨slot, hmem, hname, Option.some.inj heq⟩
    · rintro ⟨slot', hslot', hname', rfl⟩
      rw [h.slot_eq hmem hslot' (hname.trans hname'.symm)]
  · rw [hplace]
    constructor
    · intro heq
      simp [valueAt?] at heq
    · rintro ⟨slot, hslot, hname, -⟩
      exact absurd hname (hnone slot hslot)

/-- A name has a value if it is located. -/
theorem Indexed.contains_eq (h : t.Indexed) (name : String) :
    t.contains name = (t.get? name).isSome := by
  unfold contains
  rcases h.locate_cases name with ⟨front, slot, back, hchain, hname, hplace⟩ | ⟨hnone, hplace⟩
  · have hget : t.get? name = some slot.value :=
      h.get?_eq_some_iff.mpr ⟨slot, by simp [hchain], hname, rfl⟩
    rw [hplace, hget]
    rfl
  · have hget : t.get? name = none := by
      rw [get?, hplace]
      rfl
    rw [hplace, hget]
    rfl

/-! ## Adding and removing names -/

/-- The slots of a list that carry other names. -/
def without (name : String) (slots : List (Slot α)) : List (Slot α) :=
  slots.filter (·.name ≠ name)

/-- Taking out a name that is not there changes nothing. -/
theorem without_eq_self {slots : List (Slot α)} (h : ∀ slot ∈ slots, slot.name ≠ name) :
    without name slots = slots :=
  List.filter_eq_self.mpr fun slot hslot => decide_eq_true (h slot hslot)

/-- One slot at most carries the name. -/
theorem without_append_cons {front back : List (Slot α)} {slot : Slot α}
    (hdistinct : ((front ++ slot :: back).map Slot.name).Nodup) (hname : slot.name = name) :
    without name (front ++ slot :: back) = front ++ back := by
  have hnodup : slot.name ∉ (front ++ back).map Slot.name := by
    have hmiddle : ((slot :: (front ++ back)).map Slot.name).Nodup :=
      (List.perm_middle.map _).nodup_iff.mp hdistinct
    exact (List.nodup_cons.mp hmiddle).1
  have hrest : ∀ other ∈ front ++ back, other.name ≠ name := by
    intro other hother heq
    exact hnodup (List.mem_map.mpr ⟨other, hother, heq.trans hname.symm⟩)
  have hfront := without_eq_self fun other hother => hrest other (List.mem_append_left _ hother)
  have hback := without_eq_self fun other hother => hrest other (List.mem_append_right _ hother)
  unfold without at hfront hback ⊢
  rw [List.filter_append, hfront, List.filter_cons_of_neg (by simpa using hname), hback]

/-- The last slot comes to stand where a slot is removed, and no other is lost. -/
theorem toList_swapRemove {slots : Array (Slot α)} {front back : List (Slot α)} {slot : Slot α}
    (h : slots.toList = front ++ slot :: back) :
    (swapRemove slots front.length).toList.Perm (front ++ back) := by
  rcases List.eq_nil_or_concat back with rfl | ⟨middle, last, rfl⟩
  · have hlast : slots.back? = some slot := by
      rw [← Array.getLast?_toList, h, List.getLast?_concat]
    unfold swapRemove
    rw [hlast]
    simp [h]
  · rw [List.concat_eq_append] at h ⊢
    have hslots : slots.toList = (front ++ slot :: middle) ++ [last] := by
      rw [h, List.append_assoc, List.cons_append]
    have hlast : slots.back? = some last := by
      rw [← Array.getLast?_toList, hslots, List.getLast?_concat]
    have hmoved : (swapRemove slots front.length).toList = front ++ last :: middle := by
      unfold swapRemove
      rw [hlast]
      dsimp only
      rw [Array.toList_pop, Array.toList_setIfInBounds, hslots, List.set_append_left _ _ (by simp),
        List.dropLast_concat, List.set_append_right _ _ (Nat.le_refl _), Nat.sub_self,
        List.set_cons_zero]
    rw [hmoved]
    exact (List.perm_append_singleton last middle).symm.append_left front

/-- With a name added, its chain has one slot for it and the slots of other names, and the other
chains are as they were. -/
theorem Indexed.chain_insert (h : t.Indexed) (name : String) (value : α) :
    ((t.insert name value).chain (chainOf name)).Perm
        (⟨hash name, name, value⟩ :: without name (t.chain (chainOf name))) ∧
      ∀ i, i ≠ chainOf name → (t.insert name value).chain i = t.chain i := by
  unfold insert insertAt
  rcases h.locate_cases name with ⟨front, slot, back, hchain, hname, hplace⟩ | ⟨hnone, hplace⟩
  · rw [hplace]
    dsimp only
    refine ⟨?_, fun i hi => by rw [chain_onChain, if_neg hi]⟩
    have hslots : (t.chains.get (chainOf name)).toList = front ++ slot :: back := hchain
    have hmem : slot ∈ t.chain (chainOf name) := by simp [hchain]
    have hhash := (h.placed _ slot hmem).2
    have hdistinct := h.distinct (chainOf name)
    rw [hchain] at hdistinct
    have hmodified : ((front ++ slot :: back).modify front.length ({ · with value }))
        = front ++ ⟨hash name, name, value⟩ :: back := by
      rw [List.modify_eq_take_cons_drop (by simp)]
      simp [hhash, hname]
    rw [chain_onChain, if_pos rfl, Array.toList_modify, hslots, hmodified, hchain,
      without_append_cons hdistinct hname]
    exact List.perm_middle
  · rw [hplace]
    dsimp only
    refine ⟨?_, fun i hi => by rw [chain_onChain, if_neg hi]⟩
    rw [chain_onChain, if_pos rfl, Array.toList_push, without_eq_self hnone]
    exact List.perm_append_singleton _ _

/-- With a name removed, its chain has the slots of other names, and the other chains are as they
were. -/
theorem Indexed.chain_erase (h : t.Indexed) (name : String) :
    ((t.erase name).chain (chainOf name)).Perm (without name (t.chain (chainOf name))) ∧
      ∀ i, i ≠ chainOf name → (t.erase name).chain i = t.chain i := by
  unfold erase eraseAt
  rcases h.locate_cases name with ⟨front, slot, back, hchain, hname, hplace⟩ | ⟨hnone, hplace⟩
  · rw [hplace]
    dsimp only
    refine ⟨?_, fun i hi => by rw [chain_onChain, if_neg hi]⟩
    have hdistinct := h.distinct (chainOf name)
    rw [hchain] at hdistinct
    rw [chain_onChain, if_pos rfl, hchain, without_append_cons hdistinct hname]
    exact toList_swapRemove hchain
  · rw [hplace, without_eq_self hnone]
    exact ⟨List.Perm.refl _, fun _ _ => rfl⟩

/-- A table stays indexed when the chain of a name comes to hold other slots that belong there. -/
theorem Indexed.of_chain {t' : SymbolTable α} {slots : List (Slot α)} (h : t.Indexed)
    (hchain : (t'.chain (chainOf name)).Perm slots)
    (hothers : ∀ i, i ≠ chainOf name → t'.chain i = t.chain i)
    (hplaced : ∀ slot ∈ slots, chainOf slot.name = chainOf name ∧ slot.hash = hash slot.name)
    (hdistinct : (slots.map Slot.name).Nodup) : t'.Indexed := by
  constructor
  · intro i slot hslot
    by_cases hi : i = chainOf name
    · subst hi
      exact hplaced slot (hchain.mem_iff.mp hslot)
    · rw [hothers i hi] at hslot
      exact h.placed i slot hslot
  · intro i
    by_cases hi : i = chainOf name
    · subst hi
      exact (hchain.map _).nodup_iff.mpr hdistinct
    · rw [hothers i hi]
      exact h.distinct i

/-- The slots of other names belong where they are. -/
theorem Indexed.without_placed (h : t.Indexed) (name : String) :
    (∀ slot ∈ without name (t.chain (chainOf name)),
      chainOf slot.name = chainOf name ∧ slot.hash = hash slot.name) ∧
    ((without name (t.chain (chainOf name))).map Slot.name).Nodup := by
  have hsub : (without name (t.chain (chainOf name))).Sublist (t.chain (chainOf name)) :=
    List.filter_sublist
  exact ⟨fun slot hslot => h.placed _ slot (hsub.subset hslot),
    (h.distinct _).sublist (hsub.map _)⟩

/-- An entry is put into the chain that its name belongs to. -/
theorem Indexed.insert (h : t.Indexed) (name : String) (value : α) :
    (t.insert name value).Indexed := by
  obtain ⟨hchain, hothers⟩ := h.chain_insert name value
  obtain ⟨hplaced, hdistinct⟩ := h.without_placed name
  refine h.of_chain hchain hothers ?_ ?_
  · intro slot hslot
    rcases List.mem_cons.mp hslot with rfl | hold
    · exact ⟨rfl, rfl⟩
    · exact hplaced slot hold
  · refine List.nodup_cons.mpr ⟨fun hmem => ?_, hdistinct⟩
    obtain ⟨slot, hslot, hname⟩ := List.mem_map.mp hmem
    exact absurd hname (of_decide_eq_true (List.mem_filter.mp hslot).2)

/-- The entries that are left stay in their chains. -/
theorem Indexed.erase (h : t.Indexed) (name : String) : (t.erase name).Indexed := by
  obtain ⟨hchain, hothers⟩ := h.chain_erase name
  obtain ⟨hplaced, hdistinct⟩ := h.without_placed name
  exact h.of_chain hchain hothers hplaced hdistinct

/-- Two tables look a name up alike if the same slots carry it. -/
theorem Indexed.get?_congr {t' : SymbolTable α} (h : t.Indexed) (h' : t'.Indexed)
    (hsame : ∀ slot, slot.name = name →
      (slot ∈ t'.chain (chainOf name) ↔ slot ∈ t.chain (chainOf name))) :
    t'.get? name = t.get? name := by
  refine Option.ext fun value => ?_
  rw [h.get?_eq_some_iff, h'.get?_eq_some_iff]
  constructor
  · rintro ⟨slot, hslot, hname, rfl⟩
    exact ⟨slot, (hsame slot hname).mp hslot, hname, rfl⟩
  · rintro ⟨slot, hslot, hname, rfl⟩
    exact ⟨slot, (hsame slot hname).mpr hslot, hname, rfl⟩

/-- A slot of another name is among the slots of other names. -/
theorem mem_without {slots : List (Slot α)} {slot : Slot α} (hname : slot.name ≠ name) :
    slot ∈ without name slots ↔ slot ∈ slots := by
  simp [without, hname]

/-- Adding a name changes the value of this name only. -/
theorem Indexed.get?_insert (h : t.Indexed) (name other : String) (value : α) :
    (t.insert name value).get? other = if other = name then some value else t.get? other := by
  obtain ⟨hchain, hothers⟩ := h.chain_insert name value
  by_cases hother : other = name
  · subst hother
    rw [if_pos rfl, (h.insert other value).get?_eq_some_iff]
    exact ⟨_, hchain.mem_iff.mpr List.mem_cons_self, rfl, rfl⟩
  · rw [if_neg hother]
    refine h.get?_congr (h.insert name value) fun slot hslot => ?_
    have hne : slot.name ≠ name := fun heq => hother (hslot.symm.trans heq)
    by_cases hi : chainOf other = chainOf name
    · rw [hi, hchain.mem_iff, List.mem_cons, mem_without hne]
      exact or_iff_right fun heq => hne (congrArg Slot.name heq)
    · rw [hothers _ hi]

/-- Removing a name changes the value of this name only. -/
theorem Indexed.get?_erase (h : t.Indexed) (name other : String) :
    (t.erase name).get? other = if other = name then none else t.get? other := by
  obtain ⟨hchain, hothers⟩ := h.chain_erase name
  by_cases hother : other = name
  · subst hother
    rw [if_pos rfl]
    refine Option.eq_none_iff_forall_ne_some.mpr fun value hvalue => ?_
    obtain ⟨slot, hslot, hname, -⟩ := (h.erase other).get?_eq_some_iff.mp hvalue
    exact of_decide_eq_true (List.mem_filter.mp (hchain.mem_iff.mp hslot)).2 hname
  · rw [if_neg hother]
    refine h.get?_congr (h.erase name) fun slot hslot => ?_
    have hne : slot.name ≠ name := fun heq => hother (hslot.symm.trans heq)
    by_cases hi : chainOf other = chainOf name
    · rw [hi, hchain.mem_iff, mem_without hne]
    · rw [hothers _ hi]

/-! ## Changing values -/

/-- Two changes of one place agree if they agree on what stands there. -/
theorem modify_congr {β : Type} {xs : Array β} {pos : Nat} {f g : β → β}
    (h : ∀ x, xs[pos]? = some x → f x = g x) : xs.modify pos f = xs.modify pos g := by
  refine Array.ext (by simp) fun i hi _ => ?_
  rw [Array.getElem_modify, Array.getElem_modify]
  split
  · rename_i hpos
    subst hpos
    exact h _ (Array.getElem?_eq_getElem _)
  · rfl

/-- Changing the value of a name is adding the name with the changed value, if it has a value. -/
theorem Indexed.modify_eq (h : t.Indexed) (name : String) (f : α → α) :
    t.modify name f = match t.get? name with
      | some value => t.insert name (f value)
      | none => t := by
  rcases h.locate_cases name with ⟨front, slot, back, hchain, hname, hplace⟩ | ⟨-, hplace⟩
  · have hget : t.get? name = some slot.value :=
      h.get?_eq_some_iff.mpr ⟨slot, by simp [hchain], hname, rfl⟩
    rw [hget]
    show t.modify name f = t.insert name (f slot.value)
    unfold SymbolTable.modify SymbolTable.insert insertAt
    rw [hplace]
    dsimp only
    congr 1
    unfold onChain
    congr 1
    -- Both change the same slot of the same chain, which is the one that the name was found in.
    refine modify_congr fun chain hget => modify_congr fun slot' hslot' => ?_
    obtain rfl : t.chains.get (chainOf name) = chain := by
      obtain ⟨hlt, rfl⟩ := Array.getElem?_eq_some_iff.mp hget
      rfl
    have hslots : (t.chains.get (chainOf name)).toList = front ++ slot :: back := hchain
    obtain rfl : slot = slot' := by
      rw [← Array.getElem?_toList, hslots] at hslot'
      simpa using hslot'
    rfl
  · have hget : t.get? name = none := by
      rw [get?, hplace]
      rfl
    rw [hget]
    unfold SymbolTable.modify
    rw [hplace]

/-- A value that is changed to itself. -/
theorem Indexed.modify_of_eq {t : SymbolTable α} {name : String} {value : α} {f : α → α}
    (h : t.Indexed) (hvalue : t.get? name = some value) (hf : f value = value) :
    t.modify name f = t := by
  have hid := h.modify_eq name id
  rw [modify_id, hvalue] at hid
  rw [h.modify_eq, hvalue]
  dsimp only at hid ⊢
  rw [hf]
  exact hid.symm
/-- A changed entry stays in its chain. -/
theorem Indexed.modify (h : t.Indexed) (name : String) (f : α → α) : (t.modify name f).Indexed := by
  rw [h.modify_eq]
  split
  · exact h.insert name _
  · exact h

/-- Changing the value of a name changes no other value. -/
theorem Indexed.get?_modify (h : t.Indexed) (name other : String) (f : α → α) :
    (t.modify name f).get? other
      = if other = name then (t.get? name).map f else t.get? other := by
  rw [h.modify_eq]
  cases hget : t.get? name with
  | some value => exact h.get?_insert name other (f value)
  | none =>
    show t.get? other = _
    by_cases hother : other = name
    · rw [if_pos hother, hother, hget]
      rfl
    · rw [if_neg hother]

/-- The entries of each chain are changed on their own. -/
theorem chain_mapEntries (t : SymbolTable α) (f : String → α → α) (i : Fin chainCount) :
    (t.mapEntries f).chain i
      = (t.chain i).map fun slot => { slot with value := f slot.name slot.value } := by
  unfold chain mapEntries
  simp [Vector.get]

/-- Changing all entries by their names leaves them in their chains. -/
theorem Indexed.mapEntries (h : t.Indexed) (f : String → α → α) : (t.mapEntries f).Indexed := by
  constructor
  · intro i slot hslot
    rw [chain_mapEntries] at hslot
    obtain ⟨old, hold, rfl⟩ := List.mem_map.mp hslot
    exact h.placed i old hold
  · intro i
    rw [chain_mapEntries, List.map_map]
    exact h.distinct i

/-- Changing all entries leaves them in their chains. -/
theorem Indexed.map (h : t.Indexed) (f : α → α) : (t.map f).Indexed :=
  h.mapEntries fun _ => f

/-! ## Dropping entries -/

/-- The entries of each chain are chosen on their own. -/
theorem chain_filter (t : SymbolTable α) (keep : String → α → Bool) (i : Fin chainCount) :
    (t.filter keep).chain i = (t.chain i).filter fun slot => keep slot.name slot.value := by
  unfold chain filter
  simp [Vector.get]

/-- The entries that are chosen stay in their chains. -/
theorem Indexed.filter (h : t.Indexed) (keep : String → α → Bool) : (t.filter keep).Indexed := by
  constructor
  · intro i slot hslot
    rw [chain_filter] at hslot
    exact h.placed i slot (List.mem_filter.mp hslot).1
  · intro i
    rw [chain_filter]
    exact (h.distinct i).sublist (List.filter_sublist.map _)

/-- A name keeps its value if both pass the test. -/
theorem Indexed.get?_filter (h : t.Indexed) (name : String) (keep : String → α → Bool) :
    (t.filter keep).get? name = (t.get? name).filter (keep name) := by
  refine Option.ext fun value => ?_
  rw [(h.filter keep).get?_eq_some_iff, chain_filter, Option.filter_eq_some_iff,
    h.get?_eq_some_iff]
  constructor
  · rintro ⟨slot, hslot, rfl, rfl⟩
    obtain ⟨hold, hkeep⟩ := List.mem_filter.mp hslot
    exact ⟨⟨slot, hold, rfl, rfl⟩, hkeep⟩
  · rintro ⟨⟨slot, hslot, rfl, rfl⟩, hkeep⟩
    exact ⟨slot, List.mem_filter.mpr ⟨hslot, hkeep⟩, rfl, rfl⟩

/-- The chains of a table without entries are empty. -/
theorem chain_empty (i : Fin chainCount) : (empty : SymbolTable α).chain i = [] := by
  simp [chain, empty, Vector.get]

/-- In a table without entries nothing is out of place. -/
theorem indexed_empty : (empty : SymbolTable α).Indexed := by
  constructor
  · intro i slot hslot
    rw [chain_empty] at hslot
    simp at hslot
  · intro i
    rw [chain_empty]
    exact List.nodup_nil

/-- In a table without entries nothing is found. -/
theorem get?_empty (name : String) : (empty : SymbolTable α).get? name = none := by
  refine Option.eq_none_iff_forall_ne_some.mpr fun value hvalue => ?_
  obtain ⟨slot, hslot, -⟩ := indexed_empty.get?_eq_some_iff.mp hvalue
  rw [chain_empty] at hslot
  simp at hslot

/-- Dropping all entries leaves none. -/
theorem clear_eq (t : SymbolTable α) : t.clear = empty := by
  unfold clear empty
  congr 1
  refine Vector.ext fun i hi => ?_
  rw [Vector.getElem_map, Vector.getElem_replicate]

/-! ## Listing names -/

/-- The entries are the slots of the chains. -/
theorem toList_eq (t : SymbolTable α) :
    t.toList = (List.finRange chainCount).flatMap
      fun i => (t.chain i).map fun slot => (slot.name, slot.value) := by
  have hchains : t.chains.toList = (List.finRange chainCount).map t.chains.get := by
    refine List.ext_getElem (by simp) fun i hi _ => ?_
    simp [Vector.get]
  unfold toList chain
  rw [hchains, List.flatMap_map]

/-- The entries are the names with their values. -/
theorem Indexed.mem_toList (h : t.Indexed) {value : α} :
    (name, value) ∈ t.toList ↔ t.get? name = some value := by
  rw [toList_eq, h.get?_eq_some_iff, List.mem_flatMap]
  constructor
  · rintro ⟨i, -, hmem⟩
    obtain ⟨slot, hslot, heq⟩ := List.mem_map.mp hmem
    obtain ⟨rfl, rfl⟩ := Prod.mk.inj heq
    obtain ⟨rfl, -⟩ := h.placed i slot hslot
    exact ⟨slot, hslot, rfl, rfl⟩
  · rintro ⟨slot, hslot, rfl, rfl⟩
    exact ⟨chainOf slot.name, List.mem_finRange _, List.mem_map.mpr ⟨slot, hslot, rfl⟩⟩

/-- No name is listed twice. -/
theorem Indexed.nodup_names (h : t.Indexed) : (t.toList.map Prod.fst).Nodup := by
  rw [toList_eq, List.map_flatMap, List.nodup_flatMap]
  simp only [List.map_map]
  refine ⟨fun i _ => h.distinct i, ?_⟩
  refine (List.nodup_finRange chainCount).imp fun {i j} hij => ?_
  intro name hi hj
  obtain ⟨slot, hslot, rfl⟩ := List.mem_map.mp hi
  obtain ⟨slot', hslot', hname⟩ := List.mem_map.mp hj
  -- The name says which of the chains it is in.
  have hchain := (h.placed i slot hslot).1
  have hchain' := (h.placed j slot' hslot').1
  have hsame : slot'.name = slot.name := hname
  rw [hsame, hchain] at hchain'
  exact hij hchain'

/-- The names that are listed have a value that passes the test. -/
theorem Indexed.mem_sortedNames (h : t.Indexed) {keep : α → Bool} :
    name ∈ t.sortedNames keep ↔ ∃ value, t.get? name = some value ∧ keep value = true := by
  unfold sortedNames
  rw [List.mem_mergeSort, List.mem_map]
  constructor
  · rintro ⟨⟨name, value⟩, hmem, rfl⟩
    obtain ⟨hentry, hkeep⟩ := List.mem_filter.mp hmem
    exact ⟨value, h.mem_toList.mp hentry, hkeep⟩
  · rintro ⟨value, hget, hkeep⟩
    exact ⟨(name, value), List.mem_filter.mpr ⟨h.mem_toList.mpr hget, hkeep⟩, rfl⟩

/-- The names that are listed are in ascending order, and so none is listed twice. -/
theorem Indexed.sortedNames_ascending (h : t.Indexed) (keep : α → Bool) :
    (t.sortedNames keep).Pairwise (· < ·) := by
  have hsorted : (t.sortedNames keep).Pairwise fun a b => decide (a ≤ b) = true := by
    refine List.pairwise_mergeSort ?_ ?_ _
    · intro a b c hab hbc
      exact decide_eq_true (String.le_trans (of_decide_eq_true hab) (of_decide_eq_true hbc))
    · intro a b
      simpa using String.le_total a b
  have hnodup : (t.sortedNames keep).Nodup := by
    have hnames := h.nodup_names.sublist ((List.filter_sublist (p := (keep ·.2))).map Prod.fst)
    exact (List.mergeSort_perm _ _).nodup_iff.mpr hnames
  exact hsorted.imp₂ (fun _ _ hle hne => Std.lt_of_le_of_ne (of_decide_eq_true hle) hne) hnodup

end TextMacro.SymbolTable
