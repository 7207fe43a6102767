import TextMacro.Proofs.Cursor

/-!
# The gap between the zones

Between what is done with and what is still to be scanned lie bytes that count no more. A result is
written over them as far as they go, and only what they lack is inserted. Nothing else about them
shows: a movement makes of the two zones what it would make of two texts that are kept apart
(`Movement.act`), whether the gap is empty, smaller than the result, as large or larger, and also
where bytes are copied over themselves.

A movement is nothing but operations on the buffer in turn (`Movement.operations`,
`perform_eq_performAll`), and each of them stays within the content that it meets
(`Movement.exists_runsWithin`). What they make of the zones is known from the layout of the buffer
(`Shows.perform`). Zones that are in order are in order afterwards, and so any number of movements
acts on the two texts (`Movement.performAll_acts`).
-/

namespace TextMacro.Buffer

/-! ## Operations that stay within the content -/

/-- All that an operation is told to read, to write over or to move to lies inside the content or at
its end. No position is then taken for the end because it is past it. -/
def Operation.Within (b : Buffer) : Operation → Prop
  | insertAt pos _ => pos ≤ b.size
  | removeAt pos count => pos + count ≤ b.size
  | overwrite pos bytes => pos + bytes.size ≤ b.size
  | copyWithin src dest len => src + len ≤ b.size ∧ dest + len ≤ b.size
  | setIndex index => index ≤ b.size
  | advance n => b.index + n ≤ b.size
  | _ => True

/-- A buffer comes from another by operations in turn, each within the content that it meets. -/
inductive RunsWithin : Buffer → List Operation → Buffer → Prop where
  | nil (b : Buffer) : RunsWithin b [] b
  | cons {b mid b' : Buffer} {op : Operation} {ops : List Operation} (hwithin : op.Within b)
      (hop : op.perform b = some mid) (hrest : RunsWithin mid ops b') :
      RunsWithin b (op :: ops) b'

/-- Setting the cursor leaves the content as it is. -/
@[simp]
theorem size_setIndex (b : Buffer) (index : Nat) : (b.setIndex index).size = b.size := rfl

/-- Moving the cursor on leaves the content as it is. -/
@[simp]
theorem size_advance (b : Buffer) (n : Nat) : (b.advance n).size = b.size := rfl

/-- Copying inside the content leaves its size and the cursor. -/
theorem copyWithin?_eq_some {b : Buffer} {src dest len : Nat} (hsrc : src + len ≤ b.size)
    (hdest : dest + len ≤ b.size) :
    ∃ b', b.copyWithin? src dest len = some b' ∧ b'.index = b.index ∧ b'.size = b.size := by
  obtain ⟨bytes, rfl, heq⟩ := copyWithin?_eq_overwrite? hsrc dest
  rw [heq]
  exact overwrite?_eq_some hdest

namespace Operation

/-- The first of some operations is carried out before the others. -/
@[simp]
theorem performAll_cons (b : Buffer) (op : Operation) (ops : List Operation) :
    performAll b (op :: ops) = (op.perform b).bind (performAll · ops) := by
  unfold performAll
  rw [List.foldlM_cons, Option.bind_eq_bind]

/-- Some operations are carried out behind others. -/
theorem performAll_append (b : Buffer) (ops more : List Operation) :
    performAll b (ops ++ more) = (performAll b ops).bind (performAll · more) := by
  unfold performAll
  rw [List.foldlM_append, Option.bind_eq_bind]

end Operation

namespace RunsWithin

variable {b mid b' : Buffer} {op : Operation} {ops more : List Operation}

/-- Operations that stay within the content are carried out. -/
theorem performAll_eq (h : RunsWithin b ops b') : Operation.performAll b ops = some b' := by
  induction h with
  | nil b => rfl
  | cons hwithin hop hrest ih => rw [Operation.performAll_cons, hop, Option.bind_some, ih]

/-- One operation. -/
theorem single (hwithin : op.Within b) (hop : op.perform b = some b') : RunsWithin b [op] b' :=
  .cons hwithin hop (.nil b')

/-- Operations that stay within the content can be followed by others that do. -/
theorem append (h : RunsWithin b ops mid) (hmore : RunsWithin mid more b') :
    RunsWithin b (ops ++ more) b' := by
  induction h with
  | nil b => exact hmore
  | cons hwithin hop hrest ih => exact .cons hwithin hop (ih hmore)

end RunsWithin

end TextMacro.Buffer

namespace TextMacro.Zones

open Buffer (Operation RunsWithin)

/-- The zones do not overlap, and they lie inside the buffer. -/
structure InOrder (z : Zones) : Prop where
  passive_le : z.passive ≤ z.buffer.index
  inside : z.buffer.Inside

/-- The number of bytes between the zones. -/
def gap (z : Zones) : Nat := z.buffer.index - z.passive

/-- The bytes of both zones. -/
structure Contents where
  done : ByteArray
  active : ByteArray

/-- What is in the zones. -/
def contents (z : Zones) : Contents := ⟨z.done, z.active⟩

variable {z z' : Zones} {done active : ByteArray}

/-- Whether the zones are in order can be computed. -/
instance : Decidable z.InOrder :=
  decidable_of_iff (z.passive ≤ z.buffer.index ∧ z.buffer.Inside)
    ⟨fun h => ⟨h.1, h.2⟩, fun h => ⟨h.passive_le, h.inside⟩⟩

/-- Zones that show texts are in order. -/
theorem Shows.inOrder (h : z.Shows done active) : z.InOrder :=
  ⟨h.bounds.1, h.bounds.2⟩

/-- The contents of zones are the texts that they show. -/
theorem Shows.contents_eq (h : z.Shows done active) : z.contents = ⟨done, active⟩ := by
  unfold contents
  rw [h.done_eq, h.active_eq]

/-- Zones that are in order show the texts in them. -/
theorem InOrder.shows (h : z.InOrder) : z.Shows z.done z.active :=
  shows_of_bounds h.passive_le h.inside

/-! ## Movements -/

/-- What is done to the zones without a look at the text in them. -/
inductive Movement where
  /-- Places the result of a call. -/
  | splice (bytes : ByteArray) (active : Bool)
  /-- Moves bytes from the front of what is to be scanned to the end of what is done with. -/
  | transfer (n : Nat)

/-- The operation that makes room for `n` bytes between the zones, if the gap is too small. -/
def roomFor (z : Zones) (n : Nat) : List Operation :=
  if z.gap < n then [.insertAt z.passive (Buffer.zeros (n - z.gap))] else []

namespace Movement

/-- The zones that a movement leaves; nothing if it would reach outside the buffer. -/
def perform (z : Zones) : Movement → Option Zones
  | splice bytes active => z.splice? bytes active
  | transfer n => z.transfer? n

/-- What a movement makes of two texts. -/
def act (c : Contents) : Movement → Contents
  | splice bytes true => ⟨c.done, bytes ++ c.active⟩
  | splice bytes false => ⟨c.done ++ bytes, c.active⟩
  | transfer n => ⟨c.done ++ c.active.extract 0 n, c.active.extract n c.active.size⟩

/-- The bytes that a movement takes are there. -/
def Fits (c : Contents) : Movement → Prop
  | splice _ _ => True
  | transfer n => n ≤ c.active.size

/-- The operations on the buffer that a movement consists of. An active result ends where the text
to be scanned begins, and a passive one begins where what is done with ends. -/
def operations (z : Zones) : Movement → List Operation
  | splice bytes true =>
    z.roomFor bytes.size ++
      [.overwrite (z.passive + (z.gap - bytes.size)) bytes,
        .setIndex (z.passive + (z.gap - bytes.size))]
  | splice bytes false => z.roomFor bytes.size ++ [.overwrite z.passive bytes]
  | transfer n =>
    if z.passive = z.buffer.index then [.advance n]
    else [.copyWithin z.buffer.index z.passive n, .advance n]

/-- Where the bytes done with end after a movement. -/
def passiveAfter (z : Zones) : Movement → Nat
  | splice _ true => z.passive
  | splice bytes false => z.passive + bytes.size
  | transfer n => z.passive + n

/-- By how much a movement makes the buffer longer. -/
def growth (z : Zones) : Movement → Nat
  | splice bytes _ => bytes.size - z.gap
  | transfer _ => 0

end Movement

/-! ## A movement as operations on the buffer -/

/-- Making room leaves the bytes done with where they are, and the cursor as far behind them as
asked for. -/
theorem exists_room (h : z.passive ≤ z.buffer.index) (n : Nat) :
    ∃ b, Operation.performAll z.buffer (z.roomFor n) = some b ∧
      z.reserve? n = some ⟨b, z.passive⟩ ∧ b.index = z.passive + max z.gap n ∧
      b.size = z.buffer.size + (n - z.gap) := by
  obtain ⟨buffer, passive⟩ := z
  dsimp only at h
  unfold roomFor reserve? gap
  dsimp only
  rw [if_neg (Nat.not_lt_of_le h)]
  by_cases hgap : buffer.index - passive < n
  · -- What the gap lacks comes before the cursor, which moves along.
    rw [if_pos hgap, if_pos hgap]
    have hbefore : min passive buffer.size ≤ buffer.index := by omega
    refine ⟨_, rfl, rfl, ?_, ?_⟩
    · rw [Buffer.index_insertAt, if_pos hbefore, Buffer.size_zeros]
      omega
    · rw [Buffer.size_insertAt, Buffer.size_zeros]
  · rw [if_neg hgap, if_neg hgap]
    exact ⟨buffer, rfl, rfl, by omega, by omega⟩

/-- A movement is its operations in turn. -/
theorem perform_eq_performAll (h : z.passive ≤ z.buffer.index) (m : Movement) :
    m.perform z
      = (Operation.performAll z.buffer (m.operations z)).map (⟨·, m.passiveAfter z⟩) := by
  cases m with
  | splice bytes active =>
    obtain ⟨b, hroom, hreserve, hindex, -⟩ := exists_room h bytes.size
    cases active with
    | true =>
      -- There is room, so that going back from the cursor does not lead past `passive`.
      have hstart : b.index - bytes.size = z.passive + (z.gap - bytes.size) := by omega
      simp only [Movement.perform, Movement.operations, Movement.passiveAfter]
      rw [Operation.performAll_append, hroom, Option.bind_some, Operation.performAll_cons,
        Operation.perform]
      unfold splice?
      rw [hreserve]
      dsimp only
      rw [if_pos rfl, hstart]
      cases b.overwrite? (z.passive + (z.gap - bytes.size)) bytes with
      | none => rfl
      | some b' => rfl
    | false =>
      simp only [Movement.perform, Movement.operations, Movement.passiveAfter]
      rw [Operation.performAll_append, hroom, Option.bind_some, Operation.performAll_cons,
        Operation.perform]
      unfold splice?
      rw [hreserve]
      dsimp only
      rw [if_neg Bool.false_ne_true]
      cases b.overwrite? z.passive bytes with
      | none => rfl
      | some b' => rfl
  | transfer n =>
    simp only [Movement.perform, Movement.operations, Movement.passiveAfter]
    unfold transfer?
    dsimp only
    split
    · rfl
    · rw [Operation.performAll_cons, Operation.perform]
      cases z.buffer.copyWithin? z.buffer.index z.passive n with
      | none => rfl
      | some b => rfl

/-! ## What the operations reach -/

/-- The cursor is behind the gap. -/
theorem InOrder.index_eq (h : z.InOrder) : z.buffer.index = z.passive + z.gap := by
  have hle := h.passive_le
  unfold gap
  omega

/-- Making room stays within the content. -/
theorem InOrder.runsWithin_room {n : Nat} {b : Buffer} (h : z.InOrder)
    (hroom : Operation.performAll z.buffer (z.roomFor n) = some b) :
    RunsWithin z.buffer (z.roomFor n) b := by
  have hwithin : z.passive ≤ z.buffer.size := Nat.le_trans h.passive_le h.inside
  unfold roomFor at hroom ⊢
  by_cases hgap : z.gap < n
  · rw [if_pos hgap] at hroom ⊢
    exact .single hwithin (by simpa [Operation.performAll] using hroom)
  · rw [if_neg hgap] at hroom ⊢
    obtain rfl : z.buffer = b := Option.some.inj hroom
    exact .nil z.buffer

/-- Every operation of a movement whose bytes are there stays within the content that it meets. -/
theorem Movement.exists_runsWithin {m : Movement} (h : z.InOrder) (hfits : m.Fits z.contents) :
    ∃ b, RunsWithin z.buffer (m.operations z) b ∧ b.size = z.buffer.size + m.growth z := by
  have hgap := h.index_eq
  have hinside : z.buffer.index ≤ z.buffer.size := h.inside
  cases m with
  | splice bytes active =>
    obtain ⟨b, hroom, -, hindex, hsize⟩ := exists_room h.passive_le bytes.size
    have hrun := h.runsWithin_room hroom
    cases active with
    | true =>
      -- The result ends at the cursor, which making room has left inside the content.
      have hstart : z.passive + (z.gap - bytes.size) + bytes.size ≤ b.size := by omega
      obtain ⟨b', hwrite, -, hsize'⟩ := Buffer.overwrite?_eq_some hstart
      have hback : z.passive + (z.gap - bytes.size) ≤ b'.size := by omega
      exact ⟨_, hrun.append (.cons hstart hwrite (.single hback rfl)),
        (Buffer.size_setIndex _ _).trans (hsize'.trans hsize)⟩
    | false =>
      have hstart : z.passive + bytes.size ≤ b.size := by omega
      obtain ⟨b', hwrite, -, hsize'⟩ := Buffer.overwrite?_eq_some hstart
      exact ⟨b', hrun.append (.single hstart hwrite), hsize'.trans hsize⟩
  | transfer n =>
    have hsize : z.buffer.size = z.buffer.index + z.active.size := h.shows.size_eq
    have htaken : n ≤ z.active.size := hfits
    have hthere : z.buffer.index + n ≤ z.buffer.size := by omega
    simp only [operations, growth]
    split
    · exact ⟨_, .single hthere rfl, Buffer.size_advance _ _⟩
    · -- The place that the bytes come to is before theirs, however far the two overlap.
      have hdest : z.passive + n ≤ z.buffer.size := by omega
      obtain ⟨b, hcopy, hindex, hsize⟩ := Buffer.copyWithin?_eq_some hthere hdest
      have hforward : b.index + n ≤ b.size := by omega
      exact ⟨_, .cons ⟨hthere, hdest⟩ hcopy (.single hforward rfl),
        (Buffer.size_advance _ _).trans hsize⟩

/-! ## What a movement makes of the zones -/

/-- What is in the zones after a movement depends only on what was in them. -/
theorem Shows.perform {m : Movement} (h : z.Shows done active) (hfits : m.Fits ⟨done, active⟩) :
    ∃ z', m.perform z = some z' ∧
      z'.Shows (m.act ⟨done, active⟩).done (m.act ⟨done, active⟩).active := by
  cases m with
  | splice bytes inFront =>
    cases inFront with
    | true => exact h.splice_active
    | false => exact h.splice_passive
  | transfer n =>
    obtain ⟨taken, rest, rfl, rfl⟩ := Buffer.exists_eq_append hfits
    have htaken : (taken ++ rest).extract 0 taken.size = taken :=
      ByteArray.extract_append_eq_left rfl
    have hrest : (taken ++ rest).extract taken.size (taken ++ rest).size = rest :=
      ByteArray.extract_append_eq_right rfl ByteArray.size_append
    simp only [Movement.act, htaken, hrest]
    exact h.transfer rfl

/-- `z'` comes from `z` by a movement, only by operations within the content, and has `c` in its
zones. -/
structure Moved (z : Zones) (m : Movement) (c : Contents) (z' : Zones) : Prop where
  performed : m.perform z = some z'
  accesses : RunsWithin z.buffer (m.operations z) z'.buffer
  inOrder : z'.InOrder
  contents_eq : z'.contents = c
  /-- The buffer becomes longer only by what the gap lacks. -/
  size_eq : z'.buffer.size = z.buffer.size + m.growth z

/-- A movement whose bytes are there acts on the two texts in the zones. -/
theorem InOrder.exists_moved {m : Movement} (h : z.InOrder) (hfits : m.Fits z.contents) :
    ∃ z', Moved z m (m.act z.contents) z' := by
  obtain ⟨z', hz', hshows⟩ := h.shows.perform hfits
  obtain ⟨b, hrun, hsize⟩ := Movement.exists_runsWithin h hfits
  have hperform := perform_eq_performAll h.passive_le m
  rw [hrun.performAll_eq, hz', Option.map_some, Option.some.injEq] at hperform
  subst hperform
  exact ⟨_, hz', hrun, hshows.inOrder, hshows.contents_eq, hsize⟩

/-- A movement whose bytes are not there is refused, or leaves the zones overlapping. -/
theorem InOrder.fits_of_perform {m : Movement} (h : z.InOrder) (hz' : m.perform z = some z')
    (horder : z'.InOrder) : m.Fits z.contents := by
  cases m with
  | splice bytes active => trivial
  | transfer n =>
    have hsize : z.buffer.size = z.buffer.index + z.active.size := h.shows.size_eq
    have hkept : z'.buffer.size = z.buffer.size := (transfer?_bounds hz').1
    have hperform := perform_eq_performAll h.passive_le (.transfer n)
    rw [hz'] at hperform
    obtain ⟨b, hrun, rfl⟩ := Option.map_eq_some_iff.mp hperform.symm
    show n ≤ z.active.size
    by_cases hgap : z.passive = z.buffer.index
    · -- Nothing is copied, and too many bytes would leave `passive` behind the cursor.
      have hpassive : z.passive + n ≤ b.index := horder.passive_le
      have hindex : b.index ≤ b.size := horder.inside
      dsimp only at hkept
      omega
    · -- Too many bytes cannot be copied, since they would come from past the end.
      refine Nat.le_of_not_lt fun hmore => ?_
      have hsrc : ¬ z.buffer.index + n ≤ z.buffer.size := by omega
      have hnone := Buffer.copyWithin?_eq_none hsrc z.passive
      simp [Movement.operations, hgap, Operation.perform, hnone] at hrun

/-- The movements that are carried out and leave the zones in order are those whose bytes are
there. -/
theorem InOrder.exists_perform_iff (h : z.InOrder) (m : Movement) :
    (∃ z', m.perform z = some z' ∧ z'.InOrder) ↔ m.Fits z.contents := by
  constructor
  · rintro ⟨z', hz', horder⟩
    exact h.fits_of_perform hz' horder
  · intro hfits
    obtain ⟨z', hmoved⟩ := h.exists_moved hfits
    exact ⟨z', hmoved.performed, hmoved.inOrder⟩

/-! ## Movements in turn -/

namespace Movement

/-- The zones that movements leave that are carried out in turn. -/
def performAll (z : Zones) (ms : List Movement) : Option Zones :=
  ms.foldlM (fun z m => m.perform z) z

/-- What movements make of two texts. -/
def actAll (c : Contents) (ms : List Movement) : Contents :=
  ms.foldl (fun c m => m.act c) c

/-- Each movement finds the bytes that it takes, once those before it are carried out. -/
def FitAll : Contents → List Movement → Prop
  | _, [] => True
  | c, m :: ms => m.Fits c ∧ FitAll (m.act c) ms

/-- Any number of movements act on the two texts in the zones. -/
theorem performAll_acts {ms : List Movement} (h : z.InOrder) (hfit : FitAll z.contents ms) :
    ∃ z', performAll z ms = some z' ∧ z'.InOrder ∧ z'.contents = actAll z.contents ms := by
  -- Each movement leaves the zones in order, with the texts that the next one has to fit.
  induction ms generalizing z with
  | nil => exact ⟨z, rfl, h, rfl⟩
  | cons m ms ih =>
    obtain ⟨mid, hmid⟩ := h.exists_moved hfit.1
    have hrest : FitAll mid.contents ms := by
      rw [hmid.contents_eq]
      exact hfit.2
    obtain ⟨z', hz', horder, hcontents⟩ := ih hmid.inOrder hrest
    refine ⟨z', ?_, horder, ?_⟩
    · unfold performAll
      rw [List.foldlM_cons, hmid.performed]
      exact hz'
    · rw [hcontents, hmid.contents_eq]
      rfl

end Movement

/-- Movements act on the two zones alone, whatever the gap between them. -/
structure ActsOnZones (z : Zones) : Prop where
  /-- An active result leaves what is done with, and is in front of what is to be scanned. -/
  splice_active : ∀ bytes : ByteArray,
    ∃ z', Moved z (.splice bytes true) ⟨z.done, bytes ++ z.active⟩ z'
  /-- A passive result is at the end of what is done with, and leaves what is to be scanned. -/
  splice_passive : ∀ bytes : ByteArray,
    ∃ z', Moved z (.splice bytes false) ⟨z.done ++ bytes, z.active⟩ z'
  transfer : ∀ n : Nat, n ≤ z.active.size →
    ∃ z', Moved z (.transfer n)
      ⟨z.done ++ z.active.extract 0 n, z.active.extract n z.active.size⟩ z'
  /-- A movement is nothing but its operations, also where it is refused. -/
  operations_eq : ∀ m : Movement, m.perform z
    = (Operation.performAll z.buffer (m.operations z)).map (⟨·, m.passiveAfter z⟩)
  /-- The place of an active result is found by going back from a cursor that is far enough behind
  what is done with. -/
  room : ∀ n : Nat, ∃ b, z.reserve? n = some ⟨b, z.passive⟩ ∧ z.passive + n ≤ b.index
  /-- A movement that takes more than there is does not leave the zones in order. -/
  carried_out : ∀ m : Movement, (∃ z', m.perform z = some z' ∧ z'.InOrder) ↔ m.Fits z.contents
  in_turn : ∀ ms : List Movement, Movement.FitAll z.contents ms →
    ∃ z', Movement.performAll z ms = some z' ∧ z'.InOrder ∧
      z'.contents = Movement.actAll z.contents ms

/-- Whatever is in the buffer and however large the gap is, a spliced result and transferred bytes
change the zones as if these were two texts. An active result is put in front of what is to be
scanned and a passive one at the end of what is done with, where the other zone stays. As many bytes
as are to be scanned, or fewer, go from the one to the other, also where they are copied over
themselves. All that is read and written lies inside the buffer, the zones stay in order, and so it
is after any number of movements. -/
theorem movements_act_on_zones (z : Zones) (h : z.InOrder) : z.ActsOnZones where
  splice_active bytes := h.exists_moved (m := .splice bytes true) trivial
  splice_passive bytes := h.exists_moved (m := .splice bytes false) trivial
  transfer n htaken := h.exists_moved (m := .transfer n) htaken
  operations_eq m := perform_eq_performAll h.passive_le m
  room n := by
    obtain ⟨b, -, hreserve, hindex, -⟩ := exists_room h.passive_le n
    exact ⟨b, hreserve, by omega⟩
  carried_out m := h.exists_perform_iff m
  in_turn ms hfit := Movement.performAll_acts h hfit

/-- A program with one byte between its zones: `ab`, a byte that is free, and `cdefg`. -/
def narrow : Zones :=
  ⟨⟨[0x61, 0x62, 0x00, 0x63, 0x64, 0x65, 0x66, 0x67].toByteArray, 3⟩, 2⟩

/-- Four bytes are copied over themselves, and results of three bytes are longer than the gap. -/
theorem movements_act_on_zones_narrow :
    narrow.InOrder ∧ narrow.gap = 1 ∧
      (∃ z', narrow.transfer? 4 = some z' ∧ z'.InOrder ∧
        z'.contents = ⟨[0x61, 0x62, 0x63, 0x64, 0x65, 0x66].toByteArray, [0x67].toByteArray⟩) ∧
      (∃ z', narrow.splice? [0x78, 0x79, 0x7A].toByteArray true = some z' ∧ z'.InOrder ∧
        z'.buffer.size = 10 ∧ z'.contents = ⟨[0x61, 0x62].toByteArray,
          [0x78, 0x79, 0x7A, 0x63, 0x64, 0x65, 0x66, 0x67].toByteArray⟩) := by
  have horder : narrow.InOrder := by decide
  have hacts := movements_act_on_zones narrow horder
  refine ⟨horder, rfl, ?_, ?_⟩
  · obtain ⟨z', hz'⟩ := hacts.transfer 4 (by decide)
    exact ⟨z', hz'.performed, hz'.inOrder, hz'.contents_eq⟩
  · obtain ⟨z', hz'⟩ := hacts.splice_active [0x78, 0x79, 0x7A].toByteArray
    exact ⟨z', hz'.performed, hz'.inOrder, hz'.size_eq, hz'.contents_eq⟩

end TextMacro.Zones
