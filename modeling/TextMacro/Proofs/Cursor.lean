import TextMacro.Buffer.Read
import TextMacro.Proofs.Zones

/-!
# The cursor of a buffer

Whatever is done to a buffer, its cursor stays inside the content or at its end
(`Operation.inside_perform`). For the operations that read, this is a fact about their scans, which
only move forward and never pass the end, also where they meet bytes that are no unit (`Forward`).

Inserting and removing are described on a content that is taken apart where the bytes go in or come
out (`insertAt_append`, `removeAt_append`), from which follows what becomes of the bytes before the
cursor and behind it.
-/

namespace TextMacro.Buffer

open TextUnit

/-- The cursor is inside the content or at its end. -/
def Inside (b : Buffer) : Prop := b.index ≤ b.size

/-- Whether the cursor is inside the content can be computed. -/
instance (b : Buffer) : Decidable b.Inside := inferInstanceAs (Decidable (_ ≤ _))

/-- The bytes before the cursor. -/
def passed (b : Buffer) : ByteArray := b.content.extract 0 b.index

/-! ## Reading -/

section Scans

variable {b : ByteArray} {pos : Nat}

/-- A unit ends inside the bytes. -/
theorem le_size_of_decodeAt {u : TextUnit} (h : decodeAt b pos = .ok (some u)) :
    pos + u.width ≤ b.size :=
  (extract_eq_encode_of_decodeAt h).1

/-- The result of a scan of bytes from a position on has a position behind it, or the same, which is
not past the end. -/
def Forward {α : Type} (b : ByteArray) (pos : Nat) (result : Nat × Except Error α) : Prop :=
  pos ≤ result.1 ∧ result.1 ≤ b.size

/-- What is scanned from a position behind is scanned from before it. -/
theorem Forward.of_le {α : Type} {next : Nat} {result : Nat × Except Error α}
    (h : Forward b next result) (hle : pos ≤ next) : Forward b pos result :=
  ⟨Nat.le_trans hle h.1, h.2⟩

/-- A character is read forward. -/
theorem forward_charFrom (hpos : pos ≤ b.size) : Forward b pos (charFrom b pos) := by
  fun_induction charFrom b pos with
  | case1 pos e he => exact ⟨Nat.le_refl pos, hpos⟩
  | case2 pos hn => exact ⟨Nat.le_refl pos, hpos⟩
  | case3 pos c hc => exact ⟨Nat.le_add_right pos _, le_size_of_decodeAt hc⟩
  | case4 pos u hu hmark ih => exact (ih (le_size_of_decodeAt hmark)).of_le (Nat.le_add_right pos _)

/-- Characters are read forward. -/
theorem forward_charsFrom (n : Nat) (out : String) (hpos : pos ≤ b.size) :
    Forward b pos (charsFrom b n pos out) := by
  have hread : ∀ pos, pos ≤ b.size → Forward b pos (charFrom b pos) := fun _ => forward_charFrom
  fun_induction charsFrom b n pos out with
  | case1 pos out => exact ⟨Nat.le_refl pos, hpos⟩
  | case2 n pos out next c hc ih =>
    have hnext := hread pos hpos
    rw [hc] at hnext
    exact (ih hnext.2).of_le hnext.1
  | case3 n pos out next hn =>
    have hnext := hread pos hpos
    rwa [hn] at hnext
  | case4 n pos out next e he =>
    have hnext := hread pos hpos
    rwa [he] at hnext

/-- Characters that pass a test are read forward. -/
theorem forward_charsWhileFrom (keep : Char → Bool) (out : String) (hpos : pos ≤ b.size) :
    Forward b pos (charsWhileFrom b keep pos out) := by
  fun_induction charsWhileFrom b keep pos out with
  | case1 pos out e he => exact ⟨Nat.le_refl pos, hpos⟩
  | case2 pos out hn => exact ⟨Nat.le_refl pos, hpos⟩
  | case3 pos out c hc hkeep ih => exact (ih (le_size_of_decodeAt hc)).of_le (Nat.le_add_right pos _)
  | case4 pos out c hc hkeep => exact ⟨Nat.le_refl pos, hpos⟩
  | case5 pos out u hu hmark ih => exact (ih (le_size_of_decodeAt hmark)).of_le (Nat.le_add_right pos _)

/-- The characters up to a mark are read forward. -/
theorem forward_segmentFrom (out : String) (hpos : pos ≤ b.size) :
    Forward b pos (segmentFrom b pos out) := by
  fun_induction segmentFrom b pos out with
  | case1 pos out e he => exact ⟨Nat.le_refl pos, hpos⟩
  | case2 pos out hn => exact ⟨Nat.le_refl pos, hpos⟩
  | case3 pos out c hc ih => exact (ih (le_size_of_decodeAt hc)).of_le (Nat.le_add_right pos _)
  | case4 pos out u hu hmark => exact ⟨Nat.le_add_right pos _, le_size_of_decodeAt hmark⟩

/-- An item is read forward. -/
theorem forward_itemFrom (opening stop closing : Char) (depth : Nat) (out : String)
    (hpos : pos ≤ b.size) : Forward b pos (itemFrom b opening stop closing pos depth out) := by
  have hread := forward_charFrom hpos
  fun_induction itemFrom b opening stop closing pos depth out with
  | case1 pos depth out next e he => rwa [he] at hread
  | case2 pos depth out next hn => rwa [hn] at hread
  | case3 pos depth out next c hc hstop => rwa [hc] at hread
  | case4 pos depth out next c hc hstop depth' ih =>
    rw [hc] at hread
    exact (ih hread.2 (forward_charFrom hread.2)).of_le hread.1

end Scans

/-- A buffer comes from another by moving the cursor forward. -/
structure MovedForward (b b' : Buffer) : Prop where
  content_eq : b'.content = b.content
  le_index : b.index ≤ b'.index
  inside : b'.Inside

/-- The buffer that an operation leaves that reads, also one that fails. -/
def Reader.leaves {α : Type} (reader : Reader α) (b : Buffer) : Buffer :=
  match reader b with
  | .ok _ b => b
  | .error _ b => b

/-- An operation that moves the cursor forward and not past the end, whatever the content. -/
def Reader.Advances {α : Type} (reader : Reader α) : Prop :=
  ∀ b : Buffer, b.Inside → MovedForward b (reader.leaves b)

/-- An operation that runs a scan. -/
theorem advances_scanning {α : Type} {scan : ByteArray → Nat → Nat × Except Error α}
    (hscan : ∀ b pos, pos ≤ b.size → Forward b pos (scan b pos)) :
    Reader.Advances (scanning scan) := by
  intro b hinside
  have hforward := hscan b.content b.index hinside
  have hleaves : (scanning scan).leaves b = ⟨b.content, (scan b.content b.index).1⟩ := by
    unfold Reader.leaves scanning
    rcases scan b.content b.index with ⟨index, e | a⟩
    · rfl
    · rfl
  rw [hleaves]
  exact ⟨rfl, hforward.1, hforward.2⟩

/-- Reading leaves the cursor inside the content or at its end. -/
theorem Reader.Advances.inside_leaves {α : Type} {reader : Reader α} {b b' : Buffer}
    (h : reader.Advances) (hinside : b.Inside) (hb' : some (reader.leaves b) = some b') :
    b'.Inside := by
  obtain rfl := Option.some.inj hb'
  exact (h b hinside).inside

/-- An operation whose result is changed. -/
theorem Reader.Advances.map {α β : Type} {reader : Reader α} (h : reader.Advances) (f : α → β) :
    Reader.Advances (f <$> reader) := by
  intro b hinside
  have hleaves : (f <$> reader).leaves b = reader.leaves b := by
    show (match EStateM.map f reader b with | .ok _ b => b | .error _ b => b) = _
    unfold EStateM.map Reader.leaves
    cases reader b with
    | ok a b' => rfl
    | error e b' => rfl
  rw [hleaves]
  exact h b hinside

/-- Reading a unit moves the cursor on, and not past the end. -/
theorem advances_readUnit : Reader.Advances readUnit := by
  refine advances_scanning fun b pos hpos => ?_
  split
  · exact ⟨Nat.le_refl pos, hpos⟩
  · exact ⟨Nat.le_refl pos, hpos⟩
  · rename_i u hu
    exact ⟨Nat.le_add_right pos u.width, le_size_of_decodeAt hu⟩

/-- Reading a character moves the cursor on, and not past the end. -/
theorem advances_readChar : Reader.Advances readChar :=
  advances_scanning fun _ _ hpos => forward_charFrom hpos

/-- Reading a number of characters moves the cursor on, and not past the end. -/
theorem advances_takeChars (n : Nat) : Reader.Advances (takeChars n) :=
  advances_scanning fun _ _ hpos => forward_charsFrom n "" hpos

/-- Reading the characters of a class moves the cursor on, and not past the end. -/
theorem advances_takeWhile (keep : Char → Bool) : Reader.Advances (takeWhile keep) :=
  advances_scanning fun _ _ hpos => forward_charsWhileFrom keep "" hpos

/-- Reading up to a mark moves the cursor on, and not past the end. -/
theorem advances_readSegment : Reader.Advances readSegment :=
  advances_scanning fun _ _ hpos => forward_segmentFrom "" hpos

/-- Reading up to a semicolon moves the cursor on, and not past the end. -/
theorem advances_readItem (opening stop closing : Char) :
    Reader.Advances (readItem opening stop closing) :=
  advances_scanning fun _ _ hpos => forward_itemFrom opening stop closing 0 "" hpos

/-! ## Inserting and removing -/

section Editing

variable {b : Buffer} {pos count : Nat} {bytes : ByteArray}

/-- The bytes before a cursor behind `x`. -/
theorem passed_append (x y : ByteArray) : passed ⟨x ++ y, x.size⟩ = x :=
  ByteArray.extract_append_eq_left rfl

/-- The bytes behind a cursor before `y`. -/
theorem remaining_append (x y : ByteArray) : remaining ⟨x ++ y, x.size⟩ = y :=
  ByteArray.extract_append_eq_right rfl ByteArray.size_append

/-- A position past the end counts as the end. -/
theorem insertAt_min : b.insertAt (min pos b.size) bytes = b.insertAt pos bytes := by
  obtain ⟨content, index⟩ := b
  unfold insertAt size
  dsimp only
  rw [Nat.min_assoc, Nat.min_self]

/-- Inserting puts the bytes where the content is taken apart. -/
theorem insertAt_append (x y : ByteArray) (index : Nat) :
    insertAt ⟨x ++ y, index⟩ x.size bytes
      = ⟨x ++ (bytes ++ y), if x.size ≤ index then index + bytes.size else index⟩ := by
  have hmin : min x.size (x ++ y).size = x.size := by
    rw [ByteArray.size_append]
    omega
  unfold insertAt
  dsimp only
  rw [hmin, insertBytes_append]

/-- Removing takes the middle out of the content. -/
theorem removeAt_append (x m y : ByteArray) (index : Nat) :
    removeAt ⟨x ++ (m ++ y), index⟩ x.size m.size
      = ⟨x ++ y, if x.size < index then index - min m.size (index - x.size) else index⟩ := by
  have hsize : (x ++ (m ++ y)).size = x.size + m.size + y.size := by
    rw [ByteArray.size_append, ByteArray.size_append, Nat.add_assoc]
  have hstart : min x.size (x.size + m.size + y.size) = x.size := by omega
  have hstop : min (x.size + m.size) (x.size + m.size + y.size) = (x ++ m).size := by
    rw [ByteArray.size_append]
    omega
  have hfront : (x ++ (m ++ y)).extract 0 x.size = x := ByteArray.extract_append_eq_left rfl
  have hback : (x ++ (m ++ y)).extract (x ++ m).size (x.size + m.size + y.size) = y := by
    rw [← ByteArray.append_assoc]
    refine ByteArray.extract_append_eq_right rfl ?_
    rw [ByteArray.size_append]
  have hcount : (x ++ m).size - x.size = m.size := by
    rw [ByteArray.size_append, Nat.add_sub_cancel_left]
  unfold removeAt
  dsimp only
  rw [hsize, hstart, hstop, hfront, hback, hcount]

/-- What removing does, with the content taken apart at the ends of the range, as far as there is
one. -/
theorem exists_removed (b : Buffer) (pos count : Nat) :
    ∃ x m y, b.content = x ++ (m ++ y) ∧ x.size = min pos b.size ∧
      x.size + m.size = min (pos + count) b.size ∧
      b.removeAt pos count = removeAt ⟨x ++ (m ++ y), b.index⟩ x.size m.size := by
  obtain ⟨content, index⟩ := b
  obtain ⟨x, z, rfl, hx⟩ := exists_eq_append (b := content) (n := min pos content.size)
    (Nat.min_le_right _ _)
  obtain ⟨m, y, rfl, hm⟩ := exists_eq_append (b := z)
    (n := min (pos + count) (x ++ z).size - x.size) (by rw [ByteArray.size_append]; omega)
  refine ⟨x, m, y, rfl, hx, ?_, ?_⟩
  · unfold size
    dsimp only
    omega
  · have hstart : min x.size (x ++ (m ++ y)).size = min pos (x ++ (m ++ y)).size := by omega
    have hstop : min (x.size + m.size) (x ++ (m ++ y)).size
        = min (pos + count) (x ++ (m ++ y)).size := by omega
    unfold removeAt
    dsimp only
    rw [hstart, hstop]

/-- The size of the content after bytes are inserted. -/
theorem size_insertAt (b : Buffer) (pos : Nat) (bytes : ByteArray) :
    (b.insertAt pos bytes).size = b.size + bytes.size := by
  rw [← insertAt_min]
  obtain ⟨content, index⟩ := b
  obtain ⟨x, y, rfl, hx⟩ := exists_eq_append (b := content) (n := min pos content.size)
    (Nat.min_le_right _ _)
  show (insertAt ⟨x ++ y, index⟩ (min pos (x ++ y).size) bytes).content.size = (x ++ y).size + _
  rw [← hx, insertAt_append]
  simp only [ByteArray.size_append]
  omega

/-- Where the cursor is after bytes are inserted. -/
theorem index_insertAt (b : Buffer) (pos : Nat) (bytes : ByteArray) :
    (b.insertAt pos bytes).index
      = if min pos b.size ≤ b.index then b.index + bytes.size else b.index := rfl

/-- Bytes that are inserted at the cursor or before it leave what is behind the cursor. -/
theorem remaining_insertAt (h : b.Inside) (hpos : min pos b.size ≤ b.index) :
    (b.insertAt pos bytes).remaining = b.remaining := by
  rw [← insertAt_min]
  obtain ⟨content, index⟩ := b
  obtain ⟨x, z, rfl, hx⟩ := exists_eq_append (b := content) (n := min pos content.size)
    (Nat.min_le_right _ _)
  unfold Inside size at h
  unfold size at hpos ⊢
  dsimp only at h hpos ⊢
  -- What is behind the position is taken apart at the cursor.
  obtain ⟨y, w, rfl, hy⟩ := exists_eq_append (b := z) (n := index - x.size) (by
    rw [ByteArray.size_append] at h
    omega)
  have hindex : index = (x ++ y).size := by
    rw [ByteArray.size_append]
    omega
  have hmoved : index + bytes.size = (x ++ (bytes ++ y)).size := by
    rw [hindex, ByteArray.size_append, ByteArray.size_append, ByteArray.size_append]
    omega
  have hold : x ++ (y ++ w) = (x ++ y) ++ w := ByteArray.append_assoc.symm
  have hnew : x ++ (bytes ++ (y ++ w)) = (x ++ (bytes ++ y)) ++ w := by
    rw [ByteArray.append_assoc, ByteArray.append_assoc]
  rw [← hx, insertAt_append, if_pos (by omega), hnew, hmoved, remaining_append, hold, hindex,
    remaining_append]

/-- Bytes that are inserted at the cursor or behind it leave what was before the cursor. -/
theorem extract_insertAt (h : b.Inside) (hpos : b.index ≤ pos) :
    (b.insertAt pos bytes).content.extract 0 b.index = b.passed := by
  rw [← insertAt_min]
  obtain ⟨content, index⟩ := b
  unfold Inside size at h
  unfold size
  dsimp only at h hpos ⊢
  -- What is before the position is taken apart at the cursor.
  obtain ⟨x, z, rfl, hx⟩ := exists_eq_append h
  obtain ⟨y, w, rfl, hy⟩ := exists_eq_append (b := z) (n := min pos (x ++ z).size - x.size) (by
    rw [ByteArray.size_append]
    omega)
  have hplace : min pos (x ++ (y ++ w)).size = (x ++ y).size := by
    rw [ByteArray.size_append (a := x) (b := y), hy]
    omega
  subst hx
  rw [hplace, passed_append, ← ByteArray.append_assoc, insertAt_append, ByteArray.append_assoc]
  exact ByteArray.extract_append_eq_left rfl

/-- What is removed before the cursor leaves what is behind it. -/
theorem remaining_removeAt (h : b.Inside) (hstop : min (pos + count) b.size ≤ b.index) :
    (b.removeAt pos count).remaining = b.remaining := by
  obtain ⟨x, m, z, hcontent, hx, hm, heq⟩ := exists_removed b pos count
  obtain ⟨content, index⟩ := b
  unfold Inside size at h
  unfold size at hx hm hstop
  dsimp only at h hcontent hx hm hstop heq
  subst hcontent
  obtain ⟨y, w, rfl, hy⟩ := exists_eq_append (b := z) (n := index - (x.size + m.size)) (by
    rw [ByteArray.size_append, ByteArray.size_append] at h
    omega)
  have hindex : index = (x ++ (m ++ y)).size := by
    rw [ByteArray.size_append, ByteArray.size_append]
    omega
  have hmoved : (if x.size < index then index - min m.size (index - x.size) else index)
      = (x ++ y).size := by
    rw [ByteArray.size_append]
    split
    · omega
    · omega
  have hold : x ++ (m ++ (y ++ w)) = (x ++ (m ++ y)) ++ w := by
    rw [ByteArray.append_assoc, ByteArray.append_assoc]
  have hnew : x ++ (y ++ w) = (x ++ y) ++ w := ByteArray.append_assoc.symm
  rw [heq, removeAt_append, hmoved, hnew, remaining_append, hold, hindex, remaining_append]

/-- Where the cursor is after bytes are removed. -/
theorem index_removeAt (b : Buffer) (pos count : Nat) :
    (b.removeAt pos count).index
      = if b.index ≤ min pos b.size then b.index
        else if b.index ≤ min (pos + count) b.size then min pos b.size
        else b.index - (min (pos + count) b.size - min pos b.size) := by
  unfold removeAt size
  dsimp only
  split
  · split
    · omega
    · split
      · omega
      · omega
  · split
    · rfl
    · omega

/-- The size of the content after bytes are removed. -/
theorem size_removeAt (b : Buffer) (pos count : Nat) :
    (b.removeAt pos count).size = b.size - (min (pos + count) b.size - min pos b.size) := by
  unfold removeAt size
  rw [ByteArray.size_append, ByteArray.size_extract, ByteArray.size_extract]
  omega

/-- Removing what was inserted restores the buffer. -/
theorem removeAt_insertAt (hpos : pos ≤ b.size) :
    (b.insertAt pos bytes).removeAt pos bytes.size = b := by
  obtain ⟨content, index⟩ := b
  obtain ⟨x, y, rfl, rfl⟩ := exists_eq_append hpos
  rw [insertAt_append, removeAt_append]
  split
  · congr 1
    split
    · omega
    · omega
  · rw [if_neg (by omega)]

end Editing

/-! ## All operations -/

/-- What can be done to a buffer. -/
inductive Operation where
  | append (bytes : ByteArray)
  | pushUnit (u : TextUnit)
  | insertAt (pos : Nat) (bytes : ByteArray)
  | removeAt (pos count : Nat)
  | overwrite (pos : Nat) (bytes : ByteArray)
  | copyWithin (src dest len : Nat)
  | setLength (len : Nat)
  | take
  | clear
  | setIndex (index : Nat)
  | advance (n : Nat)
  | resetIndex
  | readUnit
  | readChar
  | takeChars (n : Nat)
  | skipChars (n : Nat)
  | takeWhile (keep : Char → Bool)
  | skipWhile (keep : Char → Bool)
  | readSegment
  | readItem (opening stop closing : Char)

namespace Operation

/-- Whether what is written over, and what is copied, lies inside the content. -/
def InRange (b : Buffer) : Operation → Prop
  | overwrite pos bytes => pos + bytes.size ≤ b.size
  | copyWithin src dest len => src + len ≤ b.size ∧ dest + len ≤ b.size
  | _ => True

/-- The buffer that an operation leaves; nothing if it would reach outside the content. -/
def perform (b : Buffer) : Operation → Option Buffer
  | append bytes => some (b.append bytes)
  | pushUnit u => some (b.pushUnit u)
  | insertAt pos bytes => some (b.insertAt pos bytes)
  | removeAt pos count => some (b.removeAt pos count)
  | overwrite pos bytes => b.overwrite? pos bytes
  | copyWithin src dest len => b.copyWithin? src dest len
  | setLength len => some (b.setLength len)
  | take => some b.take.2
  | clear => some b.clear
  | setIndex index => some (b.setIndex index)
  | advance n => some (b.advance n)
  | resetIndex => some b.resetIndex
  | readUnit => some (Buffer.readUnit.leaves b)
  | readChar => some (Buffer.readChar.leaves b)
  | takeChars n => some ((Buffer.takeChars n).leaves b)
  | skipChars n => some ((Buffer.skipChars n).leaves b)
  | takeWhile keep => some ((Buffer.takeWhile keep).leaves b)
  | skipWhile keep => some ((Buffer.skipWhile keep).leaves b)
  | readSegment => some (Buffer.readSegment.leaves b)
  | readItem opening stop closing => some ((Buffer.readItem opening stop closing).leaves b)

end Operation

section Operations

variable {b b' : Buffer}

/-- Writing over bytes inside the content leaves its size and the cursor. -/
theorem overwrite?_eq_some {pos : Nat} {bytes : ByteArray} (hrange : pos + bytes.size ≤ b.size) :
    ∃ b', b.overwrite? pos bytes = some b' ∧ b'.index = b.index ∧ b'.size = b.size := by
  obtain ⟨content, index⟩ := b
  exact ⟨_, if_pos hrange, rfl, Zones.size_overwriteBytes hrange⟩

/-- Writing over bytes that do not lie inside the content is refused. -/
theorem overwrite?_eq_none {pos : Nat} {bytes : ByteArray}
    (hrange : ¬ pos + bytes.size ≤ b.size) : b.overwrite? pos bytes = none := by
  obtain ⟨content, index⟩ := b
  exact if_neg hrange

/-- Exactly what lies inside the content can be written over. -/
theorem exists_overwrite?_iff {pos : Nat} {bytes : ByteArray} :
    (∃ b', b.overwrite? pos bytes = some b') ↔ pos + bytes.size ≤ b.size := by
  by_cases hrange : pos + bytes.size ≤ b.size
  · obtain ⟨b', hb', -⟩ := overwrite?_eq_some hrange
    exact iff_of_true ⟨b', hb'⟩ hrange
  · rw [overwrite?_eq_none hrange]
    exact iff_of_false (by simp) hrange

/-- Copying writes over the bytes at the one place those at the other. -/
theorem copyWithin?_eq_overwrite? {src len : Nat} (hsrc : src + len ≤ b.size) (dest : Nat) :
    ∃ bytes : ByteArray, bytes.size = len ∧ b.copyWithin? src dest len = b.overwrite? dest bytes := by
  refine ⟨b.content.extract src (src + len), ?_, if_pos hsrc⟩
  unfold size at hsrc
  rw [ByteArray.size_extract]
  omega

/-- The size of the content after it is cut off or extended. -/
theorem size_setLength (b : Buffer) (len : Nat) : (b.setLength len).size = len := by
  unfold setLength size
  rw [ByteArray.size_append, ByteArray.size_extract, size_zeros]
  omega

/-- Copying from outside the content is refused. -/
theorem copyWithin?_eq_none {src len : Nat} (hsrc : ¬ src + len ≤ b.size) (dest : Nat) :
    b.copyWithin? src dest len = none :=
  if_neg hsrc

/-- The operations that are carried out are those that stay in range. -/
theorem Operation.exists_perform_iff (op : Operation) :
    (∃ b', op.perform b = some b') ↔ op.InRange b := by
  cases op with
  | overwrite pos bytes => exact exists_overwrite?_iff
  | copyWithin src dest len =>
    show (∃ b', b.copyWithin? src dest len = some b') ↔ src + len ≤ b.size ∧ dest + len ≤ b.size
    by_cases hsrc : src + len ≤ b.size
    · obtain ⟨bytes, rfl, heq⟩ := copyWithin?_eq_overwrite? hsrc dest
      rw [heq, exists_overwrite?_iff, and_iff_right hsrc]
    · rw [copyWithin?_eq_none hsrc]
      exact iff_of_false (by simp) fun hrange => hsrc hrange.1
  | _ => exact iff_of_true ⟨_, rfl⟩ trivial

/-- Writing over bytes leaves the cursor inside the content or at its end. -/
theorem inside_overwrite? {pos : Nat} {bytes : ByteArray} (h : b.Inside)
    (hb' : b.overwrite? pos bytes = some b') : b'.Inside := by
  by_cases hrange : pos + bytes.size ≤ b.size
  · obtain ⟨b'', heq, hindex, hsize⟩ := overwrite?_eq_some hrange
    obtain rfl : b'' = b' := Option.some.inj (heq.symm.trans hb')
    unfold Inside
    rw [hindex, hsize]
    exact h
  · simp [overwrite?_eq_none hrange] at hb'

/-- One operation leaves the cursor inside the content or at its end. -/
theorem Operation.inside_perform (op : Operation) (h : b.Inside) (hb' : op.perform b = some b') :
    b'.Inside := by
  cases op with
  | append bytes =>
    obtain rfl := Option.some.inj hb'
    show b.index ≤ (b.content ++ bytes).size
    rw [ByteArray.size_append]
    exact Nat.le_add_right_of_le h
  | pushUnit u =>
    obtain rfl := Option.some.inj hb'
    show b.index ≤ (b.content ++ u.encode).size
    rw [ByteArray.size_append]
    exact Nat.le_add_right_of_le h
  | insertAt pos bytes =>
    obtain rfl := Option.some.inj hb'
    unfold Inside at h ⊢
    rw [size_insertAt, index_insertAt]
    split
    · omega
    · omega
  | removeAt pos count =>
    obtain rfl := Option.some.inj hb'
    unfold Inside at h ⊢
    rw [size_removeAt, index_removeAt]
    -- The cursor is before the range, in it, or behind it.
    split
    · omega
    · split
      · omega
      · omega
  | overwrite pos bytes => exact inside_overwrite? h hb'
  | copyWithin src dest len =>
    by_cases hsrc : src + len ≤ b.size
    · obtain ⟨bytes, -, heq⟩ := copyWithin?_eq_overwrite? hsrc dest
      exact inside_overwrite? h (heq.symm.trans hb')
    · simp [perform, copyWithin?_eq_none hsrc] at hb'
  | setLength len =>
    obtain rfl := Option.some.inj hb'
    unfold Inside
    rw [size_setLength]
    exact Nat.min_le_right b.index len
  | take | clear | resetIndex =>
    obtain rfl := Option.some.inj hb'
    exact Nat.zero_le _
  | setIndex index =>
    obtain rfl := Option.some.inj hb'
    exact Nat.min_le_right index b.content.size
  | advance n =>
    obtain rfl := Option.some.inj hb'
    exact Nat.min_le_right (b.index + n) b.content.size
  | readUnit => exact advances_readUnit.inside_leaves h hb'
  | readChar => exact advances_readChar.inside_leaves h hb'
  | takeChars n => exact (advances_takeChars n).inside_leaves h hb'
  | skipChars n => exact ((advances_takeChars n).map String.length).inside_leaves h hb'
  | takeWhile keep => exact (advances_takeWhile keep).inside_leaves h hb'
  | skipWhile keep => exact ((advances_takeWhile keep).map _).inside_leaves h hb'
  | readSegment => exact advances_readSegment.inside_leaves h hb'
  | readItem opening stop closing =>
    exact (advances_readItem opening stop closing).inside_leaves h hb'

/-- The buffer that operations leave that are carried out in turn. -/
def Operation.performAll (b : Buffer) (ops : List Operation) : Option Buffer :=
  ops.foldlM (fun b op => op.perform b) b

/-- Any number of operations leave the cursor inside the content or at its end. -/
theorem Operation.inside_performAll {ops : List Operation} (h : b.Inside)
    (hb' : performAll b ops = some b') : b'.Inside := by
  induction ops generalizing b with
  | nil =>
    obtain rfl : b = b' := Option.some.inj hb'
    exact h
  | cons op ops ih =>
    unfold performAll at hb'
    rw [List.foldlM_cons, Option.bind_eq_bind, Option.bind_eq_some_iff] at hb'
    obtain ⟨mid, hmid, hrest⟩ := hb'
    exact ih (op.inside_perform h hmid) hrest

end Operations

/-! ## The cursor under edits -/

/-- What becomes of the cursor of a buffer, and of the bytes on both sides of it. A position past the
end counts as the end. -/
structure CursorKept (b : Buffer) : Prop where
  carried_out : ∀ op : Operation, (∃ b', op.perform b = some b') ↔ op.InRange b
  inside : ∀ (op : Operation) (b' : Buffer), op.perform b = some b' → b'.Inside
  inside_all : ∀ (ops : List Operation) (b' : Buffer), Operation.performAll b ops = some b' →
    b'.Inside
  /-- What is behind the cursor stays when bytes are inserted at the cursor or before it. -/
  insert_before : ∀ (pos : Nat) (bytes : ByteArray), min pos b.size ≤ b.index →
    (b.insertAt pos bytes).remaining = b.remaining
  /-- What is before the cursor stays when bytes are inserted behind it. -/
  insert_behind : ∀ (pos : Nat) (bytes : ByteArray), b.index < min pos b.size →
    (b.insertAt pos bytes).passed = b.passed
  /-- What was before the cursor stays, also when the cursor moves because both are at the end. -/
  insert_not_before : ∀ (pos : Nat) (bytes : ByteArray), b.index ≤ pos →
    (b.insertAt pos bytes).content.extract 0 b.index = b.passed
  /-- What is behind the cursor stays when the range that is removed ends at the cursor or before
  it. -/
  remove_before : ∀ pos count : Nat, min (pos + count) b.size ≤ b.index →
    (b.removeAt pos count).remaining = b.remaining
  /-- The cursor stays when the range begins at it or behind it. -/
  remove_behind : ∀ pos count : Nat, b.index ≤ min pos b.size →
    (b.removeAt pos count).index = b.index
  /-- The cursor comes to the start of the range when it was in it. -/
  remove_around : ∀ pos count : Nat, min pos b.size ≤ b.index →
    b.index ≤ min (pos + count) b.size → (b.removeAt pos count).index = min pos b.size
  /-- Removing what was inserted restores content and cursor. -/
  restores : ∀ (pos : Nat) (bytes : ByteArray), pos ≤ b.size →
    (b.insertAt pos bytes).removeAt pos bytes.size = b

/-- The cursor of any buffer survives every operation, and any number of them. Whatever the bytes
are, and whether or not a read fails, it stays inside the content or at its end. Inserting at the
cursor or before it leaves what is behind the cursor, and inserting behind it leaves what is before.
Removing leaves what is behind the cursor if the range ends at the cursor or before it, leaves the
cursor if the range begins at it or behind it, and moves a cursor in the range to its start. Removing
what was inserted restores the buffer. -/
theorem cursor_survives (b : Buffer) (h : b.Inside) : b.CursorKept where
  carried_out op := op.exists_perform_iff
  inside op b' hb' := op.inside_perform h hb'
  inside_all ops b' hb' := Operation.inside_performAll h hb'
  insert_before pos bytes hpos := remaining_insertAt h hpos
  insert_behind pos bytes hpos := by
    have hindex : (b.insertAt pos bytes).index = b.index := by
      rw [index_insertAt, if_neg (Nat.not_le_of_lt hpos)]
    unfold passed
    rw [hindex]
    exact extract_insertAt h (by omega)
  insert_not_before pos bytes hpos := extract_insertAt h hpos
  remove_before pos count hstop := remaining_removeAt h hstop
  remove_behind pos count hstart := by rw [index_removeAt, if_pos hstart]
  remove_around pos count hstart hstop := by
    rw [index_removeAt, if_pos hstop]
    split
    · omega
    · rfl
  restores pos bytes hpos := removeAt_insertAt hpos

/-- A buffer with a byte under the cursor that begins a mark without a tag. -/
def damaged : Buffer := ⟨[0x61, 0xFF, 0x62].toByteArray, 1⟩

/-- A read that fails leaves the cursor inside, and a range around the cursor takes it along. -/
theorem cursor_survives_damaged :
    damaged.Inside ∧ readUnit damaged = .error (.badUnit 1) damaged ∧
      (readUnit.leaves damaged).Inside ∧ (damaged.removeAt 0 2).index = 0 ∧
      (damaged.insertAt 2 [0x63].toByteArray).removeAt 2 1 = damaged := by
  have hinside : damaged.Inside := by decide
  have hkept := cursor_survives damaged hinside
  refine ⟨hinside, rfl, ?_, ?_, ?_⟩
  · exact hkept.inside .readUnit _ rfl
  · exact hkept.remove_around 0 2 (by decide) (by decide)
  · exact hkept.restores 2 [0x63].toByteArray (by decide)

end TextMacro.Buffer
