import TextMacro.Proofs.Dictionary

/-!
# Why reads fail

The stack of calls and their budget belong to the scanner: no read of a buffer, a body or a stream
fails with an error about them (`Spared`), whatever the bytes are. What a read does fail with is
that bytes are no unit, that a stream cannot be read, or that no mark is left.
-/

namespace TextMacro

/-- A result that is none of the scanner's own errors. -/
def Spared {α : Type} (result : Except Error α) : Prop :=
  ∀ e, result = .error e → e.ofScanner = false

namespace Spared

variable {α : Type}

/-- A value is no error at all. -/
theorem ok (a : α) : Spared (.ok a : Except Error α) := by
  intro e he
  simp at he

/-- An error that is none of the scanner's own. -/
theorem error {e : Error} (h : e.ofScanner = false) : Spared (.error e : Except Error α) := by
  intro e' he
  obtain rfl : e = e' := by simpa using he
  exact h

end Spared

/-- What fails for neither bytes nor the scanner does not fail for the scanner. -/
theorem Clean.spared {α : Type} {result : Except Error α} (h : Clean result) : Spared result :=
  fun e he => (Bool.or_eq_false_iff.mp (h e he)).2

/-! ## Buffers -/

namespace TextUnit

/-- Bytes that are no unit are refused with an error about them. -/
theorem spared_decodeAt (b : ByteArray) (pos : Nat) : Spared (decodeAt b pos) := by
  intro e he
  obtain rfl := malformed_of_decodeAt he
  rfl

/-- Taking marks out of bytes fails for the bytes only. -/
theorem spared_stripFrom (b : ByteArray) (pos : Nat) (out : String) :
    Spared (stripFrom b pos out) := by
  fun_induction stripFrom b pos out with
  | case1 pos out e he => exact .error (spared_decodeAt b pos e he)
  | case2 pos out hn => exact .ok out
  | case3 pos out c hc ih => exact ih
  | case4 pos out u hu hmark ih => exact ih

end TextUnit

namespace Buffer

open TextUnit

/-- Reading the next character fails for the bytes only. -/
theorem spared_charFrom (b : ByteArray) (pos : Nat) : Spared (charFrom b pos).2 := by
  fun_induction charFrom b pos with
  | case1 pos e he => exact .error (spared_decodeAt b pos e he)
  | case2 pos hn => exact .ok none
  | case3 pos c hc => exact .ok (some c)
  | case4 pos u hu hmark ih => exact ih

/-- Reading a number of characters fails for the bytes only. -/
theorem spared_charsFrom (b : ByteArray) (n pos : Nat) (out : String) :
    Spared (charsFrom b n pos out).2 := by
  fun_induction charsFrom b n pos out with
  | case1 pos out => exact .ok out
  | case2 n pos out next c hread ih => exact ih
  | case3 n pos out next hread => exact .ok out
  | case4 n pos out next e hread =>
    have hspared := spared_charFrom b pos
    rw [hread] at hspared
    exact .error (hspared e rfl)

/-- Reading the characters of a class fails for the bytes only. -/
theorem spared_charsWhileFrom (b : ByteArray) (keep : Char → Bool) (pos : Nat) (out : String) :
    Spared (charsWhileFrom b keep pos out).2 := by
  fun_induction charsWhileFrom b keep pos out with
  | case1 pos out e he => exact .error (spared_decodeAt b pos e he)
  | case2 pos out hn => exact .ok out
  | case3 pos out c hc hkeep ih => exact ih
  | case4 pos out c hc hkeep => exact .ok out
  | case5 pos out u hu hmark ih => exact ih

/-- Reading up to a mark fails for the bytes only. -/
theorem spared_segmentFrom (b : ByteArray) (pos : Nat) (out : String) :
    Spared (segmentFrom b pos out).2 := by
  fun_induction segmentFrom b pos out with
  | case1 pos out e he => exact .error (spared_decodeAt b pos e he)
  | case2 pos out hn => exact .ok out
  | case3 pos out c hc ih => exact ih
  | case4 pos out u hu hmark => exact .ok out

/-- Reading up to a semicolon outside brackets fails for the bytes only. -/
theorem spared_itemFrom (b : ByteArray) (opening stop closing : Char) (pos depth : Nat)
    (out : String) : Spared (itemFrom b opening stop closing pos depth out).2 := by
  fun_induction itemFrom b opening stop closing pos depth out with
  | case1 pos depth out next e hread =>
    have hspared := spared_charFrom b pos
    rw [hread] at hspared
    exact .error (hspared e rfl)
  | case2 pos depth out next hread => exact .ok out
  | case3 pos depth out next c hread hstop => exact .ok out
  | case4 pos depth out next c hread hstop depth' ih => exact ih

/-- A reader fails with none of the scanner's own errors. -/
def Reader.Spares {α : Type} (reader : Reader α) : Prop :=
  ∀ b e b', reader b = .error e b' → e.ofScanner = false

/-- An operation that runs a scan fails as the scan does. -/
theorem spares_scanning {α : Type} {scan : ByteArray → Nat → Nat × Except Error α}
    (h : ∀ content pos, Spared (scan content pos).2) : Reader.Spares (scanning scan) := by
  intro b e b' hread
  have hspared := h b.content b.index
  unfold scanning at hread
  cases hscan : scan b.content b.index with
  | mk index result =>
    rw [hscan] at hread hspared
    cases result with
    | ok a => simp at hread
    | error e' =>
      obtain ⟨rfl, -⟩ : e' = e ∧ _ := by simpa using hread
      exact hspared e' rfl

/-- A character of a buffer is read, or its bytes are no unit. -/
theorem spares_readChar : Reader.Spares readChar :=
  spares_scanning spared_charFrom

/-- Characters of a buffer are read, or their bytes are no units. -/
theorem spares_takeChars (n : Nat) : Reader.Spares (takeChars n) :=
  spares_scanning fun content pos => spared_charsFrom content n pos ""

/-- Characters of a class are read, or their bytes are no units. -/
theorem spares_takeWhile (keep : Char → Bool) : Reader.Spares (takeWhile keep) :=
  spares_scanning fun content pos => spared_charsWhileFrom content keep pos ""

/-- A buffer is read up to the next mark, or its bytes are no units. -/
theorem spares_readSegment : Reader.Spares readSegment :=
  spares_scanning fun content pos => spared_segmentFrom content pos ""

/-- A buffer is read up to a semicolon outside brackets, or its bytes are no units. -/
theorem spares_readItem (opening stop closing : Char) :
    Reader.Spares (readItem opening stop closing) :=
  spares_scanning fun content pos => spared_itemFrom content opening stop closing pos 0 ""

end Buffer

/-! ## Bodies -/

namespace Body

/-- A body is read in the same way as its text. -/
theorem spared_read {α : Type} {reader : Buffer.Reader α} (body : Body) (h : reader.Spares) :
    Spared (body.read reader).1 := by
  unfold read
  cases hread : reader body.text with
  | ok a text => exact .ok a
  | error e text => exact .error (h _ e text hread)

/-- Segmenting fails only when no mark is left. -/
theorem spared_segmentFrom (body : Body) (name : String) (count : Nat) (patterns : List String) :
    Spared (body.segmentFrom name count patterns).1 := by
  induction patterns generalizing body count with
  | nil => exact .ok count
  | cons pattern rest ih =>
    unfold segmentFrom
    cases TextUnit.segment? (body.segments + 1) with
    | none => exact .error rfl
    | some mark => exact ih _ _

/-- Expansion fails only for bytes that are no unit. -/
theorem spared_expandFrom (content : ByteArray) (f : Frame) (token : String) (pos : Nat)
    (used : Bool) (out : String) : Spared (expandFrom content f token pos used out).2 := by
  fun_induction expandFrom content f token pos used out with
  | case1 pos used out e he => exact .error (TextUnit.spared_decodeAt content pos e he)
  | case2 pos used out hn => exact .ok out
  | case3 pos used out c hc ih => exact ih
  | case4 pos used out slot hslot ih => exact ih
  | case5 pos used out hcreation ih => exact ih

end Body

/-! ## Streams -/

namespace Stream

/-- A reader fails with none of the scanner's own errors. -/
def Reader.Spares {α : Type} (reader : Reader α) : Prop :=
  ∀ s e s', reader s = .error e s' → e.ofScanner = false

/-- A stream without bytes to read is refused with an error about it. -/
theorem spared_bytes (files : Files) (s : Stream) : Spared (s.bytes files) := by
  unfold bytes
  split
  · exact .ok _
  · split
    · exact .ok _
    · exact .error rfl
  · exact .error rfl

/-- Reading a byte fails only if the stream cannot be read. -/
theorem spares_nextByte (files : Files) : Reader.Spares (nextByte files) := by
  intro s e s' h
  unfold nextByte at h
  split at h
  · rename_i e' hbytes
    obtain ⟨rfl, -⟩ : e' = e ∧ s = s' := by simpa using h
    exact spared_bytes files s e' hbytes
  · split at h
    · simp at h
    · simp at h

/-- Reading the further bytes of a sequence fails for the bytes or the stream. -/
theorem spares_moreBytes (files : Files) {bad : Error} (hbad : bad.ofScanner = false)
    (count : Nat) (seq : ByteArray) : Reader.Spares (moreBytes files bad count seq) := by
  induction count generalizing seq with
  | zero =>
    intro s e s' h
    simp [moreBytes] at h
  | succ count ih =>
    intro s e s' h
    unfold moreBytes at h
    split at h
    · exact ih _ _ e s' h
    · obtain ⟨rfl, -⟩ : bad = e ∧ _ := by simpa using h
      exact hbad
    · rename_i e' s₁ hbyte
      obtain ⟨rfl, -⟩ : e' = e ∧ s₁ = s' := by simpa using h
      exact spares_nextByte files s e' s₁ hbyte

/-- Reading a character as its bytes say fails for the bytes or the stream. -/
theorem spares_readRaw (files : Files) : Reader.Spares (readRaw files) := by
  intro s e s' h
  unfold readRaw at h
  split at h
  · rename_i e' s₁ hlead
    obtain ⟨rfl, -⟩ : e' = e ∧ s₁ = s' := by simpa using h
    exact spares_nextByte files s e' s₁ hlead
  · simp at h
  · dsimp only at h
    split at h
    · simp at h
    · split at h
      · obtain ⟨rfl, -⟩ : Error.badUnit _ = e ∧ _ := by simpa using h
        rfl
      · split at h
        · rename_i e' s₂ hseq
          obtain ⟨rfl, -⟩ : e' = e ∧ s₂ = s' := by simpa using h
          exact spares_moreBytes files rfl _ _ _ e' s₂ hseq
        · split at h
          · simp at h
          · obtain ⟨rfl, -⟩ : Error.badUnit _ = e ∧ _ := by simpa using h
            rfl

/-- A character that was put back is read without failing, and any other as its bytes say. -/
theorem spares_next (files : Files) : Reader.Spares (next files) := by
  intro s e s' h
  unfold next at h
  split at h
  · simp at h
  · exact spares_readRaw files s e s' h

/-- Putting a character back fails only if one is there already. -/
theorem spares_unread (c : Char) : Reader.Spares (unread c) := by
  intro s e s' h
  unfold unread at h
  split at h
  · obtain ⟨rfl, -⟩ : Error.pushbackFull s.name = e ∧ s = s' := by simpa using h
    rfl
  · simp at h

/-- Reading a character with the ends of lines folded fails for reasons of the stream only. -/
theorem spares_readChar (files : Files) : Reader.Spares (readChar files) := by
  intro s e s' h
  unfold readChar at h
  split at h
  · split at h
    · simp at h
    · split at h
      · simp at h
      · rename_i e' s₃ hunread
        obtain ⟨rfl, -⟩ : e' = e ∧ s₃ = s' := by simpa using h
        exact spares_unread _ _ e' s₃ hunread
    · simp at h
    · rename_i e' s₂ hnext
      obtain ⟨rfl, -⟩ : e' = e ∧ s₂ = s' := by simpa using h
      exact spares_next files _ e' s₂ hnext
  · exact spares_next files s e s' h

/-- Reading up to a character fails for reasons of the stream only. -/
theorem spares_readUntilFrom (files : Files) (stop : Char) (out : Option String) :
    Reader.Spares (readUntilFrom files stop out) := by
  intro s e s' h
  fun_induction readUntilFrom files stop out s with
  | case1 out s e' s₁ hread =>
    obtain ⟨rfl, -⟩ : e' = e ∧ s₁ = s' := by simpa using h
    exact spares_readChar files s e' s₁ hread
  | case2 out s s₁ hread => simp at h
  | case3 out s s₁ hread => simp at h
  | case4 out s c s₁ hread hstop ih => exact ih h

/-- Reading to the end fails for reasons of the stream only. -/
theorem spares_readToEndFrom (files : Files) (out : String) :
    Reader.Spares (readToEndFrom files out) := by
  intro s e s' h
  fun_induction readToEndFrom files out s with
  | case1 out s e' s₁ hread =>
    obtain ⟨rfl, -⟩ : e' = e ∧ s₁ = s' := by simpa using h
    exact spares_readChar files s e' s₁ hread
  | case2 out s s₁ hread => simp at h
  | case3 out s c s₁ hread ih => exact ih h

/-- A stream that cannot be written to is refused without reading it. -/
theorem clean_writable (s : Stream) : Clean s.writable := by
  unfold writable
  split
  · exact .ok _
  · exact .ok _
  · exact .error rfl

end Stream

end TextMacro
