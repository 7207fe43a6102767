import TextMacro.Proofs.Units
import TextMacro.Scanner.Expansion

/-!
# Well-formed bodies

The text of a defined string is well formed (`Body.WellFormed`) when it is a sequence of units, its
cursor stands between two of them, and its segment marks are among those given out. Reading moves
the cursor from unit to unit (`Buffer.Reader.Moves`), and never meets bytes that are no unit.
Segmenting searches bytes, but a pattern that is found stands between two units, so that whole units
are replaced by marks (`replaceFrom_eq`). Expanding a well-formed body does not fail.
-/

namespace TextMacro

open TextUnit

/-- The text of a defined string is a sequence of units with the cursor between two of them, and its
segment marks are among those that have been given out. -/
structure Body.WellFormed (body : Body) : Prop where
  valid : validate body.text.content = .ok ()
  boundary : Boundary body.text.content body.text.index
  segments_le : body.segments ≤ segmentLimit
  marks : ∀ slot, .segment slot ∈ (decodeFrom body.text.content 0).1 →
    1 ≤ argument slot ∧ argument slot ≤ body.segments

/-! ## Reading -/

namespace Buffer

variable {b : ByteArray} {pos : Nat}

/-- A scan has succeeded and stopped at a boundary. -/
def Stops {α : Type} (b : ByteArray) (result : Nat × Except Error α) : Prop :=
  Boundary b result.1 ∧ ∃ a, result.2 = .ok a

/-- The next character is read from a boundary to a boundary. -/
theorem stops_charFrom (h : validate b = .ok ()) (hpos : Boundary b pos) :
    Stops b (charFrom b pos) := by
  fun_induction charFrom b pos with
  | case1 pos e he => exact absurd he (decodeAt_ne_error h hpos)
  | case2 pos hn => exact ⟨hpos, none, rfl⟩
  | case3 pos c hc => exact ⟨hpos.next hc, some c, rfl⟩
  | case4 pos u hu hmark ih => exact ih (hpos.next hmark)

/-- Characters are read from a boundary to a boundary. -/
theorem stops_charsFrom (h : validate b = .ok ()) (hpos : Boundary b pos) (n : Nat) (out : String) :
    Stops b (charsFrom b n pos out) := by
  induction n generalizing pos out with
  | zero => exact ⟨hpos, out, rfl⟩
  | succ n ih =>
    obtain ⟨hnext, next, hok⟩ := stops_charFrom h hpos
    unfold charsFrom
    cases hread : charFrom b pos with
    | mk stop result =>
      rw [hread] at hnext hok
      dsimp only at hok
      subst hok
      cases next with
      | none => exact ⟨hnext, out, rfl⟩
      | some c => exact ih hnext (out.push c)

/-- Characters that pass a test are read from a boundary to a boundary. -/
theorem stops_charsWhileFrom (keep : Char → Bool) (h : validate b = .ok ()) (hpos : Boundary b pos)
    (out : String) : Stops b (charsWhileFrom b keep pos out) := by
  fun_induction charsWhileFrom b keep pos out with
  | case1 pos out e he => exact absurd he (decodeAt_ne_error h hpos)
  | case2 pos out hn => exact ⟨hpos, out, rfl⟩
  | case3 pos out c hc hkeep ih => exact ih (hpos.next hc)
  | case4 pos out c hc hkeep => exact ⟨hpos, out, rfl⟩
  | case5 pos out u hu hmark ih => exact ih (hpos.next hmark)

/-- The characters up to a mark are read from a boundary to a boundary. -/
theorem stops_segmentFrom (h : validate b = .ok ()) (hpos : Boundary b pos) (out : String) :
    Stops b (segmentFrom b pos out) := by
  fun_induction segmentFrom b pos out with
  | case1 pos out e he => exact absurd he (decodeAt_ne_error h hpos)
  | case2 pos out hn => exact ⟨hpos, out, rfl⟩
  | case3 pos out c hc ih => exact ih (hpos.next hc)
  | case4 pos out u hu hmark => exact ⟨hpos.next hmark, out, rfl⟩

/-- An item is read from a boundary to a boundary. -/
theorem stops_itemFrom (opening stop closing : Char) (h : validate b = .ok ())
    (hpos : Boundary b pos) (depth : Nat) (out : String) :
    Stops b (itemFrom b opening stop closing pos depth out) := by
  have hread := stops_charFrom h hpos
  fun_induction itemFrom b opening stop closing pos depth out with
  | case1 pos depth out next e he =>
    rw [he] at hread
    obtain ⟨-, c, hc⟩ := hread
    simp at hc
  | case2 pos depth out next hn =>
    rw [hn] at hread
    exact ⟨hread.1, out, rfl⟩
  -- The stop character ends the item where no bracket is open; any other is read on from.
  | case3 pos depth out next c hc hstop =>
    rw [hc] at hread
    exact ⟨hread.1, out, rfl⟩
  | case4 pos depth out next c hc hstop depth' ih =>
    rw [hc] at hread
    exact ih hread.1 (stops_charFrom h hread.1)

/-- An operation that reads the units of a buffer: from a boundary it succeeds, and moves the cursor
to a boundary. -/
def Reader.Moves {α : Type} (reader : Reader α) : Prop :=
  ∀ b : Buffer, validate b.content = .ok () → Boundary b.content b.index →
    ∃ a index, reader b = .ok a { b with index } ∧ Boundary b.content index

/-- An operation that runs a scan. -/
theorem moves_scanning {α : Type} {scan : ByteArray → Nat → Nat × Except Error α}
    (hscan : ∀ b pos, validate b = .ok () → Boundary b pos → Stops b (scan b pos)) :
    Reader.Moves (scanning scan) := by
  intro b h hpos
  obtain ⟨hnext, a, hok⟩ := hscan b.content b.index h hpos
  refine ⟨a, (scan b.content b.index).1, ?_, hnext⟩
  unfold scanning
  cases hread : scan b.content b.index with
  | mk stop result =>
    rw [hread] at hok
    dsimp only at hok
    rw [hok]

/-- Reading a character moves on from unit to unit. -/
theorem moves_readChar : Reader.Moves readChar :=
  moves_scanning fun _ _ h hpos => stops_charFrom h hpos

/-- Reading a number of characters moves on from unit to unit. -/
theorem moves_takeChars (n : Nat) : Reader.Moves (takeChars n) :=
  moves_scanning fun _ _ h hpos => stops_charsFrom h hpos n ""

/-- Reading the characters of a class moves on from unit to unit. -/
theorem moves_takeWhile (keep : Char → Bool) : Reader.Moves (takeWhile keep) :=
  moves_scanning fun _ _ h hpos => stops_charsWhileFrom keep h hpos ""

/-- Reading up to a mark moves on from unit to unit. -/
theorem moves_readSegment : Reader.Moves readSegment :=
  moves_scanning fun _ _ h hpos => stops_segmentFrom h hpos ""

/-- Reading up to a semicolon moves on from unit to unit. -/
theorem moves_readItem (opening stop closing : Char) :
    Reader.Moves (readItem opening stop closing) :=
  moves_scanning fun _ _ h hpos => stops_itemFrom opening stop closing h hpos 0 ""

end Buffer

/-! ## Searching and stripping -/

namespace TextUnit

/-- The characters of well-formed bytes are read without an error. -/
theorem stripFrom_ok {b : ByteArray} {pos : Nat} {out : String} (h : validate b = .ok ())
    (hpos : Boundary b pos) : ∃ text, stripFrom b pos out = .ok text := by
  fun_induction stripFrom b pos out with
  | case1 pos out e he => exact absurd he (decodeAt_ne_error h hpos)
  | case2 pos out hn => exact ⟨out, rfl⟩
  | case3 pos out c hc ih => exact ih (hpos.next hc)
  | case4 pos out u hu hmark ih => exact ih (hpos.next hmark)

/-- A text found from a boundary on ends at a boundary, and what stands before it is units. -/
theorem Splits.of_find_boundary {b : ByteArray} {pos hit : Nat} {before after : List TextUnit}
    {text : String} (h : Splits b pos before after) (hfind : find b text.toUTF8 pos = some hit) :
    Boundary b (hit + text.utf8ByteSize) ∧ ∃ mid, b.extract pos hit = encodeAll mid := by
  obtain ⟨mid, rest, rfl, rfl⟩ := h.of_find hfind
  have hsize : text.utf8ByteSize = (encodeAll (text.toList.map char)).size :=
    congrArg ByteArray.size (toUTF8_eq_encodeAll text)
  refine ⟨?_, mid, h.extract_mid⟩
  rw [hsize]
  exact h.skip.skip.boundary

end TextUnit

/-! ## Replacing patterns by marks -/

namespace Body

variable {body : Body} {before after : List TextUnit}

/-- The units of a body on both sides of its cursor, with segment marks among those given out. -/
structure Consists (body : Body) (before after : List TextUnit) : Prop where
  splits : Splits body.text.content body.text.index before after
  segments_le : body.segments ≤ segmentLimit
  marks : ∀ slot, .segment slot ∈ before ++ after → argument slot ≤ body.segments

/-- A body is well formed when it consists of units. -/
theorem Consists.wellFormed (h : body.Consists before after) : body.WellFormed := by
  obtain ⟨hsplits, hle, hmarks⟩ := h
  refine ⟨hsplits.start.validateFrom_eq, hsplits.boundary, hle, fun slot hslot => ⟨?_, ?_⟩⟩
  · exact Nat.le_add_left 1 slot.val
  · rw [hsplits.start.decodeFrom_eq] at hslot
    exact hmarks slot hslot

/-- A well-formed body consists of units. -/
theorem WellFormed.consists (h : body.WellFormed) : ∃ before after, body.Consists before after := by
  obtain ⟨units, hunits⟩ := splits_of_validate h.valid
  obtain ⟨before, after, rfl, hsplits⟩ := hunits.of_boundary h.boundary
  refine ⟨before, after, hsplits, h.segments_le, fun slot hslot => ?_⟩
  have hmem : .segment slot ∈ (decodeFrom body.text.content 0).1 := by
    rw [hunits.decodeFrom_eq]
    exact hslot
  exact (h.marks slot hmem).2

/-- Another cursor at a boundary. -/
theorem WellFormed.moved (h : body.WellFormed) {index : Nat}
    (hindex : Boundary body.text.content index) :
    WellFormed { body with text := { body.text with index } } :=
  ⟨h.valid, hindex, h.segments_le, h.marks⟩

/-- The cursor is put at a boundary, which is inside the text. -/
theorem WellFormed.setIndex (h : body.WellFormed) {index : Nat}
    (hindex : Boundary body.text.content index) :
    WellFormed { body with text := body.text.setIndex index } := by
  have hmin : min index body.text.content.size = index := Nat.min_eq_left hindex.le_size
  unfold Buffer.setIndex
  dsimp only
  rw [hmin]
  exact h.moved hindex

/-- A text without marks. -/
theorem wellFormed_ofString (text : String) : (ofString text).WellFormed := by
  have hconsists : (ofString text).Consists [] (text.toList.map char) := by
    refine ⟨?_, Nat.zero_le _, fun slot hslot => ?_⟩
    · show Splits text.toUTF8 0 [] _
      rw [toUTF8_eq_encodeAll]
      exact splits_encodeAll _
    · simp at hslot
  exact hconsists.wellFormed

/-- Replacing copies the units from a boundary on, with some of them in favour of marks. -/
theorem replaceFrom_eq {content : ByteArray} (pattern : String) (mark : TextUnit) {pos : Nat}
    {out : ByteArray} (count : Nat) {copied : List TextUnit} (h : Splits content pos before after)
    (hout : out = encodeAll copied) :
    ∃ units, (replaceFrom content pattern.toUTF8 mark.encode pos out count).1
      = encodeAll (copied ++ units) ∧ ∀ u ∈ units, u ∈ after ∨ u = mark := by
  fun_induction replaceFrom content pattern.toUTF8 mark.encode pos out count
    generalizing before after copied with
  | case1 pos out count hnone =>
    -- The pattern is not found again, and all units that follow are copied.
    refine ⟨after, ?_, fun u hu => .inl hu⟩
    rw [hout, h.extract_after, encodeAll_append]
  | case2 pos out count hit hhit ih =>
    obtain ⟨mid, rest, rfl, rfl⟩ := h.of_find hhit
    have hsize := congrArg ByteArray.size (toUTF8_eq_encodeAll pattern)
    -- The search goes on behind the pattern, and the mark is copied in its place.
    have hnext := h.skip.skip
    rw [← hsize] at hnext
    have hcopied : out ++ content.extract pos (pos + (encodeAll mid).size) ++ mark.encode
        = encodeAll (copied ++ mid ++ [mark]) := by
      rw [hout, h.extract_mid, encodeAll_append, encodeAll_append, encodeAll_cons, encodeAll_nil,
        ByteArray.append_empty]
    obtain ⟨units, hunits, hfrom⟩ := ih hnext hcopied
    refine ⟨mid ++ mark :: units, ?_, fun u hu => ?_⟩
    · rw [hunits]
      simp
    · rcases List.mem_append.mp hu with hmid | hrest
      · exact .inl (List.mem_append_left _ hmid)
      · rcases List.mem_cons.mp hrest with hmark | hunit
        · exact .inr hmark
        · refine (hfrom u hunit).imp_left fun h => ?_
          exact List.mem_append_right _ (List.mem_append_right _ h)

/-- Replacing keeps a body well formed when the mark is among those given out. -/
theorem WellFormed.replace {mark : TextUnit} (h : body.WellFormed) (pattern : String)
    (hmark : ∀ slot, mark = .segment slot → argument slot ≤ body.segments) :
    (body.replace pattern mark).2.WellFormed := by
  obtain ⟨before, after, hsplits, hle, hmarks⟩ := h.consists
  obtain ⟨⟨content, index⟩, segments⟩ := body
  obtain ⟨units, hunits, hfrom⟩ :=
    replaceFrom_eq pattern mark 0 hsplits hsplits.extract_before
  unfold Body.replace
  dsimp only at hunits hmark hmarks ⊢
  cases hreplaced : replaceFrom content pattern.toUTF8 mark.encode index (content.extract 0 index) 0
  rename_i replaced count
  rw [hreplaced] at hunits
  dsimp only at hunits ⊢
  split
  · exact h
  · -- The units before the cursor are those from before.
    have hindex : min index replaced.size = (encodeAll before).size := by
      rw [hunits, encodeAll_append, ByteArray.size_append, ← hsplits.pos_eq]
      exact Nat.min_eq_left (Nat.le_add_right _ _)
    have hconsists : Consists ⟨⟨replaced, min index replaced.size⟩, segments⟩ before units := by
      refine ⟨⟨?_, hindex⟩, hle, fun slot hslot => ?_⟩
      · rw [← encodeAll_append]
        exact hunits
      · -- A mark is from before, on either side of the cursor, or the new one.
        rcases List.mem_append.mp hslot with hbefore | hunit
        · exact hmarks slot (List.mem_append_left _ hbefore)
        · rcases hfrom _ hunit with hafter | heq
          · exact hmarks slot (List.mem_append_right _ hafter)
          · exact hmark slot heq.symm
    exact hconsists.wellFormed

/-- Segmenting keeps a body well formed, also when it stops because no mark is left, which is the
only way in which it fails. -/
theorem WellFormed.segmentFrom (name : String) (patterns : List String) (count : Nat)
    (h : body.WellFormed) :
    (body.segmentFrom name count patterns).2.WellFormed ∧
      ∀ e, (body.segmentFrom name count patterns).1 = .error e → e = .tooManySegments name := by
  induction patterns generalizing body count with
  | nil => exact ⟨h, fun e he => by simp [Body.segmentFrom] at he⟩
  | cons pattern rest ih =>
    unfold Body.segmentFrom
    cases hmark : segment? (body.segments + 1) with
    | none =>
      -- No mark is left, and the body is as the patterns before have left it.
      refine ⟨h, fun e he => ?_⟩
      have heq : Error.tooManySegments name = e := by simpa using he
      exact heq.symm
    | some mark =>
      unfold segment? at hmark
      split at hmark
      · rename_i hle
        have hmark := Option.some.inj hmark
        -- The mark counts as given out before it is put in.
        have hcounted : WellFormed { body with segments := body.segments + 1 } :=
          ⟨h.valid, h.boundary, hle.2, fun slot hslot =>
            ⟨(h.marks slot hslot).1, Nat.le_succ_of_le (h.marks slot hslot).2⟩⟩
        have hgiven : ∀ slot, mark = .segment slot → argument slot ≤ body.segments + 1 := by
          intro slot hslot
          rw [← hmark, TextUnit.segment.injEq] at hslot
          rw [← hslot]
          simp [argument]
        exact ih _ (hcounted.replace pattern hgiven)
      · simp at hmark

/-- A text that is added has no marks, and the cursor comes to stand behind it. -/
theorem WellFormed.append (h : body.WellFormed) (text : String) :
    (body.append text).WellFormed := by
  obtain ⟨before, after, hsplits, hle, hmarks⟩ := h.consists
  obtain ⟨⟨content, index⟩, segments⟩ := body
  have hcontent : content ++ text.toUTF8 = encodeAll (before ++ after ++ text.toList.map char) := by
    have hold : content = encodeAll before ++ encodeAll after := hsplits.bytes
    rw [hold, toUTF8_eq_encodeAll, encodeAll_append, encodeAll_append]
  have hconsists : Consists (Body.append ⟨⟨content, index⟩, segments⟩ text)
      (before ++ after ++ text.toList.map char) [] := by
    refine ⟨⟨?_, ?_⟩, hle, fun slot hslot => ?_⟩
    · rw [encodeAll_nil, ByteArray.append_empty]
      exact hcontent
    · show min (content ++ text.toUTF8).size (content ++ text.toUTF8).size = _
      rw [Nat.min_self, hcontent]
    · have hmem : .segment slot ∈ before ++ after := by simpa using hslot
      exact hmarks slot hmem
  exact hconsists.wellFormed

/-- Reading keeps a body well formed and does not fail. -/
theorem WellFormed.read {α : Type} {reader : Buffer.Reader α} (h : body.WellFormed)
    (hreader : reader.Moves) :
    (body.read reader).2.WellFormed ∧ ∃ a, (body.read reader).1 = .ok a := by
  obtain ⟨a, index, hread, hindex⟩ := hreader body.text h.valid h.boundary
  unfold Body.read
  rw [hread]
  exact ⟨h.moved hindex, a, rfl⟩

/-! ## Expansion -/

/-- Expansion steps from boundary to boundary. -/
theorem expandFrom_ok {content : ByteArray} {f : Frame} {token : String} {pos : Nat} {used : Bool}
    {out : String} (h : validate content = .ok ()) (hpos : Boundary content pos) :
    ∃ used' text, expandFrom content f token pos used out = (used', .ok text) := by
  fun_induction expandFrom content f token pos used out with
  | case1 pos used out e he => exact absurd he (decodeAt_ne_error h hpos)
  | case2 pos used out hn => exact ⟨used, out, rfl⟩
  | case3 pos used out c hc ih => exact ih (hpos.next hc)
  | case4 pos used out slot hslot ih => exact ih (hpos.next hslot)
  | case5 pos used out hcreation ih => exact ih (hpos.next hcreation)

/-- Expanding a well-formed body does not fail. -/
theorem WellFormed.expand (h : body.WellFormed) (f : Frame) (token : String) :
    ∃ used text, body.expand f token = (used, .ok text) :=
  expandFrom_ok h.valid .start

end Body

end TextMacro
