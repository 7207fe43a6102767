import TextMacro.Proofs.StringTexts

/-!
# Reading what is left of a string

A string that is read piece by piece is the text of the characters behind its cursor
(`Buffer.unread`): every operation that reads it takes characters off the front of that text,
however many marks stand before, between and behind them, and leaves the bytes as they are
(`reads_act_on_unread`). The scans are compared with lists of units first, where the cursor stands
between two units before and after (`ScansTo`).
-/

namespace TextMacro

namespace TextUnit

/-- The character that a unit is, if it is no mark. -/
def char? : TextUnit → Option Char
  | char c => some c
  | segment _ | creation => none

/-- The characters of a sequence of units, without the marks. -/
def chars (units : List TextUnit) : List Char := units.filterMap char?

/-- No units are no characters. -/
theorem chars_nil : chars [] = [] := rfl

/-- A unit that is a character adds it. -/
@[simp]
theorem chars_cons_char (c : Char) (units : List TextUnit) :
    chars (char c :: units) = c :: chars units := rfl

/-- A mark adds no character. -/
theorem chars_cons_mark {u : TextUnit} (units : List TextUnit) (h : ∀ c, u ≠ char c) :
    chars (u :: units) = chars units := by
  cases u with
  | char c => exact absurd rfl (h c)
  | segment slot => rfl
  | creation => rfl

/-- The texts between the marks. -/
def pieces (units : List TextUnit) : List (List Char) := (units.splitOnP isMark).map chars

/-- No units are one empty piece. -/
theorem pieces_nil : pieces [] = [[]] := by
  simp [pieces, chars_nil]

/-- A character in front is in front of the first piece. -/
theorem pieces_cons_char (c : Char) (units : List TextUnit) :
    pieces (char c :: units) = (pieces units).modifyHead (c :: ·) := by
  unfold pieces
  rw [List.splitOnP_cons_eq_if_modifyHead, if_neg (by simp [isMark])]
  cases units.splitOnP isMark with
  | nil => rfl
  | cons piece rest => rfl

/-- A mark in front ends an empty piece. -/
theorem pieces_cons_mark {u : TextUnit} (units : List TextUnit) (h : ∀ c, u ≠ char c) :
    pieces (u :: units) = [] :: pieces units := by
  unfold pieces
  cases u with
  | char c => exact absurd rfl (h c)
  | segment slot => simp [List.splitOnP_cons_eq_if_modifyHead, isMark, chars_nil]
  | creation => simp [List.splitOnP_cons_eq_if_modifyHead, isMark, chars_nil]

end TextUnit

open TextUnit

namespace Buffer

/-! ## Scans -/

variable {b : ByteArray} {pos : Nat} {before after : List TextUnit}

/-- A scan has succeeded with `a` and stopped between two units, with the units `rest` behind. -/
def ScansTo {α : Type} (b : ByteArray) (result : Nat × Except Error α) (a : α)
    (rest : List TextUnit) : Prop :=
  result.2 = .ok a ∧ ∃ before, Splits b result.1 before rest

/-- One character more behind a text. -/
theorem append_ofList_cons (out : String) (c : Char) (cs : List Char) :
    out ++ String.ofList (c :: cs) = out.push c ++ String.ofList cs := by
  rw [String.ofList_cons, ← String.append_assoc, String.append_singleton]

/-- Reading a character fails with nothing where no character is left, and else takes the first. -/
theorem charFrom_cases (h : Splits b pos before after) :
    ∃ next before' rest, Splits b next before' rest ∧
      (charFrom b pos = (next, .ok none) ∧ chars after = [] ∧ chars rest = [] ∨
        ∃ c, charFrom b pos = (next, .ok (some c)) ∧ chars after = c :: chars rest) := by
  fun_induction charFrom b pos generalizing before after with
  | case1 pos e he => exact absurd he h.decodeAt_ne_error
  | case2 pos hn =>
    obtain rfl := h.eq_nil hn
    exact ⟨pos, before, [], h, .inl ⟨rfl, rfl, rfl⟩⟩
  | case3 pos c hc =>
    obtain ⟨rest, rfl⟩ := h.eq_cons hc
    exact ⟨_, _, rest, h.next, .inr ⟨c, rfl, rfl⟩⟩
  | case4 pos u hu hmark ih =>
    obtain ⟨rest, rfl⟩ := h.eq_cons hmark
    rw [chars_cons_mark rest fun c hc => hu c hc]
    exact ih h.next

/-- The next character is the first that is left. -/
theorem charFrom_scansTo (h : Splits b pos before after) :
    ∃ rest, ScansTo b (charFrom b pos) (chars after).head? rest ∧
      chars rest = (chars after).tail := by
  obtain ⟨next, before', rest, hsplits, ⟨hread, hnone, hrest⟩ | ⟨c, hread, hchars⟩⟩ :=
    charFrom_cases h
  · rw [hread, hnone]
    exact ⟨rest, ⟨rfl, before', hsplits⟩, hrest⟩
  · rw [hread, hchars]
    exact ⟨rest, ⟨rfl, before', hsplits⟩, rfl⟩

/-- Several characters are the first that are left. -/
theorem charsFrom_scansTo (n : Nat) (out : String) (h : Splits b pos before after) :
    ∃ rest, ScansTo b (charsFrom b n pos out) (out ++ String.ofList ((chars after).take n)) rest ∧
      chars rest = (chars after).drop n := by
  induction n generalizing pos before after out with
  | zero => exact ⟨after, ⟨by simp [charsFrom], before, h⟩, rfl⟩
  | succ n ih =>
    unfold charsFrom
    obtain ⟨next, before', rest, hsplits, ⟨hread, hnone, hrest⟩ | ⟨c, hread, hchars⟩⟩ :=
      charFrom_cases h
    · rw [hread, hnone]
      exact ⟨rest, ⟨by simp, before', hsplits⟩, hrest⟩
    · obtain ⟨rest', hscanned, hrest'⟩ := ih (out.push c) hsplits
      rw [hread, hchars, List.take_succ_cons, append_ofList_cons]
      exact ⟨rest', hscanned, hrest'⟩

/-- The characters that pass a test are the longest such part at the front of what is left. -/
theorem charsWhileFrom_scansTo (keep : Char → Bool) (out : String) (h : Splits b pos before after) :
    ∃ rest, ScansTo b (charsWhileFrom b keep pos out)
        (out ++ String.ofList ((chars after).takeWhile keep)) rest ∧
      chars rest = (chars after).dropWhile keep := by
  fun_induction charsWhileFrom b keep pos out generalizing before after with
  | case1 pos out e he => exact absurd he h.decodeAt_ne_error
  | case2 pos out hn =>
    obtain rfl := h.eq_nil hn
    exact ⟨[], ⟨by simp [chars_nil], before, h⟩, rfl⟩
  | case3 pos out c hc hkeep ih =>
    obtain ⟨rest, rfl⟩ := h.eq_cons hc
    obtain ⟨rest', hscanned, hrest'⟩ := ih h.next
    refine ⟨rest', ?_, by simp [hkeep, hrest']⟩
    rw [chars_cons_char, List.takeWhile_cons_of_pos hkeep, append_ofList_cons]
    exact hscanned
  | case4 pos out c hc hkeep =>
    obtain ⟨rest, rfl⟩ := h.eq_cons hc
    exact ⟨.char c :: rest, ⟨by simp [hkeep], before, h⟩, by simp [hkeep]⟩
  | case5 pos out u hu hmark ih =>
    obtain ⟨rest, rfl⟩ := h.eq_cons hmark
    have hskipped := chars_cons_mark rest fun c hc => hu c hc
    rw [hskipped]
    exact ih h.next

/-- The characters up to a mark are the first piece of what is left, and behind the mark the other
pieces are left, or nothing. -/
theorem segmentFrom_scansTo (out : String) (h : Splits b pos before after) :
    ∃ piece rest, ScansTo b (segmentFrom b pos out) (out ++ String.ofList piece) rest ∧
      (pieces after = piece :: pieces rest ∨ pieces after = [piece] ∧ rest = []) := by
  fun_induction segmentFrom b pos out generalizing before after with
  | case1 pos out e he => exact absurd he h.decodeAt_ne_error
  | case2 pos out hn =>
    obtain rfl := h.eq_nil hn
    exact ⟨[], [], ⟨by simp, before, h⟩, .inr ⟨pieces_nil, rfl⟩⟩
  | case3 pos out c hc ih =>
    obtain ⟨rest, rfl⟩ := h.eq_cons hc
    obtain ⟨piece, rest', hscanned, hpieces⟩ := ih h.next
    refine ⟨c :: piece, rest', ?_, ?_⟩
    · rw [append_ofList_cons]
      exact hscanned
    · rw [pieces_cons_char]
      rcases hpieces with hpieces | ⟨hpieces, hrest⟩
      · exact .inl (by rw [hpieces]; rfl)
      · exact .inr ⟨by rw [hpieces]; rfl, hrest⟩
  | case4 pos out u hu hmark =>
    obtain ⟨rest, rfl⟩ := h.eq_cons hmark
    exact ⟨[], rest, ⟨by simp, _, h.next⟩, .inl (pieces_cons_mark rest fun c hc => hu c hc)⟩

/-- The number of brackets that are open behind a character. -/
def bracketsAfter (opening closing : Char) (depth : Nat) (c : Char) : Nat :=
  if c = opening then depth + 1 else if c = closing then depth - 1 else depth

/-- In a text in front of which `depth` brackets are open, `item` stands before the first `stop`
that is outside brackets and `rest` behind it; without such a `stop` the item is the whole text. -/
structure IsItem (opening stop closing : Char) (depth : Nat) (text item rest : List Char) :
    Prop where
  /-- In the item itself a `stop` is inside brackets. -/
  inside : ∀ front behind, item = front ++ stop :: behind →
    front.foldl (bracketsAfter opening closing) depth ≠ 0
  ends : text = item ++ stop :: rest ∧ item.foldl (bracketsAfter opening closing) depth = 0 ∨
    text = item ∧ rest = []

/-- A character in front that does not end the item belongs to it. -/
theorem IsItem.cons {opening stop closing c : Char} {depth : Nat} {text item rest : List Char}
    (h : IsItem opening stop closing (bracketsAfter opening closing depth c) text item rest)
    (hstop : c = stop → depth ≠ 0) :
    IsItem opening stop closing depth (c :: text) (c :: item) rest := by
  refine ⟨fun front behind heq => ?_, ?_⟩
  · cases front with
    | nil => exact hstop (List.cons.inj heq).1
    | cons d front =>
      obtain ⟨rfl, hitem⟩ := List.cons.inj heq
      exact h.inside front behind hitem
  · rcases h.ends with ⟨rfl, hdepth⟩ | ⟨rfl, hrest⟩
    · exact .inl ⟨rfl, hdepth⟩
    · exact .inr ⟨rfl, hrest⟩

/-- One round of reading an item. -/
theorem itemFrom_round (b : ByteArray) (opening stop closing : Char) (pos depth : Nat)
    (out : String) :
    itemFrom b opening stop closing pos depth out = match charFrom b pos with
      | (next, .error e) => (next, .error e)
      | (next, .ok none) => (next, .ok out)
      | (next, .ok (some c)) =>
        if c = stop && depth = 0 then (next, .ok out)
        else itemFrom b opening stop closing next (bracketsAfter opening closing depth c)
          (out.push c) := by
  conv => lhs; rw [itemFrom]
  split
  · rename_i hread
    rw [hread]
  · rename_i hread
    rw [hread]
  · rename_i hread
    rw [hread]
    rfl

/-- An item is read up to the first stop outside brackets. -/
theorem itemFrom_scansTo (opening stop closing : Char) (depth : Nat) (out : String)
    (h : Splits b pos before after) :
    ∃ item rest, IsItem opening stop closing depth (chars after) item (chars rest) ∧
      ScansTo b (itemFrom b opening stop closing pos depth out) (out ++ String.ofList item)
        rest := by
  -- A round may pass over marks, so the induction is on the characters that are left.
  induction hchars : chars after generalizing pos before after depth out with
  | nil =>
    obtain ⟨next, before', rest, hsplits, ⟨hread, -, hrest⟩ | ⟨c, -, hcons⟩⟩ := charFrom_cases h
    · rw [itemFrom_round, hread]
      exact ⟨[], rest, ⟨by simp, .inr ⟨rfl, hrest⟩⟩, by simp, before', hsplits⟩
    · simp [hchars] at hcons
  | cons c cs ih =>
    obtain ⟨next, before', rest, hsplits, ⟨-, hnone, -⟩ | ⟨c', hread, hcons⟩⟩ := charFrom_cases h
    · simp [hchars] at hnone
    · obtain ⟨rfl, rfl⟩ : c = c' ∧ cs = chars rest := by simpa [hchars] using hcons
      rw [itemFrom_round, hread]
      dsimp only
      -- A stop ends the item where no bracket is open; any other character belongs to it.
      split
      · rename_i hstop
        obtain ⟨rfl, rfl⟩ : c = stop ∧ depth = 0 := by simpa using hstop
        exact ⟨[], rest, ⟨by simp, .inl ⟨rfl, rfl⟩⟩, by simp, before', hsplits⟩
      · rename_i hstop
        obtain ⟨item, last, hitem, hscanned⟩ :=
          ih (bracketsAfter opening closing depth c) (out.push c) hsplits rfl
        refine ⟨c :: item, last, hitem.cons fun heq hzero => ?_, ?_⟩
        · exact hstop (by simp [heq, hzero])
        · rw [append_ofList_cons]
          exact hscanned

end Buffer

/-! ## Buffers -/

namespace Buffer

variable {b b' : Buffer} {before after : List TextUnit}

/-- The units from the cursor on. -/
def unreadUnits (b : Buffer) : List TextUnit := (decodeFrom b.remaining 0).1

/-- The characters from the cursor on, without the marks. -/
def unread (b : Buffer) : List Char := chars b.unreadUnits

/-- The texts between the marks from the cursor on. -/
def unreadPieces (b : Buffer) : List (List Char) := pieces b.unreadUnits

/-- The units that are unread are those behind the cursor. -/
theorem unreadUnits_eq (h : Splits b.content b.index before after) : b.unreadUnits = after := by
  unfold unreadUnits remaining
  rw [h.extract_after, (splits_encodeAll after).decodeFrom_eq]

/-- The same bytes with the cursor between two units, behind which the characters `cs` are unread.
-/
structure MovedTo (b b' : Buffer) (cs : List Char) : Prop where
  content : b'.content = b.content
  boundary : Boundary b'.content b'.index
  unread : b'.unread = cs

/-- An operation reads `a` from a buffer and leaves the characters `cs` unread. -/
def Reader.Yields {α : Type} (reader : Reader α) (b : Buffer) (a : α) (cs : List Char) : Prop :=
  ∃ b', reader b = .ok a b' ∧ b.MovedTo b' cs

/-- An operation reads what its scan does, and stops where that stops. -/
theorem scanning_eq {α : Type} (scan : ByteArray → Nat → Nat × Except Error α) {a : α}
    {rest : List TextUnit} (h : ScansTo b.content (scan b.content b.index) a rest) :
    ∃ index before, scanning scan b = .ok a { b with index } ∧
      Splits b.content index before rest := by
  obtain ⟨hread, before, hsplits⟩ := h
  refine ⟨(scan b.content b.index).1, before, ?_, hsplits⟩
  unfold scanning
  cases hscan : scan b.content b.index with
  | mk index result =>
    rw [hscan] at hread
    dsimp only at hread
    rw [hread]

/-- What is unread behind the place where a scan stops. -/
theorem yields_scanning {α : Type} (scan : ByteArray → Nat → Nat × Except Error α) {a : α}
    {rest : List TextUnit} (h : ScansTo b.content (scan b.content b.index) a rest) :
    (scanning scan).Yields b a (chars rest) := by
  obtain ⟨index, before, hread, hsplits⟩ := scanning_eq scan h
  refine ⟨_, hread, rfl, hsplits.boundary, ?_⟩
  exact congrArg chars (unreadUnits_eq (b := { b with index }) hsplits)

/-- The result of a read is changed. -/
theorem Reader.Yields.map {α β : Type} {reader : Reader α} {a : α} {cs : List Char}
    (h : reader.Yields b a cs) (f : α → β) : Reader.Yields (f <$> reader) b (f a) cs := by
  obtain ⟨b', hread, hmoved⟩ := h
  refine ⟨b', ?_, hmoved⟩
  show EStateM.map f reader b = _
  unfold EStateM.map
  rw [hread]

/-- Reads up to a mark several times, and collects what is read. -/
def readSegments : Nat → Reader (List String)
  | 0 => pure []
  | n + 1 => do
    let piece ← readSegment
    let others ← readSegments n
    return piece :: others

/-- The texts between marks make up all that is unread. -/
theorem flatten_pieces (units : List TextUnit) : (pieces units).flatten = chars units := by
  induction units with
  | nil =>
    rw [pieces_nil]
    rfl
  | cons u units ih =>
    cases u with
    | char c =>
      rw [pieces_cons_char, chars_cons_char, ← ih]
      cases hpieces : pieces units with
      | nil => simp [pieces] at hpieces
      | cons piece rest => rfl
    | segment slot =>
      rw [pieces_cons_mark units (by simp), chars_cons_mark units (by simp), ← ih]
      rfl
    | creation =>
      rw [pieces_cons_mark units (by simp), chars_cons_mark units (by simp), ← ih]
      rfl

/-- Each read up to a mark yields the next piece, and nothing when there is none. -/
theorem yields_readSegments (n : Nat) (h : Splits b.content b.index before after) :
    (readSegments n).Yields b ((List.range n).map fun i => String.ofList ((pieces after).getD i []))
      ((pieces after).drop n).flatten := by
  induction n generalizing b before after with
  | zero =>
    refine ⟨b, rfl, rfl, h.boundary, ?_⟩
    rw [List.drop_zero, flatten_pieces]
    exact congrArg chars (unreadUnits_eq h)
  | succ n ih =>
    obtain ⟨piece, rest, hscanned, hpieces⟩ := segmentFrom_scansTo "" h
    obtain ⟨index, before', hread, hsplits⟩ :=
      scanning_eq (fun content pos => segmentFrom content pos "") hscanned
    obtain ⟨b', hreads, hmoved⟩ := ih (b := { b with index }) hsplits
    -- The pieces that are left are those behind the first, and none when there is no mark.
    have hnext : ∀ i, (pieces after).getD (i + 1) [] = (pieces rest).getD i [] := by
      intro i
      rcases hpieces with hpieces | ⟨hpieces, rfl⟩
      · rw [hpieces, List.getD_cons_succ]
      · rw [hpieces, pieces_nil]
        cases i <;> simp
    have hdrop : ((pieces after).drop (n + 1)).flatten = ((pieces rest).drop n).flatten := by
      rcases hpieces with hpieces | ⟨hpieces, rfl⟩
      · rw [hpieces, List.drop_succ_cons]
      · rw [hpieces, pieces_nil]
        cases n <;> simp
    have hfirst : (pieces after).getD 0 [] = piece := by
      rcases hpieces with hpieces | ⟨hpieces, -⟩
      · rw [hpieces, List.getD_cons_zero]
      · rw [hpieces, List.getD_cons_zero]
    refine ⟨b', ?_, hmoved.content, hmoved.boundary, hmoved.unread.trans hdrop.symm⟩
    rw [List.range_succ_eq_map, List.map_cons, List.map_map]
    show EStateM.bind readSegment _ b = _
    unfold EStateM.bind readSegment
    rw [hread]
    dsimp only
    show EStateM.bind (readSegments n) _ _ = _
    unfold EStateM.bind
    rw [hreads, hfirst, String.empty_append]
    dsimp only [Function.comp_def]
    simp only [hnext]
    rfl

/-- The operations that read a buffer act on the characters that are unread. -/
structure ReadsUnread (b : Buffer) : Prop where
  /-- These are the characters of the bytes from the cursor on, with the marks dropped. -/
  strip_remaining : strip b.remaining = .ok (String.ofList b.unread)
  readChar_yields : readChar.Yields b b.unread.head? b.unread.tail
  peekChar_eq : b.peekChar = .ok b.unread.head?
  takeChars_yields : ∀ n,
    (takeChars n).Yields b (String.ofList (b.unread.take n)) (b.unread.drop n)
  skipChars_yields : ∀ n, (skipChars n).Yields b (min n b.unread.length) (b.unread.drop n)
  takeWhile_yields : ∀ keep,
    (takeWhile keep).Yields b (String.ofList (b.unread.takeWhile keep)) (b.unread.dropWhile keep)
  skipWhile_yields : ∀ keep, (skipWhile keep).Yields b () (b.unread.dropWhile keep)
  readItem_yields : ∀ opening stop closing, ∃ item rest,
    IsItem opening stop closing 0 b.unread item rest ∧
      (readItem opening stop closing).Yields b (String.ofList item) rest
  flatten_unreadPieces : b.unreadPieces.flatten = b.unread
  /-- Each read up to a mark yields the next of the texts between the marks. -/
  readSegments_yields : ∀ n, (readSegments n).Yields b
    ((List.range n).map fun i => String.ofList (b.unreadPieces.getD i []))
    (b.unreadPieces.drop n).flatten

/-- The characters of the bytes from a position on, without the marks. -/
theorem stripFrom_eq {content : ByteArray} {pos : Nat} (out : String)
    (h : Splits content pos before after) :
    stripFrom content pos out = .ok (out ++ String.ofList (chars after)) := by
  fun_induction stripFrom content pos out generalizing before after with
  | case1 pos out e he => exact absurd he h.decodeAt_ne_error
  | case2 pos out hn =>
    obtain rfl := h.eq_nil hn
    simp [chars_nil]
  | case3 pos out c hc ih =>
    obtain ⟨rest, rfl⟩ := h.eq_cons hc
    rw [ih h.next, chars_cons_char, append_ofList_cons]
  | case4 pos out u hu hmark ih =>
    obtain ⟨rest, rfl⟩ := h.eq_cons hmark
    rw [ih h.next, chars_cons_mark rest fun c hc => hu c hc]

/-- Between two units all operations act on the characters that are unread. -/
theorem readsUnread (h : Splits b.content b.index before after) : b.ReadsUnread := by
  have hunits : b.unreadUnits = after := unreadUnits_eq h
  have hunread : b.unread = chars after := congrArg chars hunits
  have hpieces : b.unreadPieces = pieces after := congrArg pieces hunits
  obtain ⟨behind, hchar, hbehind⟩ := charFrom_scansTo h
  have htake : ∀ n, (takeChars n).Yields b (String.ofList ((chars after).take n))
      ((chars after).drop n) := by
    intro n
    obtain ⟨rest, hscanned, hrest⟩ := charsFrom_scansTo n "" h
    rw [String.empty_append] at hscanned
    rw [← hrest]
    exact yields_scanning (fun content pos => charsFrom content n pos "") hscanned
  have hwhile : ∀ keep, (takeWhile keep).Yields b (String.ofList ((chars after).takeWhile keep))
      ((chars after).dropWhile keep) := by
    intro keep
    obtain ⟨rest, hscanned, hrest⟩ := charsWhileFrom_scansTo keep "" h
    rw [String.empty_append] at hscanned
    rw [← hrest]
    exact yields_scanning (fun content pos => charsWhileFrom content keep pos "") hscanned
  constructor
  case strip_remaining =>
    unfold strip remaining
    rw [h.extract_after, stripFrom_eq "" (splits_encodeAll after), String.empty_append, hunread]
  case readChar_yields =>
    rw [hunread, ← hbehind]
    exact yields_scanning charFrom hchar
  case peekChar_eq =>
    rw [hunread]
    exact hchar.1
  case takeChars_yields => rwa [hunread]
  case skipChars_yields =>
    intro n
    -- Skipping is reading, of which only the number of characters is told.
    have hskipped := (htake n).map String.length
    rwa [String.length_ofList, List.length_take, ← hunread] at hskipped
  case takeWhile_yields => rwa [hunread]
  case skipWhile_yields =>
    intro keep
    rw [hunread]
    exact (hwhile keep).map _
  case readItem_yields =>
    intro opening stop closing
    obtain ⟨item, rest, hitem, hscanned⟩ := itemFrom_scansTo opening stop closing 0 "" h
    rw [String.empty_append] at hscanned
    refine ⟨item, chars rest, hunread ▸ hitem, ?_⟩
    exact yields_scanning (fun content pos => itemFrom content opening stop closing pos 0 "")
      hscanned
  case flatten_unreadPieces => rw [hpieces, hunread, flatten_pieces]
  case readSegments_yields =>
    intro n
    rw [hpieces]
    exact yields_readSegments n h

end Buffer

/-! ## Builtins -/

/-- The session in which the string of a name, which has a body, has another text. -/
def Session.withText (s : Session) (name : String) (body : Body) (text : Buffer) : Session :=
  { s with dict := s.dict.setBody name { body with text } }

/-- The builtins that read a defined string with a given body act on its characters that are
unread. -/
structure Session.ReadsUnread (s : Session) (body : Body) : Prop where
  /-- What a builtin has left of the string is found under its name. -/
  body_withText : ∀ name text, s.dict.Indexed → s.dict.body name = .ok body →
    (s.withText name body text).dict.body name = .ok { body with text }
  ifExhausted_eq : ∀ f, s.dict.body (f.arg 1) = .ok body → Builtins.ifExhausted f s
    = .ok (if body.text.unread = [] then f.arg 2 else f.arg 3) s
  /-- A class is tested for without reading what would be read. -/
  testClass_eq : ∀ f k, s.dict.charClass (f.arg 1) = .ok k → s.dict.body (f.arg 2) = .ok body →
    ∃ read text, read = String.ofList (body.text.unread.takeWhile k.contains) ∧
      body.text.MovedTo text (body.text.unread.dropWhile k.contains) ∧
      Builtins.readClass f s = .ok read (s.withText (f.arg 2) body text) ∧
      Builtins.testClass f s = .ok (if read ≠ "" then f.arg 3 else f.arg 4) s
  /-- A text that what is unread does not begin with leaves the cursor where it is. -/
  matchStart_eq : ∀ f, s.dict.body (f.arg 2) = .ok body →
    if (f.arg 1).toList <+: body.text.unread then
      ∃ text, body.text.MovedTo text (body.text.unread.drop (f.arg 1).length) ∧
        Builtins.matchStart f s = .ok (f.arg 3) (s.withText (f.arg 2) body text)
    else Builtins.matchStart f s = .ok (f.arg 4) (s.withText (f.arg 2) body body.text)
  readItem_eq : ∀ f, s.dict.body (f.arg 1) = .ok body → ∃ item rest text,
    Buffer.IsItem s.chars.opening s.chars.semi s.chars.closing 0 body.text.unread item rest ∧
      body.text.MovedTo text rest ∧
      Builtins.readItem f s = .ok (String.ofList item) (s.withText (f.arg 1) body text)

namespace Session

variable {s : Session} {body : Body}

/-- Reading from a string moves the cursor of its text. -/
theorem readBody_eq {α : Type} {reader : Buffer.Reader α} {a : α} {text : Buffer} {name : String}
    (hbody : s.dict.body name = .ok body) (hread : reader body.text = .ok a text) :
    Action.readBody name reader s = .ok a (s.withText name body text) := by
  unfold Action.readBody Action.onBody Body.read
  rw [hbody]
  dsimp only
  rw [hread]
  rfl

/-- The next character of a string is looked at. -/
theorem peekChar_eq {name : String} {next : Option Char} (hbody : s.dict.body name = .ok body)
    (hpeek : body.text.peekChar = .ok next) : Builtins.peekChar name s = .ok next s := by
  show (Action.lift (s.dict.body name) >>= fun body => Action.lift body.text.peekChar) s = _
  rw [hbody]
  show Action.lift body.text.peekChar s = _
  rw [hpeek]
  rfl

/-- A string goes on with a text if that is at the front of what is unread. -/
theorem skipMatch_eq (h : body.text.ReadsUnread) (text : String) :
    if text.toList <+: body.text.unread then
      ∃ moved, body.text.MovedTo moved (body.text.unread.drop text.length) ∧
        Builtins.skipMatch text body = (.ok true, { body with text := moved })
    else Builtins.skipMatch text body = (.ok false, body) := by
  obtain ⟨moved, hread, hmoved⟩ := h.takeChars_yields text.length
  -- The characters that are taken are as many as the text has.
  have htaken : String.ofList (body.text.unread.take text.length) = text ↔
      text.toList <+: body.text.unread := by
    rw [List.prefix_iff_eq_take, String.length_toList, ← String.toList_inj, String.toList_ofList,
      eq_comm]
  have hindex : body.text.setIndex moved.index = moved := by
    unfold Buffer.setIndex
    dsimp only
    rw [Nat.min_eq_left (hmoved.content ▸ hmoved.boundary.le_size), ← hmoved.content]
  unfold Builtins.skipMatch
  rw [hread]
  dsimp only
  split
  · rename_i hprefix
    rw [if_pos (by simpa using htaken.mpr hprefix), hindex]
    exact ⟨moved, hmoved, rfl⟩
  · rename_i hprefix
    exact if_neg (by simpa using fun heq => hprefix (htaken.mp heq))

/-- The builtins read a string through the operations on its text. -/
theorem readsUnread (s : Session) (h : body.text.ReadsUnread) : s.ReadsUnread body := by
  constructor
  case body_withText =>
    intro name text hindexed hbody
    obtain ⟨f, hf, -⟩ := Dictionary.function?_of_body hbody
    exact hindexed.body_setBody (by rw [hf]; rfl) _
  case ifExhausted_eq =>
    intro f hbody
    show (Builtins.peekChar (f.arg 1) >>= fun next =>
      pure (if next.isNone then f.arg 2 else f.arg 3) : Action String) s = _
    have hpeek := peekChar_eq hbody h.peekChar_eq
    simp only [bind, EStateM.bind, hpeek]
    simp [pure, EStateM.pure]
  case testClass_eq =>
    intro f k hclass hbody
    obtain ⟨text, hread, hmoved⟩ := h.takeWhile_yields k.contains
    refine ⟨_, text, rfl, hmoved, ?_, ?_⟩
    · show (Action.lift (s.dict.charClass (f.arg 1)) >>= fun k =>
        Action.readBody (f.arg 2) (Buffer.takeWhile k.contains) : Action String) s = _
      rw [hclass]
      exact readBody_eq hbody hread
    · show (Action.lift (s.dict.charClass (f.arg 1)) >>= fun k =>
        Builtins.peekChar (f.arg 2) >>= fun next =>
          pure (if next.any k.contains then f.arg 3 else f.arg 4) : Action String) s = _
      have hpeek := peekChar_eq hbody h.peekChar_eq
      -- A first character of the class is the least that is read.
      have hfirst : body.text.unread.head?.any k.contains = true ↔
          String.ofList (body.text.unread.takeWhile k.contains) ≠ "" := by
        cases body.text.unread with
        | nil => simp
        | cons c cs => by_cases hc : k.contains c <;> simp [hc]
      rw [hclass]
      simp only [bind, EStateM.bind, Action.lift, hpeek, hfirst]
      rfl
  case matchStart_eq =>
    intro f hbody
    have hmatch : ∀ matched text, Builtins.skipMatch (f.arg 1) body
        = (.ok matched, { body with text }) → Builtins.matchStart f s
          = .ok (if matched then f.arg 3 else f.arg 4) (s.withText (f.arg 2) body text) := by
      intro matched text hskip
      show (Action.onBody (f.arg 2) (Builtins.skipMatch (f.arg 1)) >>= fun matched =>
        pure (if matched then f.arg 3 else f.arg 4) : Action String) s = _
      simp only [bind, EStateM.bind, Action.onBody, hbody, hskip]
      rfl
    have hskip := skipMatch_eq h (f.arg 1)
    split
    · rename_i hprefix
      rw [if_pos hprefix] at hskip
      obtain ⟨text, hmoved, hskip⟩ := hskip
      exact ⟨text, hmoved, hmatch true text hskip⟩
    · rename_i hprefix
      rw [if_neg hprefix] at hskip
      exact hmatch false body.text hskip
  case readItem_eq =>
    intro f hbody
    obtain ⟨item, rest, hitem, text, hread, hmoved⟩ :=
      h.readItem_yields s.chars.opening s.chars.semi s.chars.closing
    exact ⟨item, rest, text, hitem, hmoved, readBody_eq hbody hread⟩

end Session

/-! ## All reads -/

namespace Buffer

/-- Reading a string acts on the text that is left of it. Let the bytes of a buffer be units and its
cursor stand between two of them. Then the operations take characters off the front of the
characters that are unread, whatever marks stand among them, leave the bytes as they are and the
cursor between two units, so that they can follow each other in any order; and in every session the
builtins that read a string with this text do what the operations do. -/
theorem reads_act_on_unread (b : Buffer) (hvalid : validate b.content = .ok ())
    (hindex : Boundary b.content b.index) :
    b.ReadsUnread ∧ ∀ (s : Session) (body : Body), body.text = b → s.ReadsUnread body := by
  obtain ⟨units, hunits⟩ := splits_of_validate hvalid
  obtain ⟨before, after, -, hsplits⟩ := hunits.of_boundary hindex
  have hreads : b.ReadsUnread := readsUnread hsplits
  refine ⟨hreads, fun s body hbody => ?_⟩
  exact s.readsUnread (hbody ▸ hreads)

/-- A buffer with marks on both sides of its cursor, and of the characters behind it. -/
def marked : Buffer :=
  ⟨encodeAll [.segment 0, .creation, .char 'é', .segment 1, .segment 0, .char ';', .creation], 2⟩

/-- One character is read from between the marks, and two reads up to a mark leave the other. -/
theorem reads_act_on_unread_marked :
    validate marked.content = .ok () ∧ Boundary marked.content marked.index ∧
      (takeChars 1).Yields marked "é" [';'] ∧
      (readSegments 3).Yields marked ["", "é", ""] [';'] := by
  have hsplits : Splits marked.content marked.index [.segment 0]
      [.creation, .char 'é', .segment 1, .segment 0, .char ';', .creation] :=
    ⟨by simp [marked], rfl⟩
  have hvalid : validate marked.content = .ok () := hsplits.start.validateFrom_eq
  obtain ⟨hreads, -⟩ := reads_act_on_unread marked hvalid hsplits.boundary
  have hunits := unreadUnits_eq hsplits
  have htake := hreads.takeChars_yields 1
  have hsegments := hreads.readSegments_yields 3
  unfold unread at htake
  unfold unreadPieces at hsegments
  rw [hunits] at htake hsegments
  refine ⟨hvalid, hsplits.boundary, htake, ?_⟩
  simpa [List.range_succ, pieces, List.splitOnP_cons_eq_if_modifyHead, isMark, chars, char?]
    using hsegments

end Buffer

end TextMacro
