import TextMacro.Proofs.Actions

/-!
# What builtins can do

Only few builtins may do more than any builtin may (`Builtin.permits`): those that define, change or
erase strings do so with the names that they are given for that (`Builtin.targets`), those that read
a string move its cursor (`Builtin.reads?`), three read a stream or a file (`Builtin.reads`), one
unlocks names, one asks the program to stop, and the control builtin may load a fresh budget of
calls (`Builtin.reloads`). Every builtin stays within that (`Builtin.within_perform`).
-/

namespace TextMacro

/-! ## What is permitted -/

/-- Whether a builtin reads a stream or a file. -/
def Builtin.reads : Builtin → Bool
  | .readString | .promptAndRead | .includeFile => true
  | _ => false

/-- Whether a call of the control builtin asks for a fresh budget: it resets the properties, or it
gives a value to the one that is the budget. -/
def Frame.reloads (f : Frame) : Bool :=
  match f.rest with
  | "reset" :: _ => true
  | "prop" :: name :: _ :: _ => name == Property.execCount.name
  | _ => false

/-- Whether carrying out a builtin may load a fresh budget. -/
def Builtin.reloads (code : Builtin) (f : Frame) : Bool :=
  code = .control && f.reloads

/-- The names whose strings a builtin is to change. -/
def Builtin.targets (code : Builtin) (f : Frame) : List String :=
  match code with
  | .defineString | .appendString | .copyString | .markCreation | .segment | .segmentCount =>
    [f.arg 1]
  | .eraseNames => f.rest
  | _ => []

/-- The name of the string that a builtin reads on, forwards or from its start. -/
def Builtin.reads? (code : Builtin) (f : Frame) : Option String :=
  match code with
  | .readChar | .readChars | .skipChars | .readItem | .readSegment | .rewind => some (f.arg 1)
  | .matchStart | .scanFor | .readClass | .skipClass => some (f.arg 2)
  | _ => none

/-- What carrying out a builtin may do. No builtin generates tokens. -/
def Builtin.permits (code : Builtin) (f : Frame) : Permits where
  reloads := code.reloads f
  unlocks := if code = .unlockNames then f.rest else []
  targets := code.targets f
  cursor := code.reads? f
  reads := code.reads
  halts := code = .halt

/-! ## What builtins compute -/

namespace Decimal

/-- A number outside the range is refused. -/
theorem clean_checked (n : Int) : Clean (checked n) := by
  unfold checked
  split
  · exact .ok _
  · exact .error rfl

/-- A text that is no number is refused. -/
theorem clean_read (text : String) : Clean (read text) := by
  unfold read
  dsimp only
  split
  · exact .error rfl
  · exact clean_checked _

/-- A number below zero is refused. -/
theorem clean_readCount (text : String) : Clean (readCount text) := by
  refine (clean_read text).bind fun n => ?_
  split
  · exact .error rfl
  · exact .ok _

end Decimal

namespace Builtins

variable (f : Frame)

/-- Two operands are read. -/
theorem clean_operandPair : Clean (operandPair f) :=
  (Decimal.clean_read _).bind fun _ => (Decimal.clean_read _).bind fun _ => .ok _

/-- Any number of operands are combined. -/
theorem clean_combineAll (op : Int → Int → Int) : Clean (combineAll op f) := by
  refine (Clean.mapM Decimal.clean_read _).bind fun numbers => ?_
  cases numbers with
  | nil => exact .ok 0
  | cons first rest => exact .foldlM (fun _ _ => Decimal.clean_checked _) _ _

/-- A difference is computed. -/
theorem clean_subtract : Clean (subtract f) :=
  (clean_operandPair f).bind fun _ => Decimal.clean_checked _

/-- A quotient is computed, or division by zero refused. -/
theorem clean_quotient : Clean (quotient f) := by
  refine (clean_operandPair f).bind fun ⟨a, b⟩ => ?_
  dsimp only
  split
  · exact .error rfl
  · exact (Decimal.clean_checked _).bind fun _ => .ok _

/-- A sign is taken off. -/
theorem clean_absolute : Clean (absolute f) :=
  (Decimal.clean_read _).bind fun _ => Decimal.clean_checked _

/-- A file that does not exist is refused without reading it. -/
theorem clean_openRead (files : Files) (path : String) : Clean (Stream.openRead files path) := by
  unfold Stream.openRead
  split
  · exact .ok _
  · exact .error rfl

/-- A text that is no single character is refused. -/
theorem clean_setReadEnd (m : MetaChars) (text : String) : Clean (m.setReadEnd text) := by
  unfold MetaChars.setReadEnd
  split
  · exact .ok _
  · exact .error rfl

/-- A status outside the range is refused. -/
theorem clean_readStatus (text : String) : Clean (readStatus text) := by
  unfold readStatus
  split
  · exact .ok _
  · refine (Decimal.clean_read _).bind fun value => ?_
    split
    · exact .ok _
    · exact .error rfl

/-- A topic or a name that is not known is refused. -/
theorem clean_describe (d : Dictionary) (topic : String) (names : List String) :
    Clean (describe d topic names) := by
  unfold describe
  split
  · exact .mapM (fun name => (d.clean_function name).map _) _
  · exact .mapM (fun name => (d.clean_charClass name).map _) _
  · exact .error rfl

/-- The description of an entry does not say whether it is traced. -/
theorem describe_silent (d : Dictionary) (topic : String) (names : List String) :
    describe d.silent topic names = describe d topic names := by
  have hinfo : ∀ name,
      Function.info <$> d.silent.function name = Function.info <$> d.function name := by
    intro name
    rw [Dictionary.function_silent]
    cases d.function name with
    | error e => rfl
    | ok function => rfl
  unfold describe
  split
  · exact congrArg names.mapM (funext hinfo)
  · rfl
  · rfl

/-- A property that is not known is refused. -/
theorem clean_named (name : String) : Clean (Properties.named name) := by
  unfold Properties.named
  split
  · exact .ok _
  · exact .error rfl

/-- A value outside the range of a property is refused. -/
theorem clean_setProp (s : Session) (name : String) (value : Int) :
    Clean (s.setProp name value) := by
  refine Clean.bind ?_ fun _ => .ok _
  refine (clean_named name).bind fun p => ?_
  split
  · exact .ok _
  · exact .error rfl

/-- Meta characters that are not different are refused. -/
theorem clean_rebind (m : MetaChars) (chars : String) : Clean (m.rebind chars) := by
  unfold MetaChars.rebind
  dsimp only
  split
  · split
    · exact .error rfl
    · exact .ok _
  · split
    · exact .error rfl
    · exact .ok _
  · exact .error rfl

/-! ## Work on bodies -/

/-- A creation mark is put in place of a text. -/
theorem works_markCreation (text : String) : Body.Works fun body =>
    let (count, body) := body.markCreation text
    (.ok count, body) where
  spared _ := .ok _
  clean _ _ := .ok _
  wellFormed _ h := h.replace text fun _ hslot => by simp at hslot

/-- Segment marks are put in place of texts. -/
theorem works_segment (name : String) (patterns : List String) :
    Body.Works (·.segment name patterns) where
  spared body := body.spared_segmentFrom name 0 patterns
  clean body h e he := by
    -- The marks may run out, which is no error about bytes.
    rw [(h.segmentFrom name patterns 0).2 e he]
    rfl
  wellFormed _ h := (h.segmentFrom name patterns 0).1

/-- The next character is read. -/
theorem reads_readChar : Body.Reads (·.read Buffer.readChar) :=
  Body.reads_scanning Buffer.spares_readChar Buffer.moves_readChar

/-- The next characters are read. -/
theorem reads_takeChars (n : Nat) : Body.Reads (·.read (Buffer.takeChars n)) :=
  Body.reads_scanning (Buffer.spares_takeChars n) (Buffer.moves_takeChars n)

/-- What is read up to the next semicolon. -/
theorem reads_readItem (opening stop closing : Char) :
    Body.Reads (·.read (Buffer.readItem opening stop closing)) :=
  Body.reads_scanning (Buffer.spares_readItem _ _ _) (Buffer.moves_readItem _ _ _)

/-- What is read up to the next mark. -/
theorem reads_readSegment : Body.Reads (·.read Buffer.readSegment) :=
  Body.reads_scanning Buffer.spares_readSegment Buffer.moves_readSegment

/-- The next characters of a class are read. -/
theorem reads_takeWhile (keep : Char → Bool) : Body.Reads (·.read (Buffer.takeWhile keep)) :=
  Body.reads_scanning (Buffer.spares_takeWhile keep) (Buffer.moves_takeWhile keep)

/-- A text that a body goes on with is skipped. -/
theorem reads_skipMatch (text : String) : Body.Reads (skipMatch text) where
  spared body := by
    unfold skipMatch
    split
    · rename_i e b htaken
      exact .error (Buffer.spares_takeChars _ _ e b htaken)
    · split
      · exact .ok true
      · exact .ok false
  clean body h := by
    obtain ⟨taken, index, hread, -⟩ := Buffer.moves_takeChars text.length _ h.valid h.boundary
    unfold skipMatch
    rw [hread]
    dsimp only
    split
    · exact .ok true
    · exact .ok false
  wellFormed body h := by
    obtain ⟨taken, index, hread, hindex⟩ := Buffer.moves_takeChars text.length _ h.valid h.boundary
    unfold skipMatch
    rw [hread]
    dsimp only
    split
    · exact h.setIndex hindex
    · exact h
  moved body := by
    unfold skipMatch
    split
    · exact ⟨rfl, rfl⟩
    · split
      · exact ⟨rfl, rfl⟩
      · exact ⟨rfl, rfl⟩

/-- What stands before a text that is found in a well-formed body is units, and the text ends at a
boundary, so that the one can be read as characters and the other be skipped. -/
theorem skipPast_wellFormed {body : Body} (text : String) (h : body.WellFormed) :
    (skipPast text body).2.WellFormed ∧ Clean (skipPast text body).1 := by
  obtain ⟨before, after, hsplits, -, -⟩ := h.consists
  unfold skipPast
  dsimp only
  split
  · exact ⟨h, .ok none⟩
  · rename_i hit hfind
    obtain ⟨hbehind, mid, hmid⟩ := hsplits.of_find_boundary hfind
    obtain ⟨skipped, hstrip⟩ : ∃ skipped, TextUnit.strip (TextUnit.encodeAll mid) = .ok skipped :=
      TextUnit.stripFrom_ok (TextUnit.splits_encodeAll mid).validateFrom_eq .start
    rw [hmid, hstrip]
    exact ⟨h.setIndex hbehind, .ok _⟩

/-- What stands before a text that is found is skipped with it. -/
theorem reads_skipPast (text : String) : Body.Reads (skipPast text) where
  spared body := by
    unfold skipPast
    dsimp only
    split
    · exact .ok none
    · split
      · rename_i e hstrip
        exact .error (TextUnit.spared_stripFrom _ _ _ e hstrip)
      · exact .ok _
  clean _ h := (skipPast_wellFormed text h).2
  wellFormed _ h := (skipPast_wellFormed text h).1
  moved body := by
    unfold skipPast
    dsimp only
    split
    · exact ⟨rfl, rfl⟩
    · split
      · exact ⟨rfl, rfl⟩
      · exact ⟨rfl, rfl⟩

/-- A body becomes unread. -/
theorem reads_resetIndex : Body.Reads fun body =>
    ((.ok (), { body with text := body.text.resetIndex }) : Except Error PUnit × Body) where
  spared _ := .ok _
  clean _ _ := .ok _
  wellFormed _ h := h.moved .start
  moved _ := ⟨rfl, rfl⟩

/-! ## Definitions -/

open TextMacro.Action

variable {permits : Permits} {s : Session}

/-- A string is defined if its name is not locked. -/
theorem within_defineString (h : f.arg 1 ∈ permits.targets) :
    Within permits (defineString f) s :=
  .require_bind (fun d => d.unlocked_silent _) (s.dict.clean_unlocked _) fun hunlocked =>
    .changeDict_bind (.bind h hunlocked) (fun _ => by simp) fun _ =>
      .bind_all (.report rfl) fun _ _ => .pure _

/-- Text is added if the name is not that of a builtin. -/
theorem within_appendString (h : f.arg 1 ∈ permits.targets) :
    Within permits (appendString f) s := by
  refine .require_bind (fun d => d.extensible_silent _) (s.dict.clean_extensible _)
    fun hextensible => .get_bind (fun s => ?_) ?_
  · rw [Session.dict_silent, Dictionary.contains_silent]
  · dsimp only
    split
    · exact .changeDict_bind (.extend h hextensible) (fun _ => by simp) fun _ => .pure _
    · exact .report_bind rfl <|
        .changeDict_bind (.extend h hextensible) (fun _ => by simp) fun _ => .pure _

/-- A string is copied if the name of the copy is not locked. -/
theorem within_copyString (h : f.arg 1 ∈ permits.targets) : Within permits (copyString f) s :=
  .get_lift (fun s => s.dict.body_silent _) (s.dict.clean_body _) fun _ hbody =>
    .require_bind (fun d => d.unlocked_silent _) (s.dict.clean_unlocked _) fun hunlocked =>
      .changeDict_bind (.copy h hbody hunlocked) (fun _ => by simp) fun _ =>
        .bind_all (.report rfl) fun _ _ => .pure _

/-- A creation mark is put into a string. -/
theorem within_markCreation (h : f.arg 1 ∈ permits.targets) : Within permits (markCreation f) s :=
  .bind_all (.onBody (works_markCreation _) (.inl h)) fun _ _ => .pure _

/-- A name is removed if it is not locked. -/
theorem within_eraseName {name : String} (h : name ∈ permits.targets) :
    Within permits (eraseName name) s := by
  refine .require_bind (fun d => d.unlocked_silent _) (s.dict.clean_unlocked _) fun hunlocked =>
    .get_bind (fun s => ?_) ?_
  · rw [Session.dict_silent, Dictionary.contains_silent]
  · split
    · exact .report_bind rfl (.changeDict (.unbind h hunlocked) fun _ => by simp)
    · exact .changeDict (.unbind h hunlocked) fun _ => by simp

/-- Names are removed one after another. -/
theorem within_eraseNames (h : permits.targets = f.rest) : Within permits (eraseNames f) s := by
  refine .bind_all (.forM _ fun name hname _ => ?_) fun _ _ => .pure _
  rw [← h] at hname
  exact within_eraseName hname

/-- Segment marks are put into a string. -/
theorem within_segmentPatterns (h : f.arg 1 ∈ permits.targets) :
    Within permits (segmentPatterns f) s :=
  .bind_all (.onBody (works_segment _ _) (.inl h)) fun _ _ =>
    .bind_all (.report rfl) fun _ _ => .pure _

/-- A question about the bound names is answered. -/
theorem within_ifDefined : Within permits (ifDefined f) s := by
  refine .get_bind (fun s => ?_) (.pure _)
  rw [Session.dict_silent, Dictionary.contains_silent]

/-- The bound names are listed. -/
theorem within_listNames : Within permits (listNames f) s := by
  refine .get_bind (fun s => ?_) (.pure _)
  rw [Session.dict_silent, Dictionary.names_silent]

/-- A name is unlocked only if that is permitted. -/
theorem within_setLock {locked : Bool} {name : String}
    (h : locked = false → name ∈ permits.unlocks) : Within permits (setLock locked name) s :=
  .require_bind (fun d => d.bound_silent _) (s.dict.clean_bound _) fun hbound =>
    .changeDict_bind (.lock locked hbound h) (fun _ => by simp) fun _ => .report rfl

/-- Names are locked one after another. -/
theorem within_lockNames : Within permits (lockNames f) s := by
  refine .bind_all (.forM _ fun name _ _ => ?_) fun _ _ => .pure _
  exact within_setLock fun hlocked => absurd hlocked (by decide)

/-- Names are unlocked one after another. -/
theorem within_unlockNames (h : permits.unlocks = f.rest) : Within permits (unlockNames f) s := by
  refine .bind_all (.forM _ fun name hname _ => ?_) fun _ _ => .pure _
  rw [← h] at hname
  exact within_setLock fun _ => hname

/-- Tracing is switched, which is gone when the tracing is taken out. -/
theorem within_setTrace (traced : Bool) : Within permits (setTrace traced f) s := by
  unfold setTrace
  split
  · refine .bind_all (.modify (.traceAll traced) (fun s => ?_) rfl) fun _ _ => .pure _
    exact congrArg (fun s' : Session => { s' with traceAll := false }) s.silent_silent
  · refine .bind_all (.forM _ fun name _ s => ?_) fun _ _ => .pure _
    exact .require_bind (fun d => d.bound_silent _) (s.dict.clean_bound _) fun hbound =>
      .changeDict (.trace traced hbound) fun _ => by simp

/-! ## Reading a defined string -/

/-- The next character of a string is read. -/
theorem within_readChar (h : permits.cursor = some (f.arg 1)) : Within permits (readChar f) s := by
  refine .bind_all (.readBody reads_readChar h) fun next _ => ?_
  cases next with
  | none => exact .pure _
  | some c => exact .pure _

/-- The next characters of a string are read. -/
theorem within_readChars (h : permits.cursor = some (f.arg 1)) : Within permits (readChars f) s :=
  .lift_bind (Decimal.clean_readCount _) fun n _ => .readBody (reads_takeChars n) h

/-- The next characters of a string are skipped. -/
theorem within_skipChars (h : permits.cursor = some (f.arg 1)) : Within permits (skipChars f) s :=
  .lift_bind (Decimal.clean_readCount _) fun n _ =>
    .bind_all (.readBody ((reads_takeChars n).map _) h) fun _ _ => .pure _

/-- A text is skipped if a string goes on with it. -/
theorem within_matchStart (h : permits.cursor = some (f.arg 2)) :
    Within permits (matchStart f) s :=
  .bind_all (.onBody (reads_skipMatch _).toWorks (.inr ⟨h, (reads_skipMatch _).moved⟩))
    fun _ _ => .pure _

/-- A text is searched in a string. -/
theorem within_scanFor (h : permits.cursor = some (f.arg 2)) : Within permits (scanFor f) s :=
  .bind_all (.onBody (reads_skipPast _).toWorks (.inr ⟨h, (reads_skipPast _).moved⟩))
    fun _ _ => .pure _

/-- A string becomes unread. -/
theorem within_rewind (h : permits.cursor = some (f.arg 1)) : Within permits (rewind f) s :=
  .bind_all (.onBody reads_resetIndex.toWorks (.inr ⟨h, reads_resetIndex.moved⟩))
    fun _ _ => .pure _

/-- The next character of a string is looked at. -/
theorem within_peekChar (name : String) : Within permits (peekChar name) s := by
  refine .get_lift (fun s => s.dict.body_silent _) (s.dict.clean_body _) fun body hbody => ?_
  refine .lift_wellFormed (Buffer.spared_charFrom _ _) fun hs => ?_
  have hbody := hs.1.body hbody
  obtain ⟨-, next, hnext⟩ := Buffer.stops_charFrom hbody.valid hbody.boundary
  unfold Buffer.peekChar
  rw [hnext]
  exact .ok next

/-! ## Character classes -/

/-- A class is defined. -/
theorem within_defineClass (negative : Bool) : Within permits (defineClass negative f) s :=
  .report_bind rfl <| .changeDict_bind (.defineClass _ _ _) (fun _ => by simp) fun _ => .pure _

/-- Classes are removed one after another. -/
theorem within_eraseClasses : Within permits (eraseClasses f) s :=
  .bind_all (.forM _ fun name _ _ => .changeDict (.eraseClass name) fun _ => by simp)
    fun _ _ => .pure _

/-- The next characters of a class are read. -/
theorem within_readClass (h : permits.cursor = some (f.arg 2)) : Within permits (readClass f) s :=
  .get_lift (fun s => s.dict.charClass_silent _) (s.dict.clean_charClass _) fun k _ =>
    .readBody (reads_takeWhile k.contains) h

/-- The next characters of a class are skipped. -/
theorem within_skipClass (h : permits.cursor = some (f.arg 2)) : Within permits (skipClass f) s :=
  .get_lift (fun s => s.dict.charClass_silent _) (s.dict.clean_charClass _) fun k _ =>
    .bind_all (.readBody ((reads_takeWhile k.contains).map _) h) fun _ _ => .pure _

/-- The next character is compared with a class. -/
theorem within_testClass : Within permits (testClass f) s :=
  .get_lift (fun s => s.dict.charClass_silent _) (s.dict.clean_charClass _) fun _ _ =>
    .bind_all (within_peekChar _) fun _ _ => .pure _

/-- The classes are listed. -/
theorem within_listClasses : Within permits listClasses s := by
  refine .get_bind (fun s => ?_) (.pure _)
  rw [Session.dict_silent, Dictionary.classNames_silent]

/-! ## Numbers -/

/-- The text of a number is yielded. -/
theorem within_yieldNumber {result : Except Error Int} (h : Clean result) :
    Within permits (yieldNumber result) s :=
  (Within.lift h).map _

/-- Two numbers are compared. -/
theorem within_compareNumbers (want : Ordering) : Within permits (compareNumbers want f) s :=
  .lift_bind (clean_operandPair f) fun _ _ => .pure _

/-! ## Surroundings -/

/-- A text is printed, or the stream is not known. -/
theorem within_printText : Within permits (printText f) s := by
  unfold printText
  split
  · exact .bind_all (.print _ _) fun _ _ => .pure _
  · exact .bind_all (.print _ _) fun _ _ => .pure _
  · exact .bind_all (.print _ _) fun _ _ => .pure _
  · exact .bind_all (.throw (.of_clean rfl)) fun _ _ => .pure _

/-- A stream is read, and what was read printed if that is asked for. -/
theorem within_readString (h : permits.reads = true) : Within permits readString s := by
  refine .get_bind (fun _ => rfl) <| .bind_all (.readRs h fun files => ?_) fun line s' => ?_
  · exact Stream.spares_readUntilFrom files _ none
  · cases line with
    | none => exact .get_bind (fun _ => rfl) (.throw (.of_clean rfl))
    | some line =>
      refine .get_bind (fun _ => rfl) ?_
      split
      · exact .bind_all (.print _ _) fun _ _ => .bind_all (.print _ _) fun _ _ => .pure _
      · exact .pure _

/-- A character is chosen that ends what is read. -/
theorem within_setReadEnd : Within permits (setReadEnd f) s :=
  .get_lift (fun _ => rfl) (clean_setReadEnd _ _) fun chars hchars =>
    .bind_all (.modify (.readEnd hchars)
      (fun s => congrArg (fun s' : Session => { s' with chars }) s.silent_silent) rfl)
      fun _ _ => .pure _

/-- A file is looked for and read. -/
theorem within_includeFile (h : permits.reads = true) : Within permits (includeFile f) s := by
  refine .bind_all (.modify (.noted _ h) (fun s => ?_) rfl) fun _ s => ?_
  · exact congrArg (fun s' : Session => { s' with files := s'.files.note (f.arg 1) })
      s.silent_silent
  · refine .get_bind (fun _ => rfl) <| .lift_bind (clean_openRead _ _) fun stream _ => ?_
    split
    · exact .pure _
    · rename_i e left hread
      exact .throw (.of_reads h (Stream.spares_readToEndFrom _ "" stream e left hread))

/-- The program is asked to stop. -/
theorem within_requestHalt (h : permits.halts = true) : Within permits (requestHalt f) s :=
  .lift_bind (clean_readStatus _) fun status _ =>
    .bind_all (.modify (.halt (some status) h)
      (fun s => congrArg (fun s' : Session => { s' with halt := some status }) s.silent_silent) rfl)
      fun _ _ => .pure _

/-- An instant is rendered, or it is out of range. -/
theorem within_renderTime : Within permits (renderTime f) s := by
  refine .lift_bind (Decimal.clean_read _) fun value _ => ?_
  split
  · exact .pure _
  · exact .throw (.of_clean rfl)

/-- An argument of the program is yielded, or there is none. -/
theorem within_getArgument : Within permits (getArgument f) s := by
  refine .lift_bind (Decimal.clean_read _) fun index _ => .get_bind (fun _ => rfl) ?_
  dsimp only
  cases (if 0 ≤ index then s.args[index.toNat]? else none) with
  | some arg => exact .pure _
  | none => exact .throw (.of_clean rfl)

/-! ## The interpreter -/

/-- A property is set, which loads a fresh budget only if it is the budget. -/
theorem within_setProp {name : String} (value : Int)
    (h : name = Property.execCount.name → permits.reloads = true) :
    Within permits (do
      let s ← lift ((← get).setProp name value)
      set s
      return "" : Action String) s := by
  intro t ht
  have hsame : Session.silent <$> s.setProp name value
      = Session.silent <$> t.setProp name value := by
    rw [← s.setProp_silent, ← t.setProp_silent, ht]
  show Ends permits s ((lift (s.setProp name value) >>= _) s)
    ((lift (t.setProp name value) >>= _) t)
  cases hs : s.setProp name value with
  | error e =>
    cases ht' : t.setProp name value with
    | error e' =>
      rw [hs, ht'] at hsame
      obtain rfl : e = e' := Except.error.inj hsame
      exact .error (.refl ht) (.of_clean (clean_setProp s name value e hs))
    | ok t' =>
      rw [hs, ht'] at hsame
      cases hsame
  | ok s' =>
    cases ht' : t.setProp name value with
    | error e' =>
      rw [hs, ht'] at hsame
      cases hsame
    | ok t' =>
      rw [hs, ht'] at hsame
      have hlog : s'.log = s.log := by
        obtain ⟨p, -, -, rfl⟩ := Session.eq_of_setProp hs
        rfl
      exact .ok (.of_change (.setProp hs h) hlog (Except.ok.inj hsame))

/-- Properties are listed, looked up or set. -/
theorem within_controlProp (h : ∀ name text rest, f.rest.drop 1 = name :: text :: rest →
    name = Property.execCount.name → permits.reloads = true) :
    Within permits (controlProp f) s := by
  unfold controlProp
  split
  · exact .get_bind (fun _ => rfl) (.pure _)
  · exact .get_lift (fun _ => rfl) ((clean_named _).map _) fun _ _ => .pure _
  · rename_i name text rest hrest
    exact .lift_bind (Decimal.clean_read _) fun value _ =>
      within_setProp value (h name text rest hrest)

/-- The first argument of a call, if it is not empty, is the first of the arguments. -/
theorem rest_eq_of_arg_one {text : String} (h : f.arg 1 = text) (hne : text ≠ "") :
    f.rest = text :: f.rest.drop 1 := by
  obtain ⟨args, active⟩ := f
  match args with
  | [] | [_] => exact absurd h.symm hne
  | _ :: first :: rest =>
    obtain rfl : first = text := h
    rfl

/-- The control builtin loads a fresh budget only if it is asked to. -/
theorem within_control (h : permits.reloads = f.reloads) : Within permits (control f) s := by
  unfold control
  split
  · exact .get_lift (fun _ => rfl) (clean_rebind _ _) fun chars hchars =>
      .bind_all (.modify (.rebind hchars)
        (fun s => congrArg (fun s' : Session => { s' with chars }) s.silent_silent) rfl)
        fun _ _ => .pure _
  · exact .get_lift (fun s => describe_silent s.dict _ _) (clean_describe _ _ _) fun _ _ => .pure _
  · rename_i harg
    refine within_controlProp f fun name text rest hrest hname => ?_
    rw [h]
    unfold Frame.reloads
    rw [rest_eq_of_arg_one f harg (by decide), hrest]
    exact beq_iff_eq.mpr hname
  · rename_i harg
    refine .bind_all (.modify (.reset ?_) (fun s => ?_) rfl) fun _ _ => .pure _
    · rw [h]
      unfold Frame.reloads
      rw [rest_eq_of_arg_one f harg (by decide)]
      rfl
    · exact congrArg Session.resetProps s.silent_silent
  · exact .throw (.of_clean rfl)

end Builtins

/-! ## All builtins -/

open Builtins in
/-- Every builtin stays within what it may do. -/
theorem Builtin.within_perform (code : Builtin) (f : Frame) (s : Session) :
    Action.Within (code.permits f) (code.perform f) s := by
  have htarget : f.arg 1 ∈ [f.arg 1] := List.mem_singleton_self _
  cases code with
  | defineString => exact within_defineString f htarget
  | appendString => exact within_appendString f htarget
  | copyString => exact within_copyString f htarget
  | markCreation => exact within_markCreation f htarget
  | eraseNames => exact within_eraseNames f rfl
  | segment | segmentCount => exact .bind_all (within_segmentPatterns f htarget) fun _ _ => .pure _
  | ifDefined => exact within_ifDefined f
  | listNames => exact within_listNames f
  | lockNames => exact within_lockNames f
  | unlockNames => exact within_unlockNames f rfl
  | traceOn => exact within_setTrace f true
  | traceOff => exact within_setTrace f false
  | readChar => exact within_readChar f rfl
  | readChars => exact within_readChars f rfl
  | skipChars => exact within_skipChars f rfl
  | readItem => exact .get_bind (fun _ => rfl) (.readBody (reads_readItem _ _ _) rfl)
  | readSegment => exact .readBody reads_readSegment rfl
  | matchStart => exact within_matchStart f rfl
  | scanFor => exact within_scanFor f rfl
  | rewind => exact within_rewind f rfl
  | ifExhausted => exact .bind_all (within_peekChar _) fun _ _ => .pure _
  | takeText => exact .lift_bind (Decimal.clean_read _) fun _ _ => .pure _
  | splitCommas | splitGroups => exact .get_bind (fun _ => rfl) (.pure _)
  | reverseText | textLength => exact .pure _
  | defineClass => exact within_defineClass f false
  | defineNegativeClass => exact within_defineClass f true
  | eraseClasses => exact within_eraseClasses f
  | readClass => exact within_readClass f rfl
  | skipClass => exact within_skipClass f rfl
  | testClass => exact within_testClass f
  | listClasses => exact within_listClasses
  | add | multiply => exact within_yieldNumber (clean_combineAll f _)
  | subtract => exact within_yieldNumber (clean_subtract f)
  | divide | remainder => exact within_yieldNumber ((clean_quotient f).map _)
  | absolute => exact within_yieldNumber (clean_absolute f)
  | ifEqual | ifGreater | ifLess => exact within_compareNumbers f _
  | ifSameText | ifTextAfter | ifTextBefore => exact .pure _
  | print => exact within_printText f
  | readString => exact within_readString rfl
  | promptAndRead => exact .bind_all (.print _ _) fun _ _ => within_readString rfl
  | setReadEnd => exact within_setReadEnd f
  | includeFile => exact within_includeFile f rfl
  | halt => exact within_requestHalt f rfl
  | clockTime | runTime | countArguments => exact .get_bind (fun _ => rfl) (.pure _)
  | renderTime => exact within_renderTime f
  | getArgument => exact within_getArgument f
  | control => exact within_control f rfl

end TextMacro
