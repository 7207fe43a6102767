import Mathlib.Order.Bounds.Basic
import TextMacro.Proofs.Decoders

/-!
# Newlines

A stream reads a carriage return and a line feed as one line feed. To tell whether a line feed
follows it looks one character ahead, and what it finds instead goes back onto the stack of
characters that programs push back to.

What is left to read is the characters on that stack, and behind them those of the source
(`pendingText`). Reading and pushing back act on this text alone, wherever its characters stand
(`readChar_of_pair`, `readChar_of_single`): the stack has room for what was looked at, because two
characters were taken before one goes back. So over a text no call loses anything, and reading to
the end gives what is left with its newlines folded (`newlines_folded`).

Over damaged bytes one character can be lost. A carriage return in front of the damage has been
taken when looking ahead fails, and the error is all that is reported of it (`damage_behind_text`).
-/

namespace TextMacro.Stream

open TextUnit

/-- A text in which every pair of a carriage return and a line feed is a line feed. -/
def foldNewlines : List Char → List Char
  | [] => []
  | '\r' :: '\n' :: rest => '\n' :: foldNewlines rest
  | c :: rest => c :: foldNewlines rest

/-- The characters that were not yet read from the source. -/
def sourceText (files : Files) (s : Stream) : List Char :=
  match s.bytes files with
  | .ok b => (leadingChars b s.offset).1
  | .error _ => []

/-- The characters left to read. -/
def pendingText (files : Files) (s : Stream) : List Char :=
  s.pushback ++ sourceText files s

variable {files : Files} {b : ByteArray} {s : Stream} {c : Char} {text rest : List Char}
  {stop : Option Nat}

/-- The characters that were not yet read are those that stepping finds behind the offset. -/
theorem sourceText_of_bytes (hb : s.bytes files = .ok b) :
    sourceText files s = (leadingChars b s.offset).1 := by
  unfold sourceText
  rw [hb]

/-! ## Looking ahead -/

/-- Behind a carriage return a stream looks ahead. -/
theorem readChar_of_return {t : Stream} (h : next files s = .ok (some '\r') t) :
    readChar files s = match next files t with
      | .ok (some '\n') u => .ok (some '\n') u
      | .ok (some other) u =>
        match unread other u with
        | .ok _ v => .ok (some '\r') v
        | .error e v => .error e v
      | .ok none u => .ok (some '\r') u
      | .error e u => .error e u := by
  unfold readChar
  rw [h]
  rfl

/-- Otherwise a stream reads what comes next. -/
theorem readChar_of_next {next? : Option Char} {t : Stream} (h : next files s = .ok next? t)
    (hne : next? ≠ some '\r') : readChar files s = .ok next? t := by
  unfold readChar
  rw [h]
  split
  · simp_all
  · rfl

/-- A stream that fails to read what comes next fails to read a character. -/
theorem readChar_of_error {e : Error} {t : Stream} (h : next files s = .error e t) :
    readChar files s = .error e t := by
  unfold readChar
  rw [h]

/-! ## What a stream has left to read -/

/-- A stream over `b` has the characters `text` left to read, and behind them the end, or the damage
at `stop`. -/
structure Shows (files : Files) (b : ByteArray) (stop : Option Nat) (s : Stream)
    (text : List Char) : Prop where
  bytes : s.bytes files = .ok b
  /-- What was read from the source stands before its offset. -/
  source : ∃ read left, leadingChars b 0 = (read ++ left, stop) ∧ s.offset = read.utf8Encode.size ∧
    leadingChars b s.offset = (left, stop) ∧ text = s.pushback ++ left
  few : s.pushback.length ≤ pushbackDepth

/-- Stepping over the bytes of a text finds all its characters. -/
theorem leadingChars_toUTF8 (content : String) :
    leadingChars content.toUTF8 0 = (content.toList, none) := by
  have hbytes : content.toUTF8 = content.toList.utf8Encode := by
    rw [String.utf8Encode_toList]
    rfl
  rw [hbytes]
  exact leadingChars_utf8Encode content.toList

/-- A fresh stream has the characters left that stepping finds. -/
theorem Fresh.shows (h : s.Fresh files b) :
    Shows files b (leadingChars b 0).2 s (leadingChars b 0).1 := by
  refine ⟨h.bytes, ⟨[], (leadingChars b 0).1, rfl, ?_, ?_, ?_⟩, ?_⟩
  · rw [h.offset, List.utf8Encode_nil, ByteArray.size_empty]
  · rw [h.offset]
  · rw [h.pushback, List.nil_append]
  · rw [h.pushback]
    exact Nat.zero_le _

namespace Shows

/-- What is left to read is the pending text. -/
theorem pendingText_eq (h : Shows files b stop s text) : pendingText files s = text := by
  obtain ⟨read, left, -, -, hleft, rfl⟩ := h.source
  unfold pendingText
  rw [sourceText_of_bytes h.bytes, hleft]

/-- A character that is left is taken, from the stack or from the source. -/
theorem next_cons (h : Shows files b stop s (c :: rest)) :
    ∃ t, next files s = .ok (some c) t ∧ t.pushback = s.pushback.tail ∧
      Shows files b stop t rest := by
  obtain ⟨read, left, hall, hoffset, hleft, htext⟩ := h.source
  have hfew := h.few
  unfold next
  -- The source is only asked when the stack is empty.
  cases hpushback : s.pushback with
  | cons d ds =>
    rw [hpushback, List.cons_append, List.cons.injEq] at htext
    obtain ⟨rfl, rfl⟩ := htext
    rw [hpushback, List.length_cons] at hfew
    refine ⟨{ s with pushback := ds }, rfl, rfl, h.bytes, ?_, ?_⟩
    · exact ⟨read, left, hall, hoffset, hleft, rfl⟩
    · exact Nat.le_of_succ_le hfew
  | nil =>
    rw [hpushback, List.nil_append] at htext
    subst htext
    obtain ⟨hchar, hrest⟩ := leadingChars_eq_cons_iff.mp hleft
    refine ⟨_, readRaw_of_decode h.bytes hchar, hpushback, h.bytes, ?_, hfew⟩
    refine ⟨read ++ [c], rest, ?_, ?_, hrest, ?_⟩
    · rw [hall, List.append_assoc, List.singleton_append]
    · rw [List.utf8Encode_append, ByteArray.size_append, ← hoffset, size_utf8Encode_singleton]
    · dsimp only
      rw [hpushback, List.nil_append]

/-- Where nothing is left, nothing is taken, or the damage is met. -/
theorem next_nil (h : Shows files b stop s []) :
    match stop with
    | none => next files s = .ok none s
    | some place => ∃ t, next files s = .error (.badUnit place) t := by
  obtain ⟨read, left, hall, hoffset, hleft, htext⟩ := h.source
  obtain ⟨hpushback, rfl⟩ := List.append_eq_nil_iff.mp htext.symm
  unfold next
  rw [hpushback]
  rcases leadingChars_nil hleft with ⟨rfl, hge⟩ | ⟨rfl, hlt, hdamage⟩
  · exact readRaw_of_size_le h.bytes hge
  · exact readRaw_of_damage h.bytes hlt hdamage

/-- What is pushed back is left again, in front of the rest. -/
theorem unread_eq (h : Shows files b stop s text) (c : Char)
    (hroom : s.pushback.length < pushbackDepth) :
    ∃ t, unread c s = .ok () t ∧ Shows files b stop t (c :: text) := by
  obtain ⟨read, left, hall, hoffset, hleft, rfl⟩ := h.source
  refine ⟨{ s with pushback := c :: s.pushback }, ?_, h.bytes, ?_, hroom⟩
  · unfold unread
    rw [if_neg (Nat.not_le.mpr hroom)]
  · exact ⟨read, left, hall, hoffset, hleft, rfl⟩

/-! ## Reading a character -/

/-- A carriage return and a line feed are read as a line feed. -/
theorem readChar_of_pair (h : Shows files b stop s ('\r' :: '\n' :: rest)) :
    ∃ t, readChar files s = .ok (some '\n') t ∧ Shows files b stop t rest := by
  obtain ⟨t, hfirst, -, ht⟩ := h.next_cons
  obtain ⟨u, hsecond, -, hu⟩ := ht.next_cons
  refine ⟨u, ?_, hu⟩
  rw [readChar_of_return hfirst, hsecond]
  rfl

/-- Any other character is read as it is, unless it is a carriage return before damage. -/
theorem readChar_of_single (h : Shows files b stop s (c :: rest))
    (hpair : ¬ (c = '\r' ∧ rest.head? = some '\n'))
    (hdamage : ¬ (c = '\r' ∧ rest = [] ∧ stop.isSome)) :
    ∃ t, readChar files s = .ok (some c) t ∧ Shows files b stop t rest := by
  obtain ⟨t, hfirst, htail, ht⟩ := h.next_cons
  by_cases hreturn : c = '\r'
  · subst hreturn
    cases rest with
    | nil =>
      obtain rfl : stop = none := by simpa using hdamage
      have hend := ht.next_nil
      refine ⟨t, ?_, ht⟩
      rw [readChar_of_return hfirst, hend]
    | cons d rest =>
      have hd : d ≠ '\n' := by simpa using hpair
      obtain ⟨u, hsecond, htail', hu⟩ := ht.next_cons
      -- Two characters were taken, so there is room for one.
      have hroom : u.pushback.length < pushbackDepth := by
        have hfew := h.few
        rw [htail', htail, List.length_tail, List.length_tail]
        unfold pushbackDepth at hfew ⊢
        omega
      obtain ⟨v, hback, hv⟩ := hu.unread_eq d hroom
      refine ⟨v, ?_, hv⟩
      rw [readChar_of_return hfirst, hsecond]
      simp [hback]
  · exact ⟨t, readChar_of_next hfirst (by simpa using hreturn), ht⟩

/-- Where nothing is left, the end is read, or the damage is met. -/
theorem readChar_of_nil (h : Shows files b stop s []) :
    match stop with
    | none => readChar files s = .ok none s
    | some place => ∃ t, readChar files s = .error (.badUnit place) t := by
  have hnext := h.next_nil
  cases stop with
  | none => exact readChar_of_next hnext (by simp)
  | some place =>
    obtain ⟨t, ht⟩ := hnext
    exact ⟨t, readChar_of_error ht⟩

/-- A carriage return before damage is lost. -/
theorem readChar_of_lost {place : Nat} (h : Shows files b (some place) s ['\r']) :
    ∃ t, readChar files s = .error (.badUnit place) t := by
  obtain ⟨t, hfirst, -, ht⟩ := h.next_cons
  obtain ⟨u, hdamage⟩ := ht.next_nil
  refine ⟨u, ?_⟩
  rw [readChar_of_return hfirst, hdamage]

end Shows

/-! ## Reading on -/

/-- The characters at the end of a text that are lost to damage behind it. -/
def lost (text : List Char) (stop : Option Nat) : List Char :=
  if text.getLast? = some '\r' ∧ stop.isSome then ['\r'] else []

/-- Only the last character can be lost. -/
theorem lost_cons (h : ¬ (c = '\r' ∧ rest = [] ∧ stop.isSome)) :
    lost (c :: rest) stop = lost rest stop := by
  unfold lost
  cases rest with
  | nil => simp_all
  | cons d rest => rw [List.getLast?_cons_cons]

/-- What a stream delivers is what it has left, with its newlines folded, up to what is lost. -/
theorem Shows.delivers (h : Shows files b stop s text) :
    ∃ cs, Delivers (readChar files) s cs (stop.map .badUnit) ∧
      cs ++ lost text stop = foldNewlines text := by
  -- Folding takes a pair or a single character at a time, and so does reading. The two part only at
  -- a carriage return that nothing but damage follows: folding keeps it.
  fun_induction foldNewlines text generalizing s with
  | case1 =>
    have hend := h.readChar_of_nil
    cases stop with
    | none => exact ⟨[], .done hend, by simp [lost]⟩
    | some place =>
      obtain ⟨t, ht⟩ := hend
      exact ⟨[], .failed ht, by simp [lost]⟩
  | case2 rest ih =>
    obtain ⟨t, hread, ht⟩ := h.readChar_of_pair
    obtain ⟨cs, hcs, hrest⟩ := ih ht
    refine ⟨'\n' :: cs, .next hread hcs, ?_⟩
    rw [lost_cons (by simp), lost_cons (by simp), List.cons_append, hrest]
  | case3 c rest hpair ih =>
    by_cases hlost : c = '\r' ∧ rest = [] ∧ stop.isSome
    · obtain ⟨rfl, rfl, hsome⟩ := hlost
      obtain ⟨place, rfl⟩ := Option.isSome_iff_exists.mp hsome
      obtain ⟨t, ht⟩ := h.readChar_of_lost
      exact ⟨[], .failed ht, by simp [lost, foldNewlines]⟩
    · have hsingle : ¬ (c = '\r' ∧ rest.head? = some '\n') := by
        rintro ⟨rfl, hhead⟩
        obtain ⟨tail, rfl⟩ := List.head?_eq_some_iff.mp hhead
        exact hpair tail rfl rfl
      obtain ⟨t, hread, ht⟩ := h.readChar_of_single hsingle hlost
      obtain ⟨cs, hcs, hrest⟩ := ih ht
      refine ⟨c :: cs, .next hread hcs, ?_⟩
      rw [lost_cons hlost, List.cons_append, hrest]

/-- One round of reading to the end. -/
theorem readToEndFrom_round (files : Files) (out : String) (s : Stream) :
    readToEndFrom files out s = match readChar files s with
      | .error e t => .error e t
      | .ok none t => .ok out t
      | .ok (some c) t => readToEndFrom files (out.push c) t := by
  rw [readToEndFrom]
  split
  · rename_i e t h
    rw [h]
  · rename_i t h
    rw [h]
  · rename_i c t h
    rw [h]

/-- Reading to the end collects what a stream delivers. -/
theorem readToEndFrom_of_delivers {cs : List Char} {last : Option Error} (out : String)
    (h : Delivers (readChar files) s cs last) (hlast : last = none) :
    ∃ t, readToEndFrom files out s = .ok (out ++ String.ofList cs) t := by
  induction h generalizing out with
  | @done s t h =>
    rw [readToEndFrom_round, h]
    refine ⟨t, ?_⟩
    rw [String.ofList_nil, String.append_empty]
  | failed h => simp at hlast
  | @next s t c cs last h rest ih =>
    obtain ⟨u, hu⟩ := ih (out.push c) hlast
    rw [readToEndFrom_round, h]
    refine ⟨u, ?_⟩
    dsimp only
    rw [hu, String.push_eq_append, String.append_assoc, String.singleton_eq_ofList,
      ← String.ofList_append, List.singleton_append]

/-- Reading to the end gives what a stream has left, with its newlines folded. -/
theorem Shows.readToEnd_eq (h : Shows files b none s text) :
    ∃ t, readToEnd files s = .ok (String.ofList (foldNewlines text)) t := by
  obtain ⟨cs, hcs, hfold⟩ := h.delivers
  have hlost : lost text none = [] := by simp [lost]
  rw [hlost, List.append_nil] at hfold
  subst hfold
  have hread := readToEndFrom_of_delivers "" hcs rfl
  rwa [String.empty_append] at hread

/-! ## Calls in any order -/

/-- A call that reads or pushes back a character. -/
inductive Use where
  | readChar
  | unread (c : Char)

/-- The stream that an operation leaves, also where it fails. -/
def streamOf {α : Type} : EStateM.Result Error Stream α → Stream
  | .ok _ s => s
  | .error _ s => s

/-- The stream that a call leaves. -/
def Use.leaves (files : Files) (s : Stream) : Use → Stream
  | .readChar => streamOf (Stream.readChar files s)
  | .unread c => streamOf (Stream.unread c s)

/-- The stream that calls leave, one after another. -/
def afterUses (files : Files) (s : Stream) (uses : List Use) : Stream :=
  uses.foldl (Use.leaves files) s

/-- A full stack takes no character, and nothing changes. -/
theorem unread_of_full (c : Char) (h : s.pushback.length = pushbackDepth) :
    unread c s = .error (.pushbackFull s.name) s := by
  unfold unread
  rw [if_pos (Nat.le_of_eq h.symm)]

/-- A character is read from a stream that has one left and no damage. -/
theorem Shows.readChar_of_cons (h : Shows files b none s (c :: rest)) :
    ∃ d t text, readChar files s = .ok (some d) t ∧ Shows files b none t text := by
  by_cases hpair : c = '\r' ∧ rest.head? = some '\n'
  · obtain ⟨rfl, hhead⟩ := hpair
    obtain ⟨tail, rfl⟩ := List.head?_eq_some_iff.mp hhead
    obtain ⟨t, hread, ht⟩ := h.readChar_of_pair
    exact ⟨'\n', t, tail, hread, ht⟩
  · obtain ⟨t, hread, ht⟩ := h.readChar_of_single hpair (by simp)
    exact ⟨c, t, rest, hread, ht⟩

/-- A call leaves a stream that has some text left. -/
theorem Shows.leaves (h : Shows files b none s text) (use : Use) :
    ∃ text', Shows files b none (use.leaves files s) text' := by
  cases use with
  | readChar =>
    unfold Use.leaves
    dsimp only
    cases text with
    | nil =>
      rw [h.readChar_of_nil]
      exact ⟨[], h⟩
    | cons c rest =>
      obtain ⟨d, t, text, hread, ht⟩ := h.readChar_of_cons
      rw [hread]
      exact ⟨text, ht⟩
  | unread c =>
    unfold Use.leaves
    dsimp only
    rcases Nat.lt_or_eq_of_le h.few with hroom | hfull
    · obtain ⟨t, hback, ht⟩ := h.unread_eq c hroom
      rw [hback]
      exact ⟨c :: text, ht⟩
    · rw [unread_of_full c hfull]
      exact ⟨text, h⟩

/-- Calls leave a stream that has some text left. -/
theorem Shows.afterUses (h : Shows files b none s text) (uses : List Use) :
    ∃ text', Shows files b none (afterUses files s uses) text' := by
  induction uses generalizing s text with
  | nil => exact ⟨text, h⟩
  | cons use uses ih =>
    obtain ⟨text', h'⟩ := h.leaves use
    exact ih h'

/-- A stream is read by the text it has left, wherever the characters of that text stand. -/
structure ReadsPending (files : Files) (s : Stream) : Prop where
  /-- The end is read exactly if nothing is left. -/
  readChar_end : (∃ t, readChar files s = .ok none t) ↔ pendingText files s = []
  /-- A carriage return and a line feed are taken together, as a line feed. -/
  readChar_pair : ∀ rest, pendingText files s = '\r' :: '\n' :: rest →
    ∃ t, readChar files s = .ok (some '\n') t ∧ pendingText files t = rest
  /-- Any other character is taken by itself. -/
  readChar_single : ∀ c rest, pendingText files s = c :: rest →
    ¬ (c = '\r' ∧ rest.head? = some '\n') →
    ∃ t, readChar files s = .ok (some c) t ∧ pendingText files t = rest
  /-- Reading does not fail. -/
  readChar_ne_error : ∀ e t, readChar files s ≠ .error e t
  /-- A character that is pushed back comes first. -/
  unread_room : ∀ c, s.pushback.length ≠ pushbackDepth →
    ∃ t, unread c s = .ok () t ∧ pendingText files t = c :: pendingText files s
  /-- Only a full stack takes no more, and then nothing changes. -/
  unread_full : ∀ c, s.pushback.length = pushbackDepth →
    unread c s = .error (.pushbackFull s.name) s
  /-- Reading to the end gives the text with its newlines folded. -/
  readToEnd_eq : ∃ t, readToEnd files s = .ok (String.ofList (foldNewlines (pendingText files s))) t

/-- A stream without damage is read by the text it has left. -/
theorem Shows.readsPending (h : Shows files b none s text) : ReadsPending files s := by
  have htext := h.pendingText_eq
  -- Without damage, reading gives the end or a character, and never an error.
  have hread : (text = [] ∧ readChar files s = .ok none s) ∨
      ∃ d t, text ≠ [] ∧ readChar files s = .ok (some d) t := by
    cases text with
    | nil => exact .inl ⟨rfl, h.readChar_of_nil⟩
    | cons c rest =>
      obtain ⟨d, t, -, hread, -⟩ := h.readChar_of_cons
      exact .inr ⟨d, t, by simp, hread⟩
  constructor
  case readChar_end =>
    rw [htext]
    rcases hread with ⟨rfl, hend⟩ | ⟨d, t, hne, hsome⟩
    · exact iff_of_true ⟨s, hend⟩ rfl
    · refine iff_of_false ?_ hne
      rintro ⟨u, hu⟩
      rw [hsome] at hu
      simp at hu
  case readChar_pair =>
    intro rest hrest
    rw [htext] at hrest
    subst hrest
    obtain ⟨t, hpair, ht⟩ := h.readChar_of_pair
    exact ⟨t, hpair, ht.pendingText_eq⟩
  case readChar_single =>
    intro c rest hrest hpair
    rw [htext] at hrest
    subst hrest
    obtain ⟨t, hsingle, ht⟩ := h.readChar_of_single hpair (by simp)
    exact ⟨t, hsingle, ht.pendingText_eq⟩
  case readChar_ne_error =>
    intro e t
    rcases hread with ⟨-, hend⟩ | ⟨d, u, -, hsome⟩
    · rw [hend]
      simp
    · rw [hsome]
      simp
  case unread_room =>
    intro c hroom
    obtain ⟨t, hback, ht⟩ := h.unread_eq c (Nat.lt_of_le_of_ne h.few hroom)
    exact ⟨t, hback, by rw [ht.pendingText_eq, htext]⟩
  case unread_full => exact fun c hfull => unread_of_full c hfull
  case readToEnd_eq =>
    rw [htext]
    exact h.readToEnd_eq

/-- Whatever characters were read from a stream over a text and pushed back to it before, in any
order: what was read from the source stands before the offset and the rest of the text behind it,
and the stream is read by the characters pushed back, followed by that rest, with newlines folded
across the two. -/
theorem newlines_folded {content : String} (hs : s.Fresh files content.toUTF8) (uses : List Use) :
    (∃ read, read ++ sourceText files (afterUses files s uses) = content.toList ∧
      (afterUses files s uses).offset = read.utf8Encode.size) ∧
    ReadsPending files (afterUses files s uses) := by
  have hall := leadingChars_toUTF8 content
  -- A text has no damage, so what is left before a call tells what is left after it.
  have hfresh := hs.shows
  rw [hall] at hfresh
  obtain ⟨text, h⟩ := hfresh.afterUses uses
  refine ⟨?_, h.readsPending⟩
  obtain ⟨read, left, hsplit, hoffset, hleft, -⟩ := h.source
  rw [hall] at hsplit
  refine ⟨read, ?_, hoffset⟩
  rw [sourceText_of_bytes h.bytes, hleft]
  exact (Prod.mk.inj hsplit).1.symm

/-- A carriage return that was pushed back is folded with the line feed of the source. -/
theorem newlines_folded_pushed :
    ∃ s, s = afterUses .empty (reader "in" "a\nb".toUTF8) [.readChar, .unread '\r'] ∧
      pendingText .empty s = ['\r', '\n', 'b'] ∧
      (∃ t, readChar .empty s = .ok (some '\n') t ∧ pendingText .empty t = ['b']) ∧
      ∃ t, readToEnd .empty s = .ok "\nb" t := by
  have hpending : pendingText .empty (afterUses .empty (reader "in" "a\nb".toUTF8)
      [.readChar, .unread '\r']) = ['\r', '\n', 'b'] := by
    decide +kernel
  obtain ⟨-, h⟩ := newlines_folded (fresh_reader .empty "in" "a\nb".toUTF8)
    [.readChar, .unread '\r']
  have hall := h.readToEnd_eq
  rw [hpending] at hall
  exact ⟨_, rfl, hpending, h.readChar_pair ['b'] hpending, hall⟩

/-! ## Damage -/

/-- The lengths of the parts at the start of some bytes that are whole characters. -/
def wholeChars (b : ByteArray) : Set Nat :=
  {n | n ≤ b.size ∧ (b.extract 0 n).IsValidUTF8}

/-- The longest part of whole characters ends where stepping does. -/
theorem isGreatest_wholeChars (b : ByteArray) :
    IsGreatest (wholeChars b) ((leadingChars b 0).2.getD b.size) := by
  rw [← validUpTo_eq (Nat.zero_le _)]
  obtain ⟨-, hle, hbytes⟩ := extract_validUpTo (b := b) (Nat.zero_le _)
  refine ⟨⟨hle, _, hbytes⟩, ?_⟩
  rintro n ⟨hn, cs, hcs⟩
  -- Stepping passes over the characters of the part, so it does not stop inside.
  have hsplit : b = ByteArray.empty ++ (cs.utf8Encode ++ b.extract n b.size) := by
    rw [← hcs, ByteArray.empty_append,
      ← ByteArray.extract_eq_extract_append_extract _ (Nat.zero_le n) hn,
      ByteArray.extract_zero_size]
  have hsize : cs.utf8Encode.size = n := by
    rw [← hcs, ByteArray.size_extract]
    omega
  have hbehind := leadingChars_behind ByteArray.empty (b.extract n b.size) cs
  rw [← hsplit, hsize, ByteArray.size_empty, Nat.zero_add] at hbehind
  calc n ≤ Utf8.validUpTo b n := (extract_validUpTo hn).1
    _ = (leadingChars b n).2.getD b.size := validUpTo_eq hn
    _ = (leadingChars b 0).2.getD b.size := by rw [hbehind]
    _ = Utf8.validUpTo b 0 := (validUpTo_eq (Nat.zero_le _)).symm

/-- Let `n` be the length of the longest part at the start of some bytes that is whole characters,
and `text` these characters. A fresh stream over the bytes delivers characters until it comes to
their end or, if there is more than the part, to the error that has its length. They are `text` with
its newlines folded, with one exception: where there is more and `text` ends with a carriage return,
this one is missing. -/
theorem damage_behind_text (hs : s.Fresh files b) :
    ∃ n text cs, IsGreatest (wholeChars b) n ∧ b.extract 0 n = text.utf8Encode ∧
      Delivers (readChar files) s cs (if n < b.size then some (.badUnit n) else none) ∧
      (cs = foldNewlines text ↔ ¬ (n < b.size ∧ text.getLast? = some '\r')) ∧
      (n < b.size → text.getLast? = some '\r' → cs ++ ['\r'] = foldNewlines text) := by
  obtain ⟨cs, hcs, hfold⟩ := hs.shows.delivers
  obtain ⟨-, -, hbytes⟩ := extract_validUpTo (b := b) (Nat.zero_le _)
  rw [validUpTo_eq (Nat.zero_le _)] at hbytes
  refine ⟨(leadingChars b 0).2.getD b.size, (leadingChars b 0).1, cs, isGreatest_wholeChars b,
    hbytes, ?_⟩
  unfold lost at hfold
  -- There is more than the part exactly if stepping stops short.
  cases hstop : (leadingChars b 0).2 with
  | none =>
    rw [hstop] at hcs hfold
    rw [Option.getD_none, if_neg (Nat.lt_irrefl _)]
    have heq : cs = foldNewlines (leadingChars b 0).1 := by simpa using hfold
    exact ⟨hcs, iff_of_true heq (by simp), fun hlt => absurd hlt (Nat.lt_irrefl _)⟩
  | some stop =>
    have hlt : stop < b.size := lt_size_of_leadingChars (Prod.ext rfl hstop)
    rw [hstop] at hcs hfold
    rw [Option.getD_some, if_pos hlt]
    by_cases hlast : (leadingChars b 0).1.getLast? = some '\r'
    · rw [if_pos ⟨hlast, rfl⟩] at hfold
      -- What is missing makes the characters too few.
      have hne : cs ≠ foldNewlines (leadingChars b 0).1 := by
        rw [← hfold]
        simp
      exact ⟨hcs, iff_of_false hne (not_not_intro ⟨hlt, hlast⟩), fun _ _ => hfold⟩
    · rw [if_neg (fun h => hlast h.1), List.append_nil] at hfold
      exact ⟨hcs, iff_of_true hfold (fun h => hlast h.2), fun _ h => absurd h hlast⟩

/-- A carriage return before a byte that begins no character is not delivered. -/
theorem damage_behind_text_return :
    ∃ b : ByteArray, b = [0x61, 0x0D, 0xFF].toByteArray ∧ (reader "in" b).Fresh .empty b ∧
      IsGreatest (wholeChars b) 2 ∧ b.extract 0 2 = ['a', '\r'].utf8Encode ∧
      Delivers (readChar .empty) (reader "in" b) ['a'] (some (.badUnit 2)) := by
  have hsteps : leadingChars [0x61, 0x0D, 0xFF].toByteArray 0 = (['a', '\r'], some 2) := by
    decide +kernel
  have hgreatest := isGreatest_wholeChars [0x61, 0x0D, 0xFF].toByteArray
  rw [hsteps] at hgreatest
  have hbytes : [0x61, 0x0D, 0xFF].toByteArray.extract 0 2 = ['a', '\r'].utf8Encode := by
    decide +kernel
  have hfresh := fresh_reader .empty "in" [0x61, 0x0D, 0xFF].toByteArray
  obtain ⟨n, text, cs, hn, htext, hread, -, hlost⟩ := damage_behind_text hfresh
  obtain rfl : n = 2 := hn.unique hgreatest
  -- The two characters of the part are determined by its bytes.
  have hchars : text = ['a', '\r'] := by
    rw [← String.ofList_inj, ← String.toByteArray_inj, String.toByteArray_ofList,
      String.toByteArray_ofList, ← htext, hbytes]
  subst hchars
  have hcs : cs ++ ['\r'] = ['a'] ++ ['\r'] := hlost (by decide) rfl
  obtain rfl : cs = ['a'] := List.append_cancel_right hcs
  exact ⟨_, rfl, hfresh, hgreatest, hbytes, hread⟩

end TextMacro.Stream
