import TextMacro.Proofs.Newlines

/-!
# Pieces of a stream

Reading up to a terminator takes a piece off the text that a stream has left to read, with the
newlines of that text folded (`Reads`). The piece is what stands in front of the first terminator,
which is dropped, and behind the last terminator it is what is left, unless nothing is (`Cut`). So
reading gives the piece and leaves the rest (`Reads.readUntil_of_cut`), whether characters of the
text stand on the stack of characters pushed back or in the source.
-/

namespace TextMacro.Stream

/-! ## Cutting a text -/

/-- A text is cut at the first `stop` in it, which is dropped. Without any it is the last piece,
unless it is empty. -/
inductive Cut (stop : Char) : (text piece rest : List Char) → Prop
  | stopped {piece : List Char} (rest : List Char) (hpiece : stop ∉ piece) :
    Cut stop (piece ++ stop :: rest) piece rest
  | last {piece : List Char} (hpiece : stop ∉ piece) (hne : piece ≠ []) : Cut stop piece piece []

namespace Cut

variable {stop c : Char} {text piece rest : List Char}

/-- A character in front of a piece that is not the terminator belongs to the piece. -/
theorem cons (h : Cut stop text piece rest) (hc : c ≠ stop) :
    Cut stop (c :: text) (c :: piece) rest := by
  cases h with
  | stopped _ hpiece =>
    rw [← List.cons_append]
    exact .stopped rest (List.not_mem_cons_of_ne_of_not_mem hc.symm hpiece)
  | last hpiece _ =>
    exact .last (List.not_mem_cons_of_ne_of_not_mem hc.symm hpiece) (List.cons_ne_nil _ _)

/-- Something is used up by a piece, be it the terminator only. -/
theorem length_lt (h : Cut stop text piece rest) : rest.length < text.length := by
  cases h with
  | stopped _ _ =>
    rw [List.length_append, List.length_cons]
    omega
  | last _ hne => exact List.length_pos_iff.mpr hne

end Cut

/-- Every text that is not used up can be cut. -/
theorem exists_cut (stop : Char) {text : List Char} (hne : text ≠ []) :
    ∃ piece rest, Cut stop text piece rest := by
  induction text with
  | nil => exact absurd rfl hne
  | cons c text ih =>
    by_cases hc : c = stop
    · exact ⟨[], text, hc ▸ .stopped text List.not_mem_nil⟩
    · cases text with
      | nil => exact ⟨[c], [], .last (by simpa using Ne.symm hc) (List.cons_ne_nil _ _)⟩
      | cons d text =>
        obtain ⟨piece, rest, hcut⟩ := ih (List.cons_ne_nil _ _)
        exact ⟨c :: piece, rest, hcut.cons hc⟩

/-! ## What reading leaves alone -/

variable {files files' : Files} {s t : Stream} {stop : Char} {text piece rest : List Char}

/-- Reading a character leaves a stream of its kind. -/
theorem handle_of_next {next? : Option Char} (h : next files s = .ok next? t) :
    t.handle = s.handle := by
  cases next? with
  | none => rw [eq_of_next_none h]
  | some c =>
    unfold next at h
    split at h
    · rename_i d pushback _
      obtain ⟨-, rfl⟩ : d = c ∧ { s with pushback } = t := by simpa using h
      rfl
    · obtain ⟨b, offset, -, -, -, rfl⟩ := eq_of_readRaw h
      rfl

/-- Putting a character back leaves a stream of its kind. -/
theorem handle_of_unread {c : Char} {u : PUnit} (h : unread c s = .ok u t) :
    t.handle = s.handle := by
  unfold unread at h
  split at h
  · simp at h
  · obtain rfl : { s with pushback := c :: s.pushback } = t := by simpa using h
    rfl

/-- Reading a character leaves the stream on its source. -/
theorem handle_of_readChar {next? : Option Char} (h : readChar files s = .ok next? t) :
    t.handle = s.handle := by
  unfold readChar at h
  split at h
  · rename_i s₁ hfirst
    have hkept := handle_of_next hfirst
    split at h
    · rename_i s₂ hsecond
      obtain ⟨-, rfl⟩ : some '\n' = next? ∧ s₂ = t := by simpa using h
      exact (handle_of_next hsecond).trans hkept
    · rename_i other s₂ _ hsecond
      split at h
      · rename_i u s₃ hback
        obtain ⟨-, rfl⟩ : some '\r' = next? ∧ s₃ = t := by simpa using h
        exact (handle_of_unread hback).trans ((handle_of_next hsecond).trans hkept)
      · simp at h
    · rename_i s₂ hsecond
      obtain ⟨-, rfl⟩ : some '\r' = next? ∧ s₂ = t := by simpa using h
      exact (handle_of_next hsecond).trans hkept
    · simp at h
  · exact handle_of_next h

/-! ## The text left to read -/

/-- A stream has a text left to read, which is what it has left with its newlines folded. -/
def Reads (files : Files) (s : Stream) (text : List Char) : Prop :=
  ∃ b pending, Shows files b none s pending ∧ foldNewlines pending = text

/-- A fresh stream over a text has that text left, with its newlines folded. -/
theorem reads_of_fresh {content : String} (h : s.Fresh files content.toUTF8) :
    Reads files s (foldNewlines content.toList) := by
  have hshows := h.shows
  rw [leadingChars_toUTF8] at hshows
  exact ⟨_, _, hshows, rfl⟩

namespace Reads

/-- What is left to read depends on the bytes of the source only. -/
theorem congr (h : Reads files s text) (hbytes : s.bytes files' = s.bytes files) :
    Reads files' s text := by
  obtain ⟨b, pending, hshows, hfold⟩ := h
  exact ⟨b, pending, ⟨hbytes.trans hshows.bytes, hshows.source, hshows.few⟩, hfold⟩

/-- The first character of the text is read and the others are left. -/
theorem readChar_cons {c : Char} (h : Reads files s (c :: text)) :
    ∃ t, readChar files s = .ok (some c) t ∧ Reads files t text := by
  obtain ⟨b, pending, hshows, hfold⟩ := h
  fun_cases foldNewlines pending with
  | case1 => simp [foldNewlines] at hfold
  | case2 rest =>
    obtain ⟨rfl, hrest⟩ : '\n' = c ∧ foldNewlines rest = text := by
      simpa [foldNewlines] using hfold
    obtain ⟨t, hread, ht⟩ := hshows.readChar_of_pair
    exact ⟨t, hread, b, rest, ht, hrest⟩
  | case3 d rest hpair =>
    rw [foldNewlines.eq_3 d rest hpair] at hfold
    obtain ⟨rfl, hrest⟩ : d = c ∧ foldNewlines rest = text := by simpa using hfold
    have hsingle : ¬ (d = '\r' ∧ rest.head? = some '\n') := by
      rintro ⟨rfl, hhead⟩
      obtain ⟨tail, rfl⟩ := List.head?_eq_some_iff.mp hhead
      exact hpair tail rfl rfl
    obtain ⟨t, hread, ht⟩ := hshows.readChar_of_single hsingle (by simp)
    exact ⟨t, hread, b, rest, ht, hrest⟩

/-- Where no text is left the end is read. -/
theorem readChar_nil (h : Reads files s []) : readChar files s = .ok none s := by
  obtain ⟨b, pending, hshows, hfold⟩ := h
  fun_cases foldNewlines pending with
  | case1 => exact hshows.readChar_of_nil
  | case2 rest => simp [foldNewlines] at hfold
  | case3 d rest hpair =>
    rw [foldNewlines.eq_3 d rest hpair] at hfold
    simp at hfold

/-- The text is no longer than the bound on what is left to read. -/
theorem length_le_pending (h : Reads files s text) : text.length ≤ s.pending files := by
  induction text generalizing s with
  | nil => exact Nat.zero_le _
  | cons c text ih =>
    obtain ⟨t, hread, ht⟩ := h.readChar_cons
    exact Nat.lt_of_le_of_lt (ih ht) (pending_lt_of_readChar hread)

end Reads

/-! ## Reading up to a terminator -/

/-- One round of reading up to a terminator. -/
theorem readUntilFrom_round (files : Files) (stop : Char) (out : Option String) (s : Stream) :
    readUntilFrom files stop out s = match readChar files s with
      | .error e t => .error e t
      | .ok none t => .ok out t
      | .ok (some c) t =>
        if c = stop then .ok (some (out.getD "")) t
        else readUntilFrom files stop (some ((out.getD "").push c)) t := by
  rw [readUntilFrom]
  split
  · rename_i e t h
    rw [h]
  · rename_i t h
    rw [h]
  · rename_i c t h
    rw [h]

/-- What has been read with a piece behind it. -/
def collected (out : Option String) (piece : List Char) : Option String :=
  if piece = [] then out else some (out.getD "" ++ String.ofList piece)

/-- A piece is added to what was collected before. -/
theorem getD_collected (out : Option String) (piece : List Char) :
    (collected out piece).getD "" = out.getD "" ++ String.ofList piece := by
  unfold collected
  split
  · rename_i hnil
    rw [hnil, String.ofList_nil, String.append_empty]
  · rfl

/-- A character is collected before those behind it. -/
theorem collected_push (out : Option String) (c : Char) (piece : List Char) :
    collected (some ((out.getD "").push c)) piece = collected out (c :: piece) := by
  have hpush : (out.getD "").push c ++ String.ofList piece
      = out.getD "" ++ String.ofList (c :: piece) := by
    rw [String.push_eq_append, String.append_assoc, String.singleton_eq_ofList,
      ← String.ofList_append, List.singleton_append]
  unfold collected
  rw [if_neg (List.cons_ne_nil c piece), ← hpush]
  split
  · rename_i hnil
    rw [hnil, String.ofList_nil, String.append_empty]
  · rfl

namespace Reads

/-- Characters that are no terminator are collected one after another. -/
theorem readUntilFrom_append (h : Reads files s (piece ++ text)) (hpiece : stop ∉ piece)
    (out : Option String) :
    ∃ t, readUntilFrom files stop out s = readUntilFrom files stop (collected out piece) t ∧
      Reads files t text ∧ t.handle = s.handle := by
  induction piece generalizing s out with
  | nil => exact ⟨s, rfl, h, rfl⟩
  | cons c piece ih =>
    obtain ⟨hc, hpiece⟩ : stop ≠ c ∧ stop ∉ piece := by simpa using hpiece
    obtain ⟨t, hread, ht⟩ := h.readChar_cons
    obtain ⟨u, hcollect, hu, hkept⟩ := ih ht hpiece (some ((out.getD "").push c))
    refine ⟨u, ?_, hu, hkept.trans (handle_of_readChar hread)⟩
    rw [readUntilFrom_round, hread]
    dsimp only
    rw [if_neg (Ne.symm hc), hcollect, collected_push]

/-- Where no text is left nothing is read. -/
theorem readUntilFrom_nil (h : Reads files s []) (stop : Char) (out : Option String) :
    readUntilFrom files stop out s = .ok out s := by
  rw [readUntilFrom_round, h.readChar_nil]

/-- Reading up to a terminator takes the piece that the text is cut into, and leaves the rest. -/
theorem readUntil_of_cut (h : Reads files s text) (hcut : Cut stop text piece rest) :
    ∃ t, readUntil files stop s = .ok (some (String.ofList piece)) t ∧ Reads files t rest ∧
      t.handle = s.handle := by
  unfold readUntil
  cases hcut with
  | stopped _ hpiece =>
    obtain ⟨t, hcollect, ht, hkept⟩ := h.readUntilFrom_append hpiece none
    obtain ⟨u, hread, hu⟩ := ht.readChar_cons
    refine ⟨u, ?_, hu, (handle_of_readChar hread).trans hkept⟩
    rw [hcollect, readUntilFrom_round, hread]
    dsimp only
    rw [if_pos rfl, getD_collected, Option.getD_none, String.empty_append]
  | last hpiece hne =>
    rw [← List.append_nil text] at h
    obtain ⟨t, hcollect, ht, hkept⟩ := h.readUntilFrom_append hpiece none
    refine ⟨t, ?_, ht, hkept⟩
    rw [hcollect, ht.readUntilFrom_nil, collected, if_neg hne, Option.getD_none,
      String.empty_append]

/-- Where no text is left, reading up to a terminator gives nothing and changes nothing. -/
theorem readUntil_of_nil (h : Reads files s []) (stop : Char) :
    readUntil files stop s = .ok none s :=
  h.readUntilFrom_nil stop none

end Reads

end TextMacro.Stream
