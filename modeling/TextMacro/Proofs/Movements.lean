import TextMacro.Proofs.Rewriter
import TextMacro.Proofs.Runs
import TextMacro.Proofs.Zones

/-!
# Movements on whole characters

What the scanner does with an escape, a bracketed text or the start of a call, when the width it
steps over is that of whole characters: it moves whole characters, and the same ones that the
description of these texts by `MetaChars.bracketed?` and `MetaChars.callStart?` names.
-/

namespace TextMacro.Zones

/-- One round of copying a bracketed text. -/
theorem copyBracketedFrom_round (m : MetaChars) (z : Zones) (depth : Nat) :
    copyBracketedFrom m z depth = match z.buffer.peek with
      | .error e => .failed e z
      | .ok none => .failed .unbalancedBracket z
      | .ok (some u) =>
        if depthAfter m depth u = 0 then .moved (z.skip u.width)
        else
          match z.takenAlong m u with
          | .error e => .failed e z
          | .ok along =>
            match z.transfer? (u.width + along) with
            | none => .fault
            | some z => copyBracketedFrom m z (depthAfter m depth u) := by
  conv => lhs; rw [copyBracketedFrom]
  cases z.buffer.peek with
  | error e => rfl
  | ok next =>
    cases next with
    | none => rfl
    | some u =>
      dsimp only
      split
      · rfl
      · cases z.takenAlong m u with
        | error e => rfl
        | ok along =>
          dsimp only
          cases z.transfer? (u.width + along) with
          | none => rfl
          | some z => rfl

/-- Only an escape takes something along. -/
theorem takenAlong_of_ne {z : Zones} {m : MetaChars} {c : Char} (hc : c ≠ m.escape) :
    z.takenAlong m (.char c) = .ok ([] : List Char).utf8Encode.size := by
  unfold takenAlong
  rw [if_neg (by simpa using hc)]
  simp

end TextMacro.Zones

namespace TextMacro.Zones.Holds

variable {z : Zones} {done active cs : List Char} {m : MetaChars}

/-- A transfer of whole characters as a movement. -/
theorem transfer_moved {n : Nat} (h : z.Holds done (cs ++ active)) (hn : n = cs.utf8Encode.size) :
    ∃ z', z.transfer n = .moved z' ∧ z'.Holds (done ++ cs) active := by
  obtain ⟨z', hz', hholds⟩ := h.transfer hn
  unfold Zones.transfer
  rw [hz']
  exact ⟨z', rfl, hholds⟩

/-! ## Escapes -/

/-- With a character behind what the escape takes up, that character is moved. -/
theorem copyEscaped_next {d : Char} (h : z.Holds done (cs ++ d :: active))
    (hw : m.escape.utf8Size = cs.utf8Encode.size) :
    ∃ z', z.copyEscaped m = .moved z' ∧ z'.Holds (done ++ [d]) active := by
  unfold Zones.copyEscaped
  dsimp only
  rw [h.unitAt hw, List.head?_cons, Option.map_some]
  have hnext : (z.skip m.escape.utf8Size).Holds done ([d] ++ active) := h.skip hw
  exact hnext.transfer_moved (by simp [TextUnit.width])

/-- At the end, what the escape takes up is moved itself. -/
theorem copyEscaped_end (h : z.Holds done cs) (hw : m.escape.utf8Size = cs.utf8Encode.size) :
    ∃ z', z.copyEscaped m = .moved z' ∧ z'.Holds (done ++ cs) [] := by
  rw [← List.append_nil cs] at h
  unfold Zones.copyEscaped
  dsimp only
  rw [h.unitAt hw, List.head?_nil, Option.map_none]
  exact h.transfer_moved hw

/-! ## The start of a call -/

/-- Whether a call starts is decided by the characters behind the sharp. -/
theorem callStart_eq (h : z.Holds done (cs ++ active))
    (hw : m.sharp.utf8Size = cs.utf8Encode.size) :
    z.callStart m = .ok ((m.callStart? active).map Prod.fst) := by
  unfold Zones.callStart
  cases active with
  | nil =>
    simp only [bind, Except.bind, h.unitAt hw]
    rfl
  | cons c rest =>
    simp only [bind, Except.bind, h.unitAt hw, List.head?_cons, Option.map_some]
    by_cases hopen : c = m.opening
    · -- An active call.
      rw [if_pos hopen]
      simp only [MetaChars.callStart?, if_pos hopen]
      rfl
    · rw [if_neg hopen]
      by_cases hsharp : c = m.sharp
      · -- A passive call, if the opening bracket stands behind the second sharp.
        have hnext : z.buffer.unitAt (z.buffer.index + m.sharp.utf8Size + c.utf8Size)
            = .ok (rest.head?.map .char) := by
          rw [Nat.add_assoc]
          rw [← List.singleton_append, ← List.append_assoc] at h
          exact h.unitAt (by simp [List.utf8Encode_append, hw])
        rw [if_pos hsharp, hnext]
        simp only [MetaChars.callStart?, if_neg hopen, if_pos hsharp]
        cases rest with
        | nil => rfl
        | cons d rest =>
          simp only [List.head?_cons, Option.map_some, Option.some.injEq, TextUnit.char.injEq]
          split
          · rfl
          · rfl
      · rw [if_neg hsharp]
        simp only [MetaChars.callStart?, if_neg hopen, if_neg hsharp]
        rfl

/-- The characters that a call starts with are stepped over. -/
theorem skip_callStart {a : Bool} {rest : List Char} (h : z.Holds done (cs ++ active))
    (hw : m.sharp.utf8Size = cs.utf8Encode.size) (hstart : m.callStart? active = some (a, rest)) :
    (z.skip (callStartWidth m a)).Holds done rest := by
  unfold MetaChars.callStart? at hstart
  split at hstart
  · simp at hstart
  · rename_i c tail
    split at hstart
    · -- An active call: the sharp and the opening bracket.
      rename_i hopen
      obtain ⟨rfl, rfl⟩ : true = a ∧ tail = rest := by simpa using hstart
      rw [← List.singleton_append, ← List.append_assoc] at h
      exact h.skip (by simp [callStartWidth, List.utf8Encode_append, hw, hopen])
    · split at hstart
      · rename_i hsharp
        split at hstart
        · simp at hstart
        · -- A passive call: two sharps and the opening bracket.
          rename_i d tail
          split at hstart
          · rename_i hopen
            obtain ⟨rfl, rfl⟩ : false = a ∧ tail = rest := by simpa using hstart
            have h' : z.Holds done ((cs ++ [c, d]) ++ tail) := by simpa using h
            refine h'.skip ?_
            simp [callStartWidth, List.utf8Encode_append, TextUnit.utf8Encode_cons_eq, hw, hopen,
              hsharp]
            omega
          · simp at hstart
      · simp at hstart

end TextMacro.Zones.Holds

/-! ## Bracketed texts

What is done with may be any bytes here: only the characters to be scanned say how far a bracketed
text goes.
-/

namespace TextMacro.Zones.Shows

variable {z : Zones} {done : ByteArray} {active : List Char} {m : MetaChars}

/-- One round of copying a bracketed text: the character under the cursor and those it takes along
are moved. -/
theorem copyBracketedFrom_step {depth after : Nat} {c : Char} (taken rest : List Char)
    (h : z.Shows done (c :: taken ++ rest).utf8Encode)
    (hafter : depthAfter m depth (.char c) = after) (hpos : 0 < after)
    (htaken : z.takenAlong m (.char c) = .ok taken.utf8Encode.size) :
    ∃ z', z'.Shows (done ++ (c :: taken).utf8Encode) rest.utf8Encode ∧
      copyBracketedFrom m z depth = copyBracketedFrom m z' after := by
  have hpeek : z.buffer.peek = .ok (some (.char c)) := h.peek
  have hwidth : (TextUnit.char c).width + taken.utf8Encode.size = (c :: taken).utf8Encode.size := by
    simp [TextUnit.width, TextUnit.utf8Encode_cons_eq]
  rw [List.utf8Encode_append] at h
  obtain ⟨z', hz', hshows⟩ := h.transfer hwidth
  refine ⟨z', hshows, ?_⟩
  rw [copyBracketedFrom_round, hpeek]
  dsimp only
  rw [hafter, if_neg (by omega), htaken]
  dsimp only
  rw [hz']

/-- At the end of the text the bracketed text is not closed. -/
theorem copyBracketedFrom_nil {depth : Nat} (h : z.Shows done [].utf8Encode) :
    copyBracketedFrom m z depth = .failed .unbalancedBracket z := by
  have hpeek : z.buffer.peek = .ok none := h.peek
  rw [copyBracketedFrom_round, hpeek]

/-- The bracket that closes the outermost is dropped. -/
theorem copyBracketedFrom_close {depth : Nat} {c : Char}
    (h : z.Shows done (c :: active).utf8Encode) (hafter : depthAfter m depth (.char c) = 0) :
    ∃ z', z'.Shows done active.utf8Encode ∧ copyBracketedFrom m z depth = .moved z' := by
  have hpeek : z.buffer.peek = .ok (some (.char c)) := h.peek
  rw [List.utf8Encode_cons] at h
  refine ⟨z.skip c.utf8Size, h.skip (by simp), ?_⟩
  rw [copyBracketedFrom_round, hpeek]
  dsimp only
  rw [if_pos hafter]
  rfl

/-- An escape takes along the character behind it, if there is one. -/
theorem takenAlong_escape {c : Char} {rest : List Char}
    (h : z.Shows done (c :: rest).utf8Encode) (hc : c = m.escape) :
    z.takenAlong m (.char c) = .ok (rest.take 1).utf8Encode.size := by
  have hfirst : z.Shows done ([c] ++ rest).utf8Encode := h
  have hunit := hfirst.unitAt (n := (TextUnit.char c).width) (by simp [TextUnit.width])
  unfold takenAlong
  rw [if_pos (by rw [hc]), hunit]
  cases rest with
  | nil => simp
  | cons d rest => simp [TextUnit.width]

/-- Copying a bracketed text ends as `found` says: with the bracket that closes it, or with the end
of the text. -/
def Copies (m : MetaChars) (z : Zones) (depth : Nat) (done : ByteArray) (active : List Char)
    (found : Option (List Char × List Char)) : Prop :=
  ∃ z', match found with
    | some (inside, rest) =>
      copyBracketedFrom m z depth = .moved z' ∧
        z'.Shows (done ++ inside.utf8Encode) rest.utf8Encode
    | none =>
      copyBracketedFrom m z depth = .failed .unbalancedBracket z' ∧
        z'.Shows (done ++ active.utf8Encode) [].utf8Encode

/-- What one round has moved comes before what the following rounds move. -/
theorem Copies.cons {z' : Zones} {depth depth' : Nat} (moved : List Char) {rest : List Char}
    {found : Option (List Char × List Char)}
    (heq : copyBracketedFrom m z depth = copyBracketedFrom m z' depth')
    (h : Copies m z' depth' (done ++ moved.utf8Encode) rest found) :
    Copies m z depth done (moved ++ rest)
      (found.map fun (inside, rest) => (moved ++ inside, rest)) := by
  obtain ⟨z'', hz''⟩ := h
  refine ⟨z'', ?_⟩
  cases found with
  | none =>
    obtain ⟨hend, hshows⟩ := hz''
    exact ⟨heq.trans hend, by rwa [ByteArray.append_assoc, ← List.utf8Encode_append] at hshows⟩
  | some p =>
    obtain ⟨hend, hshows⟩ := hz''
    exact ⟨heq.trans hend, by rwa [ByteArray.append_assoc, ← List.utf8Encode_append] at hshows⟩

/-- A bracketed text is copied up to the bracket that closes it, and to the end of the text if there
is none. -/
theorem copyBracketedFrom_eq {depth : Nat} (hdepth : 0 < depth)
    (h : z.Shows done active.utf8Encode) :
    Copies m z depth done active (m.bracketed? depth active) := by
  fun_induction m.bracketed? depth active generalizing z done with
  | case1 depth => exact ⟨z, copyBracketedFrom_nil h, by simpa using h⟩
  | case2 depth =>
    -- An escape at the end of the text.
    have hafter : depthAfter m depth (.char m.escape) = depth := by simp [depthAfter]
    obtain ⟨z', hshows, heq⟩ := copyBracketedFrom_step [] [] h
      hafter (by omega) (takenAlong_escape h rfl)
    exact ⟨z', heq.trans (copyBracketedFrom_nil hshows), hshows⟩
  | case3 depth d rest ih =>
    -- An escape with a character behind it.
    have hafter : depthAfter m depth (.char m.escape) = depth := by simp [depthAfter]
    obtain ⟨z', hshows, heq⟩ := copyBracketedFrom_step [d] rest h
      hafter (by omega) (takenAlong_escape h rfl)
    exact .cons [m.escape, d] heq (ih hdepth hshows)
  | case4 depth rest hesc ih =>
    -- A bracket that opens.
    have hafter : depthAfter m depth (.char m.opening) = depth + 1 := by simp [depthAfter, hesc]
    obtain ⟨z', hshows, heq⟩ := copyBracketedFrom_step [] rest h
      hafter (by omega) (takenAlong_of_ne hesc)
    exact .cons [m.opening] heq (ih (by omega) hshows)
  | case5 rest hesc hopen =>
    -- The bracket that closes the outermost.
    obtain ⟨z', hshows, heq⟩ := copyBracketedFrom_close (m := m) h
      (by simp [depthAfter, hesc, hopen] : depthAfter m 1 (.char m.closing) = 0)
    exact ⟨z', heq, by simpa using hshows⟩
  | case6 depth rest hne hesc hopen ih =>
    -- A bracket that closes an inner one.
    have hafter : depthAfter m depth (.char m.closing) = depth - 1 := by
      simp [depthAfter, hesc, hopen]
    obtain ⟨z', hshows, heq⟩ := copyBracketedFrom_step [] rest h
      hafter (by omega) (takenAlong_of_ne hesc)
    exact .cons [m.closing] heq (ih (by omega) hshows)
  | case7 depth c rest hesc hopen hclose ih =>
    -- Any other character.
    have hafter : depthAfter m depth (.char c) = depth := by simp [depthAfter, hesc, hopen, hclose]
    obtain ⟨z', hshows, heq⟩ := copyBracketedFrom_step [] rest h
      hafter (by omega) (takenAlong_of_ne hesc)
    exact .cons [c] heq (ih hdepth hshows)

end TextMacro.Zones.Shows

namespace TextMacro.Zones.Holds

variable {z : Zones} {done active cs : List Char} {m : MetaChars}

/-- A bracketed text is copied behind whole characters. -/
theorem copyBracketedFrom_eq {depth : Nat} (hdepth : 0 < depth) (h : z.Holds done active) :
    ∃ z', match m.bracketed? depth active with
      | some (inside, rest) =>
        copyBracketedFrom m z depth = .moved z' ∧ z'.Holds (done ++ inside) rest
      | none =>
        copyBracketedFrom m z depth = .failed .unbalancedBracket z' ∧
          z'.Holds (done ++ active) [] := by
  obtain ⟨z', hz'⟩ := Shows.copyBracketedFrom_eq (m := m) hdepth h
  refine ⟨z', ?_⟩
  unfold Holds
  cases hfound : m.bracketed? depth active with
  | none =>
    rw [hfound] at hz'
    simpa only [List.utf8Encode_append] using hz'
  | some found =>
    rw [hfound] at hz'
    simpa only [List.utf8Encode_append] using hz'

/-- The bracketed text at the cursor is copied when what the opening bracket takes up is whole
characters. -/
theorem copyBracketed_eq (h : z.Holds done (cs ++ active))
    (hw : m.opening.utf8Size = cs.utf8Encode.size) :
    ∃ z', match m.bracketed? 1 active with
      | some (inside, rest) => z.copyBracketed m = .moved z' ∧ z'.Holds (done ++ inside) rest
      | none =>
        z.copyBracketed m = .failed .unbalancedBracket z' ∧ z'.Holds (done ++ active) [] :=
  copyBracketedFrom_eq Nat.one_pos (h.skip hw)

end TextMacro.Zones.Holds

namespace TextMacro.Interpreter

/-! ## The end of a call -/

/-- Where the result of a call that is carried out goes: nowhere, in front of what is to be scanned,
or to the end of what is done with. -/
theorem finishCall_of_ok {session session' : Session} {z : Zones} {frame : Frame}
    {frames : List Frame} {lists outer : List ArgumentList} {active : Bool} {disposition : Disposition}
    {text : String} {done rest : List Char} (h : z.Holds done rest)
    (hinvoke : Action.invoke (frames.length + 1) frame session
      = .ok (disposition, text) session') :
    ∃ z', finishCall ⟨session, z, ⟨frame :: frames⟩, lists⟩ active outer
        = .next ⟨session', z', ⟨frames⟩, outer⟩ ∧
      if disposition = .sideEffect || text.isEmpty then z'.Holds done rest
      else if active then z'.Holds done (text.toList ++ rest)
      else z'.Holds (done ++ text.toList) rest := by
  rw [finishCall_eq]
  dsimp only
  rw [hinvoke]
  dsimp only
  by_cases hnone : disposition = .sideEffect || text.isEmpty
  · -- There is no result to be put anywhere.
    rw [if_pos hnone]
    refine ⟨z, rfl, ?_⟩
    rw [if_pos hnone]
    exact h
  · rw [if_neg hnone]
    cases active with
    | true =>
      obtain ⟨z', hz', hholds⟩ := h.splice_active text
      rw [hz']
      refine ⟨z', rfl, ?_⟩
      rw [if_neg hnone]
      exact hholds
    | false =>
      obtain ⟨z', hz', hholds⟩ := h.splice_passive text
      rw [hz']
      refine ⟨z', rfl, ?_⟩
      rw [if_neg hnone]
      exact hholds

/-- A call that fails keeps its place on the stack, with the session that the failure leaves. -/
theorem finishCall_of_error {session session' : Session} {z : Zones} {frame : Frame}
    {frames : List Frame} {lists outer : List ArgumentList} {active : Bool} {e : Error}
    (hinvoke : Action.invoke (frames.length + 1) frame session = .error e session') :
    finishCall ⟨session, z, ⟨frame :: frames⟩, lists⟩ active outer
      = .raised e ⟨session', z, ⟨frame :: frames⟩, lists⟩ := by
  rw [finishCall_eq]
  dsimp only
  rw [hinvoke]

/-- An argument that consists of whole characters is taken off what is done with. -/
theorem finishArgument_of_holds {session : Session} {z : Zones} {frame : Frame}
    {frames : List Frame} {lists outer : List ArgumentList} {list : ArgumentList} {width : Nat}
    {closes : Bool} {done pending : List Char} {active : List Char}
    (h : z.Holds (done ++ pending) active) (hstart : list.start = done.utf8Encode.size) :
    finishArgument ⟨session, z, ⟨frame :: frames⟩, lists⟩ list outer width closes =
      if maxEntries ≤ frame.args.length then
        .raised (.tooManyArgs maxEntries) ⟨session, z, ⟨frame :: frames⟩, lists⟩
      else
        let u := ⟨session, { z with passive := list.start }.skip width,
          ⟨frame.push (String.ofList pending) :: frames⟩, lists⟩
        if closes then finishCall u list.active outer else .next u := by
  rw [finishArgument_eq]
  dsimp only
  rw [h.doneFrom hstart]
  dsimp only
  rw [TextUnit.toText_utf8Encode]

end TextMacro.Interpreter
