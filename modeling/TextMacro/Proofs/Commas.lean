import TextMacro.Proofs.Runs

/-!
# Commas outside parentheses

Whether a comma of a text separates is decided by the text in front of it: by whether the comma is
escaped, and by how many parentheses are open there (`isEscaped`, `depthAt`). Both are said of
positions, without going through the text as splitting does. Splitting at commas changes the
separating commas to semicolons and nothing else (`commas_eq_mapIdx`). The proof goes position by
position: what splitting carries along is what is said of the position reached (`commas_step`).

Unless the semicolon is the escape, a semicolon in place of a separating comma leaves all positions
escaped that were, and as many parentheses open, so that no separating comma is left and splitting
again changes nothing (`separates_commas`).
-/

namespace TextMacro

namespace Split

/-! ## Positions -/

/-- Whether the character at a position is escaped: right before it stands an escape that is not
escaped itself. -/
def isEscaped (escape : Char) (text : List Char) : Nat → Bool
  | 0 => false
  | i + 1 => text[i]? == some escape && !isEscaped escape text i

/-- Whether a character stands at a position and has its meaning there: it is no escape, and it is not
escaped. -/
def standsAt (escape : Char) (text : List Char) (c : Char) (i : Nat) : Bool :=
  text[i]? == some c && c != escape && !isEscaped escape text i

/-- How many parentheses are open at a position. Closing one too many is ignored. -/
def depthAt (escape : Char) (text : List Char) : Nat → Nat
  | 0 => 0
  | i + 1 =>
    if standsAt escape text '(' i then depthAt escape text i + 1
    else if standsAt escape text ')' i then depthAt escape text i - 1
    else depthAt escape text i

/-- Whether a comma stands at a position, neither escaped nor an escape, where no parenthesis is
open. -/
def separates (escape : Char) (text : List Char) (i : Nat) : Bool :=
  standsAt escape text ',' i && depthAt escape text i == 0

section Positions

variable {escape c d : Char} {text rest : List Char} {i : Nat}

/-- Behind an escape that is not escaped a character is escaped. -/
theorem isEscaped_succ (h : text[i]? = some c) :
    isEscaped escape text (i + 1) = (c == escape && !isEscaped escape text i) := by
  rw [isEscaped, h]
  rfl

/-- An escaped character has no meaning. -/
theorem standsAt_escaped (hesc : isEscaped escape text i = true) :
    standsAt escape text d i = false := by
  simp [standsAt, hesc]

/-- An escape has no other meaning. -/
theorem standsAt_escape (h : text[i]? = some escape) : standsAt escape text d i = false := by
  rw [standsAt, h]
  by_cases hd : escape = d
  · simp [hd]
  · simp [hd]

/-- Any other character has its meaning. -/
theorem standsAt_plain (h : text[i]? = some c) (hescape : c ≠ escape)
    (hesc : isEscaped escape text i = false) : standsAt escape text d i = (c == d) := by
  rw [standsAt, h, hesc]
  by_cases hd : c = d
  · simp [← hd, hescape]
  · simp [hd]

/-- A separating comma is a comma, and not the escape. -/
theorem comma_of_separates (h : separates escape text i = true) :
    text[i]? = some ',' ∧ ',' ≠ escape := by
  unfold separates standsAt at h
  simp only [Bool.and_eq_true, beq_iff_eq, bne_iff_ne] at h
  exact h.1.1

/-! ## Splitting, position by position -/

/-- One character is written for the one at a position, and what is carried along is then what holds
at the next position. -/
theorem commas_step (h : text[i]? = some c) :
    commas escape (isEscaped escape text i) (depthAt escape text i) (c :: rest)
      = (if separates escape text i then ';' else c)
        :: commas escape (isEscaped escape text (i + 1)) (depthAt escape text (i + 1)) rest := by
  rw [isEscaped_succ h, depthAt, separates]
  cases hesc : isEscaped escape text i with
  | true =>
    rw [standsAt_escaped hesc, standsAt_escaped hesc, standsAt_escaped hesc]
    simp [commas]
  | false =>
    by_cases hescape : c = escape
    · subst hescape
      rw [standsAt_escape h, standsAt_escape h, standsAt_escape h]
      simp [commas]
    · have hnot : (c == escape) = false := beq_false_of_ne hescape
      rw [standsAt_plain h hescape hesc, standsAt_plain h hescape hesc,
        standsAt_plain h hescape hesc, hnot, commas, if_neg hescape]
      by_cases hcomma : c = ','
      · -- What becomes of a comma is decided by the depth, which it leaves as it is.
        subst hcomma
        by_cases hdepth : depthAt escape text i = 0
        · simp [hdepth]
        · simp [hdepth]
      · by_cases hopening : c = '('
        · simp [hopening]
        · by_cases hclosing : c = ')'
          · simp [hclosing]
          · simp [hcomma, hopening, hclosing]

/-- From a position on, the separating commas are changed to semicolons. -/
theorem commas_append {before : List Char} (h : text = before ++ rest) :
    commas escape (isEscaped escape text before.length) (depthAt escape text before.length) rest
      = rest.mapIdx fun i c => if separates escape text (before.length + i) then ';' else c := by
  induction rest generalizing before with
  | nil => simp [commas]
  | cons c rest ih =>
    have hhead : text[before.length]? = some c := by
      rw [h, List.getElem?_append_right (Nat.le_refl _), Nat.sub_self]
      rfl
    have htail : text = (before ++ [c]) ++ rest := by
      rw [h, List.append_assoc]
      rfl
    have hrest := ih htail
    rw [List.length_append, List.length_singleton] at hrest
    rw [commas_step hhead, hrest, List.mapIdx_cons]
    simp only [Nat.add_zero, Nat.add_assoc, Nat.add_comm 1]

/-- The separating commas of a text are changed to semicolons, and nothing else is. -/
theorem commas_eq_mapIdx (escape : Char) (text : List Char) :
    commas escape false 0 text
      = text.mapIdx fun i c => if separates escape text i then ';' else c := by
  have hwhole : text = [] ++ text := rfl
  have h : commas escape (isEscaped escape text 0) (depthAt escape text 0) text = _ :=
    commas_append hwhole
  simpa [isEscaped, depthAt] using h

/-- The character at a position of what is written. -/
theorem getElem?_commas (escape : Char) (text : List Char) (i : Nat) :
    (commas escape false 0 text)[i]?
      = if separates escape text i then some ';' else text[i]? := by
  rw [commas_eq_mapIdx, List.getElem?_mapIdx]
  cases hsep : separates escape text i with
  | false => simp
  | true =>
    obtain ⟨hcomma, -⟩ := comma_of_separates hsep
    simp [hcomma]

/-! ## Splitting again -/

/-- A character other than the comma and the semicolon stands where it stood. -/
theorem getElem?_commas_eq_iff (hcomma : c ≠ ',') (hsemi : c ≠ ';') :
    (commas escape false 0 text)[i]? = some c ↔ text[i]? = some c := by
  rw [getElem?_commas]
  split
  · rename_i hsep
    obtain ⟨htext, -⟩ := comma_of_separates hsep
    rw [htext, Option.some.injEq, Option.some.injEq]
    exact iff_of_false hsemi.symm hcomma.symm
  · rfl

/-- The escape stands where it stood. -/
theorem getElem?_commas_eq_escape_iff (hescape : escape ≠ ';') :
    (commas escape false 0 text)[i]? = some escape ↔ text[i]? = some escape := by
  by_cases hcomma : escape = ','
  · -- Then no comma separates.
    have hsep : ¬ separates escape text i = true := fun h => (comma_of_separates h).2 hcomma.symm
    rw [getElem?_commas, if_neg hsep]
  · exact getElem?_commas_eq_iff hcomma hescape

/-- The escaped positions are those of the text. -/
theorem isEscaped_commas (hescape : escape ≠ ';') (i : Nat) :
    isEscaped escape (commas escape false 0 text) i = isEscaped escape text i := by
  induction i with
  | zero => rfl
  | succ i ih =>
    have hsame : (commas escape false 0 text)[i]? = some escape ↔ text[i]? = some escape :=
      getElem?_commas_eq_escape_iff hescape
    rw [isEscaped, isEscaped, ih, Bool.eq_iff_iff]
    simp only [Bool.and_eq_true, beq_iff_eq, hsame]

/-- A character other than the comma and the semicolon has its meaning where it had it. -/
theorem standsAt_commas (hescape : escape ≠ ';') (hcomma : c ≠ ',') (hsemi : c ≠ ';') (i : Nat) :
    standsAt escape (commas escape false 0 text) c i = standsAt escape text c i := by
  have hsame : (commas escape false 0 text)[i]? = some c ↔ text[i]? = some c :=
    getElem?_commas_eq_iff hcomma hsemi
  rw [standsAt, standsAt, isEscaped_commas hescape, Bool.eq_iff_iff]
  simp only [Bool.and_eq_true, beq_iff_eq, hsame]

/-- As many parentheses are open as in the text. -/
theorem depthAt_commas (hescape : escape ≠ ';') (i : Nat) :
    depthAt escape (commas escape false 0 text) i = depthAt escape text i := by
  induction i with
  | zero => rfl
  | succ i ih =>
    rw [depthAt, depthAt, standsAt_commas hescape (by decide) (by decide),
      standsAt_commas hescape (by decide) (by decide), ih]

/-- No separating comma is left. -/
theorem separates_commas (hescape : escape ≠ ';') (i : Nat) :
    separates escape (commas escape false 0 text) i = false := by
  rw [← Bool.not_eq_true]
  intro hsep
  obtain ⟨hout, -⟩ := comma_of_separates hsep
  rw [getElem?_commas] at hout
  split at hout
  · simp at hout
  · -- The comma stood there before, and would have been a separating one.
    rename_i hkept
    apply hkept
    unfold separates standsAt at hsep ⊢
    rw [depthAt_commas hescape, isEscaped_commas hescape, getElem?_commas, if_neg hkept] at hsep
    exact hsep

/-- Splitting what was split changes nothing. -/
theorem commas_commas (hescape : escape ≠ ';') :
    commas escape false 0 (commas escape false 0 text) = commas escape false 0 text := by
  apply List.ext_getElem?
  intro i
  rw [getElem?_commas, separates_commas hescape, if_neg Bool.false_ne_true]

end Positions

/-- In every call and every session: splitting a text at its commas yields as many characters as the
text has. Where a comma stands that is neither escaped nor an escape, and no parenthesis is open, it
yields a semicolon, and everywhere else what stands there. Unless the escape is the semicolon,
splitting what it yields yields the same again. -/
theorem commas_positionwise (f : Frame) (s : Session) :
    ∃ out, Builtin.splitCommas.perform f s = .ok out s ∧
      out.length = (f.arg 1).length ∧
      (∀ i, separates s.chars.escape (f.arg 1).toList i = true →
        (f.arg 1).toList[i]? = some ',' ∧ out.toList[i]? = some ';') ∧
      (∀ i, separates s.chars.escape (f.arg 1).toList i = false →
        out.toList[i]? = (f.arg 1).toList[i]?) ∧
      (s.chars.escape ≠ ';' → ∀ again : Frame, again.arg 1 = out →
        Builtin.splitCommas.perform again s = .ok out s) := by
  have hperform : ∀ g : Frame,
      Builtin.splitCommas.perform g s = .ok (commasOf s.chars.escape (g.arg 1)) s := fun _ => rfl
  have htoList : (commasOf s.chars.escape (f.arg 1)).toList
      = commas s.chars.escape false 0 (f.arg 1).toList := String.toList_ofList
  refine ⟨commasOf s.chars.escape (f.arg 1), hperform f, ?_, fun i hsep => ⟨?_, ?_⟩,
    fun i hsep => ?_, fun hescape again hagain => ?_⟩
  · rw [← String.length_toList, htoList, commas_eq_mapIdx, List.length_mapIdx,
      String.length_toList]
  · exact (comma_of_separates hsep).1
  · rw [htoList, getElem?_commas, if_pos hsep]
  · rw [htoList, getElem?_commas, hsep, if_neg Bool.false_ne_true]
  · rw [hperform again, hagain]
    unfold commasOf at htoList ⊢
    rw [htoList, commas_commas hescape]

/-- A parenthesis too many is closed, and a comma, a parenthesis and an escape are escaped. -/
theorem commas_positionwise_escapes :
    Builtin.splitCommas.perform ⟨["zlc", "),\\,\\(,(\\),),\\\\,"], true⟩ Interpreter.fresh.session
        = .ok ");\\,\\(;(\\),);\\\\;" Interpreter.fresh.session ∧
      Builtin.splitCommas.perform ⟨["zlc", ");\\,\\(;(\\),);\\\\;"], true⟩ Interpreter.fresh.session
        = .ok ");\\,\\(;(\\),);\\\\;" Interpreter.fresh.session := by
  obtain ⟨out, hout, -, -, -, hagain⟩ := commas_positionwise
    ⟨["zlc", "),\\,\\(,(\\),),\\\\,"], true⟩ Interpreter.fresh.session
  have hperform : Builtin.splitCommas.perform ⟨["zlc", "),\\,\\(,(\\),),\\\\,"], true⟩
      Interpreter.fresh.session
        = .ok (commasOf '\\' "),\\,\\(,(\\),),\\\\,") Interpreter.fresh.session := rfl
  have hvalue : commasOf '\\' "),\\,\\(,(\\),),\\\\," = ");\\,\\(;(\\),);\\\\;" := by
    decide +kernel
  have heq : out = ");\\,\\(;(\\),);\\\\;" := by
    rw [hout, hvalue] at hperform
    injection hperform
  subst heq
  exact ⟨hout, hagain (by decide) _ rfl⟩

/-- A semicolon that is the escape escapes what follows it, once it stands there. -/
example : commasOf ';' ",(," = ";(," ∧ commasOf ';' ";(," = ";(;" := by decide +kernel

end Split

end TextMacro
