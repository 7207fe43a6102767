import TextMacro.Proofs.OwnChars

/-!
# Bracketed texts

What stands between an opening bracket and the one that closes it is said by a grammar
(`MetaChars.Balanced`): characters without a meaning, escapes with the character behind them, and
bracketed texts. The scanner has no grammar. It counts the brackets that are open and moves the
characters as it goes. It accepts exactly what the grammar does and takes the same text
(`Zones.copyBracketed_accepts`).

A count of open brackets stands for as many bracketed texts of which the ends are missing, so that a
text up to the bracket that closes the outermost is a balanced text, a closing bracket, another
balanced text and so on (`MetaChars.Closes`).
-/

namespace TextMacro

namespace MetaChars

variable {m : MetaChars} {inside rest text : List Char}

/-- The texts that can stand between an opening bracket and the one that closes it. -/
inductive Balanced (m : MetaChars) : List Char → Prop
  | nil : Balanced m []
  | plain {c : Char} {rest : List Char} : c ≠ m.opening → c ≠ m.closing → c ≠ m.escape →
    Balanced m rest → Balanced m (c :: rest)
  /-- An escape hides the character behind it, whatever that is. -/
  | escaped (c : Char) {rest : List Char} : Balanced m rest → Balanced m (m.escape :: c :: rest)
  | nested {inside rest : List Char} : Balanced m inside → Balanced m rest →
    Balanced m (m.opening :: (inside ++ m.closing :: rest))

/-- A text goes on with what an opening bracket in front of it encloses, the bracket that closes it,
and the rest. -/
structure Encloses (m : MetaChars) (text inside rest : List Char) : Prop where
  balanced : m.Balanced inside
  text_eq : text = inside ++ m.closing :: rest

/-- The texts that close some brackets, which are open in front of them, by as many closing brackets
between balanced texts, and have a balanced text behind the last. -/
inductive Closes (m : MetaChars) : Nat → List Char → Prop
  | none {text : List Char} : m.Balanced text → Closes m 0 text
  | one {pending : Nat} {text rest : List Char} : m.Balanced text → Closes m pending rest →
    Closes m (pending + 1) (text ++ m.closing :: rest)

/-! ## From the grammar to the count -/

/-- A character behind an escape is taken as it is. -/
theorem bracketed?_escape (m : MetaChars) (depth : Nat) (c : Char) (rest : List Char) :
    m.bracketed? depth (m.escape :: c :: rest)
      = (m.bracketed? depth rest).map fun (inside, rest) => (m.escape :: c :: inside, rest) := by
  simp [bracketed?]

/-- An opening bracket makes what follows one deeper. -/
theorem bracketed?_opening (hm : m.Distinct) (depth : Nat) (rest : List Char) :
    m.bracketed? depth (m.opening :: rest)
      = (m.bracketed? (depth + 1) rest).map fun (inside, rest) => (m.opening :: inside, rest) := by
  simp [Distinct] at hm
  conv => lhs; unfold bracketed?
  simp [hm]

/-- A closing bracket ends the text at depth one, and makes what follows one less deep otherwise. -/
theorem bracketed?_closing (hm : m.Distinct) (depth : Nat) (rest : List Char) :
    m.bracketed? depth (m.closing :: rest)
      = if depth = 1 then some ([], rest)
        else (m.bracketed? (depth - 1) rest).map
          fun (inside, rest) => (m.closing :: inside, rest) := by
  simp [Distinct] at hm
  conv => lhs; unfold bracketed?
  simp [hm, Ne.symm hm.2.1.2.1]

/-- Any other character is taken without a change of depth. -/
theorem bracketed?_plain {c : Char} (hopening : c ≠ m.opening) (hclosing : c ≠ m.closing)
    (hescape : c ≠ m.escape) (depth : Nat) (rest : List Char) :
    m.bracketed? depth (c :: rest)
      = (m.bracketed? depth rest).map fun (inside, rest) => (c :: inside, rest) := by
  conv => lhs; unfold bracketed?
  simp [hopening, hclosing, hescape]

/-- A balanced text is passed whatever the number of open brackets, and leaves that number as it is.
-/
theorem Balanced.bracketed?_append (hm : m.Distinct) (h : m.Balanced inside) {depth : Nat}
    (hdepth : 0 < depth) (rest : List Char) :
    m.bracketed? depth (inside ++ rest)
      = (m.bracketed? depth rest).map fun (more, rest) => (inside ++ more, rest) := by
  induction h generalizing depth rest with
  | nil => simp
  | plain hopening hclosing hescape _ ih =>
    rw [List.cons_append, bracketed?_plain hopening hclosing hescape, ih hdepth, Option.map_map]
    rfl
  | escaped c _ ih =>
    rw [List.cons_append, List.cons_append, bracketed?_escape, ih hdepth, Option.map_map]
    rfl
  | @nested inside behind _ _ ihinside ihbehind =>
    -- One bracket more is open up to the one that closes it, and then as many as before.
    rw [List.cons_append, List.append_assoc, List.cons_append, bracketed?_opening hm,
      ihinside (by omega), bracketed?_closing hm, if_neg (by omega), Nat.add_sub_cancel,
      ihbehind hdepth]
    simp [Function.comp_def]

/-! ## From the count to the grammar -/

/-- What keeps every balanced text balanced may stand in front of a text that closes brackets. -/
theorem Closes.append_left {pending : Nat} (front : List Char)
    (hfront : ∀ text, m.Balanced text → m.Balanced (front ++ text)) (h : m.Closes pending text) :
    m.Closes pending (front ++ text) := by
  cases h with
  | none hbalanced => exact .none (hfront _ hbalanced)
  | one hbalanced hrest =>
    rw [← List.append_assoc]
    exact .one (hfront _ hbalanced) hrest

/-- An opening bracket in front takes the first of the brackets that a text closes. -/
theorem Closes.nested {pending : Nat} (h : m.Closes (pending + 1) text) :
    m.Closes pending (m.opening :: text) := by
  cases h with
  | @one _ inside rest hbalanced hrest =>
    have hfront := hrest.append_left (m.opening :: (inside ++ [m.closing]))
      fun text htext => by simpa using hbalanced.nested htext
    simpa using hfront

/-- What the scanner takes up to the bracket that closes the outermost one closes all the others. -/
theorem closes_of_bracketed? {pending : Nat}
    (h : m.bracketed? (pending + 1) text = some (inside, rest)) :
    text = inside ++ m.closing :: rest ∧ m.Closes pending inside := by
  generalize hdepth : pending + 1 = depth at h
  fun_induction m.bracketed? depth text generalizing pending inside rest with
  | case1 depth => simp at h
  | case2 depth => simp at h
  | case3 depth d behind ih =>
    -- An escape and the character behind it.
    obtain ⟨⟨more, rest⟩, hmore, heq⟩ := Option.map_eq_some_iff.mp h
    obtain ⟨rfl, rfl⟩ := Prod.mk.inj heq
    obtain ⟨rfl, hcloses⟩ := ih hdepth hmore
    exact ⟨rfl, hcloses.append_left [m.escape, d] fun _ htext => .escaped d htext⟩
  | case4 depth behind hescape ih =>
    -- A bracket that opens.
    obtain ⟨⟨more, rest⟩, hmore, heq⟩ := Option.map_eq_some_iff.mp h
    obtain ⟨rfl, rfl⟩ := Prod.mk.inj heq
    obtain ⟨rfl, hcloses⟩ := ih (congrArg (· + 1) hdepth) hmore
    exact ⟨rfl, hcloses.nested⟩
  | case5 behind hescape hopening =>
    -- The bracket that closes the outermost.
    obtain ⟨rfl, rfl⟩ := Prod.mk.inj (Option.some.inj h)
    obtain rfl : pending = 0 := by omega
    exact ⟨rfl, .none .nil⟩
  | case6 depth behind hne hescape hopening ih =>
    -- A bracket that closes an inner one.
    obtain ⟨⟨more, rest⟩, hmore, heq⟩ := Option.map_eq_some_iff.mp h
    obtain ⟨rfl, rfl⟩ := Prod.mk.inj heq
    obtain ⟨fewer, rfl⟩ : ∃ fewer, pending = fewer + 1 := ⟨pending - 1, by omega⟩
    obtain ⟨rfl, hcloses⟩ := ih (by omega : fewer + 1 = depth - 1) hmore
    exact ⟨rfl, .one .nil hcloses⟩
  | case7 depth c behind hescape hopening hclosing ih =>
    -- A character without a meaning.
    obtain ⟨⟨more, rest⟩, hmore, heq⟩ := Option.map_eq_some_iff.mp h
    obtain ⟨rfl, rfl⟩ := Prod.mk.inj heq
    obtain ⟨rfl, hcloses⟩ := ih hdepth hmore
    exact ⟨rfl, hcloses.append_left [c] fun _ htext => .plain hopening hclosing hescape htext⟩

/-- With one bracket open, the count finds what the grammar encloses. -/
theorem bracketed?_eq_some_iff (hm : m.Distinct) :
    m.bracketed? 1 text = some (inside, rest) ↔ m.Encloses text inside rest := by
  constructor
  · intro h
    obtain ⟨htext, hcloses⟩ := closes_of_bracketed? h
    cases hcloses with
    | none hbalanced => exact ⟨hbalanced, htext⟩
  · rintro ⟨hbalanced, rfl⟩
    rw [hbalanced.bracketed?_append hm Nat.one_pos, bracketed?_closing hm, if_pos rfl]
    simp

end MetaChars

/-! ## Copying -/

namespace Interpreter

/-- An opening bracket that is recognised as one is where a bracketed text is copied from, by the
meta characters in force, whether a call is open or not. -/
theorem step_of_opening {t : Interpreter} {done : ByteArray} {text : List Char}
    (hhalt : t.session.halt = none)
    (hz : t.zones.Shows done (t.session.chars.opening :: text).utf8Encode)
    (hrole : t.recognising.role t.session.chars.opening = .opening) :
    t.step = t.move (·.copyBracketed t.session.chars) := by
  rw [step_eq_scanUnit hhalt hz.peek]
  unfold scanUnit
  dsimp only
  rw [hrole]

end Interpreter

namespace Zones

/-- Copying the bracketed text at the cursor accepts what the grammar of bracketed texts does, with
one reading of it: what is enclosed goes to the end of what is done with, as it is, and what is
behind the closing bracket is left to be scanned. With nothing enclosed the bracket is unbalanced.
This is what a step does at an opening bracket, outside calls and in an argument list that
recognises it. -/
theorem copyBracketed_accepts {m : MetaChars} (hm : m.Distinct) {z : Zones} {done : ByteArray}
    {text : List Char} (hz : z.Shows done (m.opening :: text).utf8Encode) :
    (∀ inside rest, m.Encloses text inside rest →
      (∀ inside' rest', m.Encloses text inside' rest' → inside' = inside ∧ rest' = rest) ∧
      ∃ z', z.copyBracketed m = .moved z' ∧
        z'.Shows (done ++ inside.utf8Encode) rest.utf8Encode) ∧
    ((¬ ∃ inside rest, m.Encloses text inside rest) →
      ∃ z', z.copyBracketed m = .failed .unbalancedBracket z' ∧
        z'.Shows (done ++ text.utf8Encode) [].utf8Encode) ∧
    (∀ t : Interpreter, t.zones = z → t.session.chars = m → t.session.halt = none →
      (t.lists = [] → t.step = t.move (·.copyBracketed m)) ∧
      (∀ list outer, t.lists = list :: outer → list.chars.role m.opening = .opening →
        t.step = t.move (·.copyBracketed m))) := by
  have hinner : (z.skip m.opening.utf8Size).Shows done text.utf8Encode := by
    rw [List.utf8Encode_cons] at hz
    exact hz.skip (by simp)
  have hcopies := hinner.copyBracketedFrom_eq (m := m) Nat.one_pos
  refine ⟨?_, ?_, ?_⟩
  · intro inside rest hencloses
    have hfound := (MetaChars.bracketed?_eq_some_iff hm).mpr hencloses
    rw [hfound] at hcopies
    refine ⟨?_, hcopies⟩
    intro inside' rest' hencloses'
    have hfound' := (MetaChars.bracketed?_eq_some_iff hm).mpr hencloses'
    rw [hfound] at hfound'
    exact (Prod.mk.inj (Option.some.inj hfound')).imp Eq.symm Eq.symm
  · intro hnone
    have hfound : m.bracketed? 1 text = none := by
      refine Option.eq_none_iff_forall_ne_some.mpr ?_
      rintro ⟨inside, rest⟩ hfound
      exact hnone ⟨inside, rest, (MetaChars.bracketed?_eq_some_iff hm).mp hfound⟩
    rw [hfound] at hcopies
    exact hcopies
  · rintro t rfl rfl hhalt
    constructor
    · intro hlists
      refine Interpreter.step_of_opening hhalt hz ?_
      unfold Interpreter.recognising
      rw [hlists]
      exact hm.role_opening
    · intro list outer hlists hrole
      refine Interpreter.step_of_opening hhalt hz ?_
      unfold Interpreter.recognising
      rw [hlists]
      exact hrole

/-- A bracketed text with an escaped bracket and a text in brackets inside it, and one that is not
closed since its last bracket is escaped. -/
theorem copyBracketed_accepts_escaped :
    (∃ z', (ofString (String.ofList ['<', 'é', '\\', '>', '<', '>', '>', 'b'])).copyBracketed
        .initial = .moved z' ∧
      z'.Shows (.empty ++ ['é', '\\', '>', '<', '>'].utf8Encode) ['b'].utf8Encode) ∧
    ∃ z', (ofString (String.ofList ['<', 'é', '\\', '>'])).copyBracketed .initial
        = .failed .unbalancedBracket z' ∧
      z'.Shows (.empty ++ ['é', '\\', '>'].utf8Encode) [].utf8Encode := by
  have hz : ∀ text, (ofString (String.ofList ('<' :: text))).Shows .empty
      (MetaChars.initial.opening :: text).utf8Encode := by
    intro text
    have hshows := shows_ofString (String.ofList ('<' :: text))
    rwa [String.toUTF8_eq_toByteArray, String.toByteArray_ofList] at hshows
  constructor
  · refine ((copyBracketed_accepts MetaChars.distinct_initial (hz _)).1 _ _ ?_).2
    rw [← MetaChars.bracketed?_eq_some_iff MetaChars.distinct_initial]
    decide
  · refine (copyBracketed_accepts MetaChars.distinct_initial (hz _)).2.1 ?_
    rintro ⟨inside, rest, hencloses⟩
    have hfound := (MetaChars.bracketed?_eq_some_iff MetaChars.distinct_initial).mpr hencloses
    have hnone : MetaChars.initial.bracketed? 1 ['é', '\\', '>'] = none := by decide
    rw [hnone] at hfound
    simp at hfound

end Zones

end TextMacro
