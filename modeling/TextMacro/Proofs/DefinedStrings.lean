import TextMacro.Proofs.Changes

/-!
# Calling a defined string

The text that a call of a defined string yields is its body with each mark filled in
(`Body.filled`), and the call changes nothing but the number of tokens and the log
(`Action.invoke_defined`). A defined string takes any number of arguments and always yields a text,
since nothing that can happen to a dictionary gives one other bounds (`Dictionary.Plain`).
-/

namespace TextMacro

open TextUnit

/-! ## Expansion -/

/-- The text that a unit stands for in a call with the arguments `args` behind its name. -/
def TextUnit.filled (args : List String) (token : String) : TextUnit → List Char
  | char c => [c]
  | segment slot => (args.getD slot.val "").toList
  | creation => token.toList

namespace Body

variable {body : Body}

/-- The units of a body. -/
def units (body : Body) : List TextUnit := (decodeFrom body.text.content 0).1

/-- The text of a body with each segment mark replaced by the argument it stands for, which is empty
if there are not as many, and each creation mark by a token. -/
def filled (body : Body) (args : List String) (token : String) : List Char :=
  body.units.flatMap (·.filled args token)

/-- The number of tokens when a body has been expanded: there is one more if it has a creation mark.
-/
def tokensAfter (body : Body) (n : Nat) : Nat :=
  if .creation ∈ body.units then n + 1 else n

/-- Expansion from a boundary on adds what the units behind it stand for. -/
theorem expandFrom_eq {content : ByteArray} {pos : Nat} {before after : List TextUnit} (f : Frame)
    (token : String) (used : Bool) (out : String) (h : Splits content pos before after) :
    expandFrom content f token pos used out = (used || decide (.creation ∈ after),
      .ok (out ++ String.ofList (after.flatMap (·.filled f.rest token)))) := by
  have hdecode := h.decodeAt_eq
  fun_induction expandFrom content f token pos used out generalizing before after with
  | case1 pos used out e he =>
    rw [he] at hdecode
    simp at hdecode
  | case2 pos used out hn =>
    rw [hn] at hdecode
    obtain rfl : after = [] := by simpa using hdecode.symm
    simp
  | case3 pos used out c hc ih =>
    rw [hc] at hdecode
    obtain ⟨rest, rfl⟩ : ∃ rest, after = .char c :: rest := by
      simpa [List.head?_eq_some_iff] using hdecode.symm
    rw [ih h.next h.next.decodeAt_eq]
    simp [TextUnit.filled, ← String.toList_inj]
  | case4 pos used out slot hslot ih =>
    rw [hslot] at hdecode
    obtain ⟨rest, rfl⟩ : ∃ rest, after = .segment slot :: rest := by
      simpa [List.head?_eq_some_iff] using hdecode.symm
    rw [ih h.next h.next.decodeAt_eq]
    -- The arguments of a frame are counted with its name.
    have harg : f.arg (argument slot) = f.rest.getD slot.val "" := by
      simp [Frame.arg, Frame.rest, argument, List.getD_eq_getElem?_getD]
    simp [TextUnit.filled, harg, ← String.toList_inj]
  | case5 pos used out hcreation ih =>
    rw [hcreation] at hdecode
    obtain ⟨rest, rfl⟩ : ∃ rest, after = .creation :: rest := by
      simpa [List.head?_eq_some_iff] using hdecode.symm
    rw [ih h.next h.next.decodeAt_eq]
    simp [TextUnit.filled, ← String.toList_inj]

/-- Expanding a well-formed body fills in its marks. -/
theorem WellFormed.expand_eq (h : body.WellFormed) (f : Frame) (token : String) :
    body.expand f token
      = (decide (.creation ∈ body.units), .ok (String.ofList (body.filled f.rest token))) := by
  obtain ⟨units, hunits⟩ := splits_of_validate h.valid
  have hdecoded : body.units = units := by
    unfold Body.units
    rw [hunits.decodeFrom_eq]
  unfold Body.expand Body.filled
  rw [expandFrom_eq f token false "" hunits, hdecoded]
  simp

end Body

/-! ## Entries of defined strings -/

/-- A defined string takes any number of arguments and yields a text. -/
def Function.Plain (f : Function) : Prop :=
  ∀ body, f.meaning = .defined body → f.minArgs = 0 ∧ f.disposition = .value

/-- All defined strings take any number of arguments and yield a text. -/
def Dictionary.Plain (d : Dictionary) : Prop :=
  d.functions.All fun _ f => f.Plain

/-- A function is a builtin or a defined string. -/
theorem Function.isBuiltin_or_defined (f : Function) :
    f.isBuiltin = true ∨ f.isBuiltin = false ∧ ∃ body, f.meaning = .defined body := by
  unfold isBuiltin
  cases f.meaning with
  | builtin code => exact .inl rfl
  | defined body => exact .inr ⟨rfl, body, rfl⟩

namespace Dictionary

variable {d : Dictionary} {name : String} {body : Body}

/-- A name that is not bound has no body. -/
theorem body_of_unbound (hf : d.function? name = none) :
    d.body name = .error (.undefinedName name) := by
  unfold Dictionary.body
  rw [hf]

/-- The name of a builtin has no body. -/
theorem body_of_builtin {f : Function} (hf : d.function? name = some f)
    (hbuiltin : f.isBuiltin = true) : d.body name = .error (.primitive name) := by
  unfold Dictionary.body
  rw [hf]
  obtain ⟨fname, meaning, traced, locked, minArgs, maxArgs, disposition⟩ := f
  cases meaning with
  | builtin code => rfl
  | defined body => exact absurd hbuiltin Bool.false_ne_true

/-- A name that means a body is that of a defined string. -/
theorem body_of_meaning {f : Function} (hf : d.function? name = some f)
    (hmeaning : f.meaning = .defined body) : d.body name = .ok body := by
  unfold Dictionary.body
  rw [hf]
  obtain ⟨fname, meaning, traced, locked, minArgs, maxArgs, disposition⟩ := f
  obtain rfl : meaning = .defined body := hmeaning
  rfl

/-- The entry of a defined string. -/
theorem function?_of_body (h : d.body name = .ok body) :
    ∃ f, d.function? name = some f ∧ f.meaning = .defined body := by
  unfold Dictionary.body at h
  split at h
  · rename_i f hf
    obtain rfl : _ = body := by simpa using h
    exact ⟨_, hf, rfl⟩
  · simp at h
  · simp at h

/-- A string that is defined takes any number of arguments. -/
theorem Plain.registerBody (h : d.Plain) (name : String) (body : Body) :
    (d.register (.ofBody name body)).Plain :=
  SymbolTable.All.insert h fun _ _ => ⟨rfl, rfl⟩

/-- An entry is changed in anything but its bounds and what it yields. -/
theorem Plain.modify {change : Function → Function} (h : d.Plain) (name : String)
    (hchange : ∀ f, f.Plain → (change f).Plain) : (d.modify name change).Plain :=
  SymbolTable.All.modify h fun _ f hf => hchange f hf

/-- Adding text changes neither the bounds of an entry nor what it yields. -/
theorem Plain.extend (h : d.Plain) (name text : String) : (d.extend name text).Plain := by
  have happend : ∀ f : Function, f.Plain → (f.onBody (·.append text)).Plain := by
    intro f hf
    obtain ⟨fname, meaning, traced, locked, minArgs, maxArgs, disposition⟩ := f
    cases meaning with
    | builtin code => exact hf
    | defined body => exact fun _ _ => hf body rfl
  unfold Dictionary.extend
  dsimp only
  split
  · exact h.modify name happend
  · exact (h.registerBody name _).modify name happend

/-- Only a defined string is given another body. -/
theorem Plain.setBody (h : d.Plain) (new : Body) (hbody : d.body name = .ok body) :
    (d.setBody name new).Plain := by
  obtain ⟨f, hf, hmeaning⟩ := function?_of_body hbody
  refine SymbolTable.All.modify_at h fun value hvalue hplain => ?_
  obtain rfl : value = f := Option.some.inj (hvalue.symm.trans hf)
  exact fun _ _ => hplain body hmeaning

/-- The dictionary that a session starts with has no defined strings. -/
theorem plain_initial : initial.Plain := by
  have hfold : ∀ (entries : List Builtin.Entry) (d : Dictionary), d.Plain →
      (entries.foldl (fun d entry => d.register (.ofEntry entry)) d).Plain := by
    intro entries
    induction entries with
    | nil => exact fun _ h => h
    | cons entry entries ih =>
      intro d h
      refine ih _ (SymbolTable.All.insert h fun body hbody => ?_)
      simp [Function.ofEntry] at hbody
  have hempty : empty.Plain := SymbolTable.all_empty
  have hcatalogue := hfold Builtin.catalogue _ hempty
  exact SymbolTable.All.map hcatalogue fun _ _ hf => hf

end Dictionary

namespace Session

/-- Defined strings take any number of arguments and yield a text, whatever has happened. -/
theorem invariant_plain : Session.Invariant fun s => s.dict.Plain where
  start _ _ _ _ := Dictionary.plain_initial
  change hchange hs := by
    cases hchange with
    | bind => exact hs.registerBody _ _
    | extend => exact hs.extend _ _
    | copy => exact hs.registerBody _ _
    | unbind => exact SymbolTable.All.erase hs
    | body hbody => exact hs.setBody _ hbody
    | lock => exact hs.modify _ fun _ hf => hf
    | trace => exact hs.modify _ fun _ hf => hf
    | setProp hset =>
      obtain ⟨p, -, -, rfl⟩ := eq_of_setProp hset
      exact hs
    | _ => exact hs
  counted hs := hs
  surroundings _ _ _ _ _ _ hs := hs

/-- Some call may always be open. -/
theorem invariant_stackSize : Session.Invariant fun s => 0 < s.props.stackSize where
  start _ _ _ _ := (by decide : 0 < Properties.initial.stackSize)
  change hchange hs := by
    cases hchange with
    | setProp hset =>
      obtain ⟨p, -, hallows, rfl⟩ := eq_of_setProp hset
      cases p with
      | stackSize =>
        have hleast := of_decide_eq_true (Bool.and_eq_true_iff.mp hallows).1
        exact Int.lt_toNat.mpr (Int.lt_of_lt_of_le Int.zero_lt_one hleast)
      | _ => exact hs
    | reset => exact (by decide : 0 < Properties.initial.stackSize)
    | _ => exact hs
  counted hs := hs
  surroundings _ _ _ _ _ _ hs := hs

end Session

/-! ## Calls -/

namespace Action

variable {s : Session} {f : Frame}

/-- A call of a defined string yields its body with the marks filled in by the arguments of the call
and the next token. Nothing changes but the number of tokens, and the log if the call is traced. -/
theorem invoke_defined {body : Body} (depth : Nat) (hdict : s.dict.WellFormed)
    (hplain : s.dict.Plain) (hbody : s.dict.body f.name = .ok body) :
    ∃ log, invoke depth f s
      = .ok (.value, String.ofList (body.filled f.rest (token (s.creations + 1))))
        { s with creations := body.tokensAfter s.creations, log } := by
  obtain ⟨function, hfunction, hmeaning⟩ := Dictionary.function?_of_body hbody
  obtain ⟨hmin, hdisposition⟩ := hplain.get? hfunction body hmeaning
  -- An expansion neither reads nor writes the log.
  have hperform : ∀ log, perform function.meaning f { s with log }
      = .ok (String.ofList (body.filled f.rest (token (s.creations + 1))))
        { s with creations := body.tokensAfter s.creations, log } := by
    intro log
    rw [hmeaning]
    show Action.expand body f _ = _
    unfold Action.expand Body.tokensAfter
    dsimp only
    rw [((hdict.function? hfunction).2 body hmeaning).expand_eq]
    by_cases hcreates : .creation ∈ body.units
    · simp [hcreates]
    · simp [hcreates]
  rw [invoke_eq depth hfunction (hmin ▸ Nat.zero_le _), hdisposition]
  dsimp only
  cases s.traceAll || function.traced with
  | false =>
    refine ⟨s.log, ?_⟩
    rw [if_neg Bool.false_ne_true, hperform s.log]
    rfl
  | true =>
    rw [if_pos rfl]
    unfold Session.report
    rw [hperform]
    exact ⟨_, rfl⟩

end Action

end TextMacro
