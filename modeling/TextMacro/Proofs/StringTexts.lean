import TextMacro.Proofs.DefinedStrings
import TextMacro.Proofs.Lookups

/-!
# What builtins leave of a string

Of all builtins only a few change the text of defined strings, and each of those only the strings of
the names that it is given for that (`Builtin.targets`). The cursor of a string is moved by the
builtins that read it (`Builtin.reads?`). All others leave the string of a name as it is
(`Builtin.keepsText_perform`), since each elementary change does (`Session.Change.keepsText`).
-/

namespace TextMacro

/-! ## Bodies -/

/-- A body is another with the cursor moved at most, and not even that unless it `moves`. -/
structure Body.SameText (moves : Prop) (body body' : Body) : Prop where
  content : body'.text.content = body.text.content
  segments : body'.segments = body.segments
  index : ¬ moves → body'.text.index = body.text.index

namespace Body

variable {moves : Prop} {body body' body'' : Body}

/-- A body has its own text. -/
theorem SameText.refl (body : Body) : body.SameText moves body := ⟨rfl, rfl, fun _ => rfl⟩

/-- A text that is kept twice is kept. -/
theorem SameText.trans (h : body.SameText moves body') (h' : body'.SameText moves body'') :
    body.SameText moves body'' :=
  ⟨h'.content.trans h.content, h'.segments.trans h.segments,
    fun hmoves => (h'.index hmoves).trans (h.index hmoves)⟩

end Body

/-! ## Dictionaries -/

namespace Dictionary

variable {d d' : Dictionary} {name other : String}

/-- The body of a string is part of what its name means. -/
theorem body_congr (h : (d'.function? name).map Function.meaning
    = (d.function? name).map Function.meaning) : d'.body name = d.body name := by
  have hbody : ∀ d : Dictionary, d.body name = match (d.function? name).map Function.meaning with
      | some (.defined body) => .ok body
      | some (.builtin _) => .error (.primitive name)
      | none => .error (.undefinedName name) := by
    intro d
    unfold Dictionary.body
    cases d.function? name with
    | none => rfl
    | some f =>
      obtain ⟨_, meaning, traced, locked, minArgs, maxArgs, disposition⟩ := f
      cases meaning with
      | builtin code => rfl
      | defined body => rfl
  rw [hbody, hbody, h]

/-- A change of another name. -/
theorem body_of_function? (h : d'.function? name = d.function? name) : d'.body name = d.body name :=
  body_congr (congrArg _ h)

/-- An entry is changed in something other than its meaning. -/
theorem Indexed.body_modify (h : d.Indexed) (name other : String) {change : Function → Function}
    (hchange : ∀ f, (change f).meaning = f.meaning) :
    (d.modify other change).body name = d.body name := by
  refine body_congr ?_
  rw [h.function?_modify]
  split
  · rename_i heq
    rw [heq]
    cases d.function? other with
    | none => rfl
    | some f => exact congrArg some (hchange f)
  · rfl

/-- A string is given another body. -/
theorem Indexed.body_setBody (h : d.Indexed) (hbound : (d.function? name).isSome) (new : Body) :
    (d.setBody name new).body name = .ok new := by
  obtain ⟨f, hf⟩ := Option.isSome_iff_exists.mp hbound
  have hset : (d.setBody name new).function? name = some { f with meaning := .defined new } := by
    unfold setBody
    rw [h.function?_modify, if_pos rfl, hf]
    rfl
  unfold Dictionary.body
  rw [hset]

end Dictionary

/-! ## Sessions -/

/-- The string of a name has the same text in a session as in one before, with the cursor at the
same place unless it `moves`. -/
def Session.KeepsText (name : String) (moves : Prop) (s s' : Session) : Prop :=
  s.dict.Indexed → s'.dict.Indexed ∧ ∀ body, s.dict.body name = .ok body →
    ∃ body', s'.dict.body name = .ok body' ∧ body.SameText moves body'

namespace Session.KeepsText

variable {name : String} {moves : Prop} {s s' s'' : Session}

/-- Where nothing is done, every text is kept. -/
theorem refl (s : Session) : s.KeepsText name moves s :=
  fun hindexed => ⟨hindexed, fun body hbody => ⟨body, hbody, .refl body⟩⟩

/-- What keeps a text can be done one after another. -/
theorem trans (h : s.KeepsText name moves s') (h' : s'.KeepsText name moves s'') :
    s.KeepsText name moves s'' := by
  intro hindexed
  obtain ⟨hindexed', hkept⟩ := h hindexed
  obtain ⟨hindexed'', hkept'⟩ := h' hindexed'
  refine ⟨hindexed'', fun body hbody => ?_⟩
  obtain ⟨body', hbody', hsame⟩ := hkept body hbody
  obtain ⟨body'', hbody'', hsame'⟩ := hkept' body' hbody'
  exact ⟨body'', hbody'', hsame.trans hsame'⟩

/-- The body is the same. -/
theorem of_body (hindexed : s.dict.Indexed → s'.dict.Indexed)
    (hbody : s.dict.Indexed → s'.dict.body name = s.dict.body name) : s.KeepsText name moves s' :=
  fun h => ⟨hindexed h, fun body hold => ⟨body, (hbody h).trans hold, .refl body⟩⟩

end Session.KeepsText

variable {permits : Permits} {s s' : Session} {name : String} {moves : Prop}

/-- An elementary change keeps the text of a string that is not to be changed, and moves its cursor
only if that is permitted. -/
theorem Session.Change.keepsText (h : s.Change permits s') (htarget : name ∉ permits.targets)
    (hcursor : permits.cursor = some name → moves) : s.KeepsText name moves s' := by
  have hother : ∀ {other}, other ∈ permits.targets → name ≠ other :=
    fun hmem heq => htarget (heq ▸ hmem)
  have hsame : ∀ {d : Dictionary}, d.function? name = s.dict.function? name →
      d.body name = s.dict.body name := Dictionary.body_of_function?
  cases h with
  | bind hmem =>
    refine .of_body (fun hd => hd.register _) fun hd => hsame ?_
    exact (hd.function?_bind _ _ _).trans (if_neg (hother hmem))
  | extend hmem =>
    refine .of_body (fun hd => hd.extend _ _) fun hd => hsame ?_
    exact (hd.function?_extend _ _ _).trans (if_neg (hother hmem))
  | copy hmem =>
    refine .of_body (fun hd => hd.register _) fun hd => hsame ?_
    exact (hd.function?_register _ _).trans (if_neg (hother hmem))
  | unbind hmem =>
    refine .of_body (fun hd => hd.unbind _) fun hd => hsame ?_
    exact (hd.function?_unbind _ _).trans (if_neg (hother hmem))
  | @body other old new hold _ hpermitted =>
    intro hindexed
    refine ⟨hindexed.modify other _, fun body hbody => ?_⟩
    by_cases heq : other = name
    · -- It is this string, and what is put back differs in the cursor at most.
      subst heq
      obtain ⟨hmoves, hmoved⟩ := hpermitted.resolve_left htarget
      obtain rfl : old = body := by simpa [hold] using hbody
      obtain ⟨f, hf, -⟩ := Dictionary.function?_of_body hold
      refine ⟨new, hindexed.body_setBody (by rw [hf]; rfl) _, hmoved.content, hmoved.segments, ?_⟩
      exact fun hstays => absurd (hcursor hmoves) hstays
    · refine ⟨body, ?_, .refl body⟩
      refine (hsame ?_).trans hbody
      unfold Dictionary.setBody
      rw [hindexed.function?_modify, if_neg (Ne.symm heq)]
  | lock => exact .of_body (fun hd => hd.modify _ _) fun hd => hd.body_modify name _ fun _ => rfl
  | trace => exact .of_body (fun hd => hd.modify _ _) fun hd => hd.body_modify name _ fun _ => rfl
  | setProp hset =>
    obtain ⟨p, -, -, rfl⟩ := eq_of_setProp hset
    exact .of_body id fun _ => rfl
  | _ => exact .of_body id fun _ => rfl

/-- Elementary changes keep the text of a string that is not to be changed. -/
theorem Session.Changes.keepsText (h : s.Changes permits s') (htarget : name ∉ permits.targets)
    (hcursor : permits.cursor = some name → moves) : s.KeepsText name moves s' :=
  h.keeps (fun hlast hkept => hkept.trans (hlast.keepsText htarget hcursor)) (.refl s)

/-- A builtin keeps the text of every string that it is not to change, and moves the cursor only of
the one that it reads. -/
theorem Builtin.keepsText_perform {code : Builtin} {f : Frame} (h : name ∉ code.targets f)
    (s : Session) : s.KeepsText name (code.reads? f = some name) (Action.left (code.perform f s)) :=
  (code.within_perform f s).leaves.changes.keepsText h id

end TextMacro
