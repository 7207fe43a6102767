import Mathlib.Data.List.Basic
import TextMacro.Proofs.Runs

/-!
# Flattening groups

A list may be written with commas, and with parentheses around some of its items, next to which a
comma can be left out (`Split.Written`). Splitting it gives the items without their parentheses, and
one semicolon between neighbours, however they were set apart (`Written.groups_eq`). That there is
only one is decided in three places: in front of a group by the character written last, behind a
group by the character that follows, and at a comma. The proof goes item by item, with the character
written last as far as it matters: before an item nothing was written, or a semicolon.

A text in which no parenthesis is opened has no groups, and is split at its commas alone
(`groups_eq_commas`).
-/

namespace TextMacro

namespace Split

/-! ## Lists of items -/

/-- The texts in which all parentheses are closed. -/
inductive Balanced : List Char → Prop
  | nil : Balanced []
  | plain {c : Char} {rest : List Char} : c ≠ '(' → c ≠ ')' → Balanced rest → Balanced (c :: rest)
  | nested {inside rest : List Char} : Balanced inside → Balanced rest →
    Balanced ('(' :: (inside ++ ')' :: rest))

/-- An item of a list that is split with an escape. -/
inductive Item (escape : Char) where
  /-- One character or more, none of which has a meaning. -/
  | plain (run : List Char) (ne_nil : run ≠ [])
    (free : ∀ c ∈ run, c ≠ ',' ∧ c ≠ '(' ∧ c ≠ ')' ∧ c ≠ ';' ∧ c ≠ escape)
  /-- A text in parentheses; it may be empty. -/
  | group (content : List Char) (balanced : Balanced content) (free : escape ∉ content)

namespace Item

variable {escape : Char}

/-- What an item contributes to the list. -/
def content : Item escape → List Char
  | plain run _ _ => run
  | group content _ _ => content

/-- How an item is written. -/
def text : Item escape → List Char
  | plain run _ _ => run
  | group content _ _ => '(' :: (content ++ [')'])

/-- Whether an item is written in parentheses. -/
def isGroup : Item escape → Bool
  | plain _ _ _ => false
  | group _ _ _ => true

end Item

/-- The texts of a list: between two items stands a comma, or nothing if one of them is a group. -/
inductive Written {escape : Char} : List (Item escape) → List Char → Prop
  | single (i : Item escape) : Written [i] i.text
  | comma (i : Item escape) {items : List (Item escape)} {text : List Char} : Written items text →
    Written (i :: items) (i.text ++ ',' :: text)
  | adjacent (i j : Item escape) {items : List (Item escape)} {text : List Char} :
    i.isGroup ∨ j.isGroup → Written (j :: items) text → Written (i :: j :: items) (i.text ++ text)

/-! ## One character -/

section Characters

variable {escape : Char} {last : Option Char} {rest : List Char}

/-- At a comma a semicolon is written. -/
theorem groups_comma (hescape : escape ≠ ',') :
    groups escape false 0 last (',' :: rest) = ';' :: groups escape false 0 (some ';') rest := by
  rw [groups, if_neg hescape.symm, if_pos rfl]

/-- In front of a group nothing is written if an item can begin there. -/
theorem groups_opening (hescape : escape ≠ '(') (hlast : last = none ∨ last = some ';') :
    groups escape false 0 last ('(' :: rest) = groups escape false 1 last rest := by
  rw [groups, if_neg hescape.symm, if_neg (by decide), if_pos rfl]
  rcases hlast with rfl | rfl
  · rfl
  · rfl

/-- In front of a group behind a character a semicolon is written. -/
theorem groups_opening_behind {c : Char} (hescape : escape ≠ '(') (hc : c ≠ ';') :
    groups escape false 0 (some c) ('(' :: rest)
      = ';' :: groups escape false 0 (some ';') ('(' :: rest) := by
  rw [groups_opening hescape (.inr rfl), groups, if_neg hescape.symm, if_neg (by decide),
    if_pos rfl, if_pos (by simp [hc])]

/-- Behind a group a semicolon is written if an item begins there. -/
theorem groups_closing {c : Char} (hescape : escape ≠ ')') (hc : c ≠ ',') :
    groups escape false 1 last (')' :: c :: rest)
      = ';' :: groups escape false 0 (some ';') (c :: rest) := by
  conv_lhs => rw [groups]
  rw [if_neg hescape.symm, if_neg (by decide), if_pos rfl, if_pos rfl, if_pos (by simp [hc])]

/-- Behind a group nothing is written if a comma follows. -/
theorem groups_closing_comma (hescape : escape ≠ ')') :
    groups escape false 1 last (')' :: ',' :: rest) = groups escape false 0 last (',' :: rest) := by
  conv_lhs => rw [groups]
  rw [if_neg hescape.symm, if_neg (by decide), if_pos rfl, if_pos rfl, if_neg (by simp)]

/-- Behind the last group nothing is written. -/
theorem groups_closing_end (hescape : escape ≠ ')') : groups escape false 1 last [')'] = [] := by
  rw [groups, if_neg hescape.symm, if_neg (by decide), if_pos rfl, if_pos rfl,
    if_neg (by simp), groups]

end Characters

/-! ## One item -/

section Items

variable {escape : Char} {last : Option Char} {rest : List Char}

/-- A plain item is copied, and its last character is no semicolon. -/
theorem groups_run {run : List Char} (hne : run ≠ [])
    (hfree : ∀ c ∈ run, c ≠ ',' ∧ c ≠ '(' ∧ c ≠ ')' ∧ c ≠ ';' ∧ c ≠ escape) (rest : List Char) :
    ∃ c, c ≠ ';' ∧
      groups escape false 0 last (run ++ rest) = run ++ groups escape false 0 (some c) rest := by
  induction run generalizing last with
  | nil => exact absurd rfl hne
  | cons c run ih =>
    obtain ⟨hcomma, hopening, -, hsemi, hescape⟩ := hfree c List.mem_cons_self
    have hcopied : groups escape false 0 last (c :: (run ++ rest))
        = c :: groups escape false 0 (some c) (run ++ rest) := by
      conv_lhs => rw [groups]
      rw [if_neg hescape, if_neg hcomma, if_neg hopening]
    rw [List.cons_append, hcopied]
    cases run with
    | nil => exact ⟨c, hsemi, rfl⟩
    | cons d run =>
      obtain ⟨e, he, heq⟩ :=
        ih (List.cons_ne_nil d run) fun x hx => hfree x (List.mem_cons_of_mem c hx)
      exact ⟨e, he, congrArg (c :: ·) heq⟩

/-- Inside a group a text is copied that closes what it opens. -/
theorem Balanced.groups_append {inside : List Char} (h : Balanced inside) (hfree : escape ∉ inside)
    (depth : Nat) (rest : List Char) :
    ∃ last', groups escape false (depth + 1) last (inside ++ rest)
      = inside ++ groups escape false (depth + 1) last' rest := by
  induction h generalizing depth last rest with
  | nil => exact ⟨last, rfl⟩
  | @plain c inside hopening hclosing _ ih =>
    obtain ⟨hc, htail⟩ : escape ≠ c ∧ escape ∉ inside := by simpa using hfree
    obtain ⟨last', heq⟩ := ih htail depth rest
    refine ⟨last', ?_⟩
    rw [List.cons_append, groups, if_neg hc.symm, if_neg hopening, if_neg hclosing, heq]
    rfl
  | @nested inside behind _ _ ihinside ihbehind =>
    obtain ⟨hopening, hinside, hclosing, hbehind⟩ :
        escape ≠ '(' ∧ escape ∉ inside ∧ escape ≠ ')' ∧ escape ∉ behind := by simpa using hfree
    -- What is inside is passed one level deeper, and what is behind on this level again.
    obtain ⟨last₁, heq₁⟩ := ihinside hinside (depth + 1) (')' :: (behind ++ rest))
    obtain ⟨last₂, heq₂⟩ := ihbehind hbehind depth rest
    refine ⟨last₂, ?_⟩
    rw [List.cons_append, List.append_assoc, List.cons_append, groups, if_neg hopening.symm,
      if_pos rfl, heq₁, groups, if_neg hclosing.symm, if_neg (by decide), if_pos rfl,
      if_neg (Nat.succ_ne_zero depth), heq₂]
    simp

/-- A plain item is copied, whatever was written before. -/
theorem Item.groups_plain {i : Item escape} (hplain : i.isGroup = false) (last : Option Char)
    (rest : List Char) : ∃ c, c ≠ ';' ∧
      groups escape false 0 last (i.text ++ rest)
        = i.content ++ groups escape false 0 (some c) rest := by
  cases i with
  | plain run hne hfree => exact groups_run hne hfree rest
  | group content hbalanced hfree => simp [isGroup] at hplain

/-- A group is copied without its parentheses, where an item can begin. -/
theorem Item.groups_group {i : Item escape} (hopening : escape ≠ '(') (hgroup : i.isGroup = true)
    (hlast : last = none ∨ last = some ';') (rest : List Char) :
    ∃ last', groups escape false 0 last (i.text ++ rest)
      = i.content ++ groups escape false 1 last' (')' :: rest) := by
  cases i with
  | plain run hne hfree => simp [isGroup] at hgroup
  | group content hbalanced hfree =>
    obtain ⟨last', heq⟩ := hbalanced.groups_append hfree 0 (')' :: rest)
    refine ⟨last', ?_⟩
    rw [text, List.cons_append, List.append_assoc, List.singleton_append,
      groups_opening hopening hlast, heq]
    rfl

/-- An item begins with a character that is no comma; a group begins with its parenthesis. -/
theorem Item.text_eq_cons (i : Item escape) :
    ∃ c rest, i.text = c :: rest ∧ c ≠ ',' ∧ (i.isGroup = true → c = '(') := by
  cases i with
  | plain run hne hfree =>
    obtain ⟨c, rest, rfl⟩ := List.exists_cons_of_ne_nil hne
    exact ⟨c, rest, rfl, (hfree c List.mem_cons_self).1, by simp [isGroup]⟩
  | group content _ _ => exact ⟨'(', content ++ [')'], rfl, by decide, fun _ => rfl⟩

/-- A list begins as its first item does. -/
theorem Written.eq_cons {i : Item escape} {items : List (Item escape)} {text : List Char}
    (h : Written (i :: items) text) :
    ∃ c rest, text = c :: rest ∧ c ≠ ',' ∧ (i.isGroup = true → c = '(') := by
  obtain ⟨c, front, hfront, hc⟩ := i.text_eq_cons
  cases h with
  | single => exact ⟨c, front, hfront, hc⟩
  | @comma _ _ text _ => exact ⟨c, front ++ ',' :: text, by rw [hfront, List.cons_append], hc⟩
  | @adjacent _ j _ text _ _ => exact ⟨c, front ++ text, by rw [hfront, List.cons_append], hc⟩

/-! ## A list -/

/-- A list has an item. -/
theorem Written.ne_nil {items : List (Item escape)} {text : List Char} (h : Written items text) :
    items ≠ [] := by
  cases h with
  | single i => exact List.cons_ne_nil i []
  | comma i _ => exact List.cons_ne_nil i _
  | adjacent i j _ _ => exact List.cons_ne_nil i _

/-- An item is followed by a semicolon and the others. -/
theorem intercalate_cons (i : Item escape) {items : List (Item escape)} (h : items ≠ []) :
    [';'].intercalate ((i :: items).map Item.content)
      = i.content ++ ';' :: [';'].intercalate (items.map Item.content) := by
  obtain ⟨j, items, rfl⟩ := List.exists_cons_of_ne_nil h
  simp [List.intercalate_cons_cons]

/-- A list gives its items, with a semicolon between two of them, where an item can begin. -/
theorem Written.groups_eq {items : List (Item escape)} {text : List Char}
    (h : Written items text) (hcomma : escape ≠ ',') (hopening : escape ≠ '(')
    (hclosing : escape ≠ ')') (hlast : last = none ∨ last = some ';') :
    groups escape false 0 last text = [';'].intercalate (items.map Item.content) := by
  induction h generalizing last with
  | single i =>
    rw [← List.append_nil i.text]
    cases hgroup : i.isGroup with
    | false =>
      obtain ⟨c, -, heq⟩ := Item.groups_plain hgroup last []
      rw [heq, groups]
      simp
    | true =>
      obtain ⟨last', heq⟩ := i.groups_group hopening hgroup hlast []
      rw [heq, groups_closing_end hclosing]
      simp
  | @comma i items text hitems ih =>
    rw [intercalate_cons i hitems.ne_nil, ← ih (.inr rfl)]
    cases hgroup : i.isGroup with
    | false =>
      obtain ⟨c, -, heq⟩ := Item.groups_plain hgroup last (',' :: text)
      rw [heq, groups_comma hcomma]
    | true =>
      obtain ⟨last', heq⟩ := i.groups_group hopening hgroup hlast (',' :: text)
      rw [heq, groups_closing_comma hclosing, groups_comma hcomma]
  | @adjacent i j items text hgroups hitems ih =>
    rw [intercalate_cons i hitems.ne_nil, ← ih (.inr rfl)]
    obtain ⟨c, rest, rfl, hc, hparenthesis⟩ := hitems.eq_cons
    cases hgroup : i.isGroup with
    | false =>
      -- Then the next item is a group, in front of which the semicolon is written.
      obtain rfl : c = '(' := hparenthesis (by simpa [hgroup] using hgroups)
      obtain ⟨d, hd, heq⟩ := Item.groups_plain hgroup last ('(' :: rest)
      rw [heq, groups_opening_behind hopening hd]
    | true =>
      obtain ⟨last', heq⟩ := i.groups_group hopening hgroup hlast (c :: rest)
      rw [heq, groups_closing hclosing hc]

/-- Splitting a list gives its items. -/
theorem Written.groupsOf_eq {items : List (Item escape)} {text : List Char}
    (h : Written items text) (hcomma : escape ≠ ',') (hopening : escape ≠ '(')
    (hclosing : escape ≠ ')') :
    groupsOf escape (String.ofList text)
      = String.ofList ([';'].intercalate (items.map Item.content)) := by
  unfold groupsOf
  rw [String.toList_ofList, h.groups_eq hcomma hopening hclosing (.inl rfl)]

end Items

/-! ## Texts without groups -/

/-- The characters of a text that are neither an escape nor escaped. `escaped` tells whether an
escape comes right before the text. -/
def bare (escape : Char) : (escaped : Bool) → List Char → List Char
  | _, [] => []
  | true, _ :: rest => bare escape false rest
  | false, c :: rest =>
    if c = escape then bare escape true rest else c :: bare escape false rest

/-- Where no parenthesis is opened there are no groups, and both ways of splitting do the same. -/
theorem groups_eq_commas {escape : Char} {escaped : Bool} {last : Option Char} {text : List Char}
    (h : '(' ∉ bare escape escaped text) :
    groups escape escaped 0 last text = commas escape escaped 0 text := by
  induction text generalizing escaped last with
  | nil => rw [groups, commas]
  | cons c rest ih =>
    cases escaped with
    | true =>
      rw [bare] at h
      rw [groups, commas, ih h]
    | false =>
      rw [bare] at h
      rw [groups, commas]
      by_cases hescape : c = escape
      · rw [if_pos hescape] at h
        rw [if_pos hescape, if_pos hescape, ih h]
      · rw [if_neg hescape] at h
        obtain ⟨hc, hrest⟩ : '(' ≠ c ∧ '(' ∉ bare escape false rest := by simpa using h
        rw [if_neg hescape, if_neg hescape, if_neg hc.symm, if_neg hc.symm, ih hrest, ih hrest]
        simp

/-- In every call and every session: a list of items, plain or in parentheses, that are set apart by
commas, or by nothing where one of the neighbours is in parentheses, is flattened to the items
without their parentheses, with one semicolon between neighbours. A text in which no parenthesis is
opened comes to the same whether its groups are flattened or only its commas are replaced. -/
theorem groups_flattened (f : Frame) (s : Session) :
    (∀ (items : List (Item s.chars.escape)) (text : List Char), Written items text →
      s.chars.escape ≠ ',' → s.chars.escape ≠ '(' → s.chars.escape ≠ ')' →
      f.arg 1 = String.ofList text →
      Builtin.splitGroups.perform f s
        = .ok (String.ofList ([';'].intercalate (items.map Item.content))) s) ∧
    ('(' ∉ bare s.chars.escape false (f.arg 1).toList →
      Builtin.splitGroups.perform f s = Builtin.splitCommas.perform f s) := by
  have hgroups : Builtin.splitGroups.perform f s = .ok (groupsOf s.chars.escape (f.arg 1)) s := rfl
  have hcommas : Builtin.splitCommas.perform f s = .ok (commasOf s.chars.escape (f.arg 1)) s := rfl
  rw [hgroups, hcommas]
  refine ⟨fun items text hitems hcomma hopening hclosing htext => ?_, fun hbare => ?_⟩
  · rw [htext, hitems.groupsOf_eq hcomma hopening hclosing]
  · unfold groupsOf commasOf
    rw [groups_eq_commas hbare]

/-- A list of which every kind of neighbours is set apart by nothing. -/
def neighbours : List (Item '\\') :=
  [.plain ['a'] (by simp) (by simp), .group [] .nil (by decide),
    .group ['b', ',', '(', 'c', ')', ';']
      (.plain (by decide) (by decide) (.plain (by decide) (by decide)
        (.nested (.plain (by decide) (by decide) .nil) (.plain (by decide) (by decide) .nil))))
      (by decide),
    .plain ['d'] (by simp) (by simp)]

/-- An empty group and one that ends with a semicolon are items like others, and an escaped
parenthesis opens no group. -/
theorem groups_flattened_neighbours :
    Builtin.splitGroups.perform ⟨["zlcp", "a()(b,(c);)d"], true⟩ Interpreter.fresh.session
        = .ok "a;;b,(c);;d" Interpreter.fresh.session ∧
      Builtin.splitGroups.perform ⟨["zlcp", "a\\(b,c)"], true⟩ Interpreter.fresh.session
        = Builtin.splitCommas.perform ⟨["zlcp", "a\\(b,c)"], true⟩ Interpreter.fresh.session := by
  have hwritten : Written neighbours ['a', '(', ')', '(', 'b', ',', '(', 'c', ')', ';', ')', 'd'] :=
    .adjacent _ _ (by decide) (.adjacent _ _ (by decide) (.adjacent _ _ (by decide) (.single _)))
  constructor
  · exact (groups_flattened ⟨["zlcp", "a()(b,(c);)d"], true⟩ Interpreter.fresh.session).1
      neighbours _ hwritten (by decide) (by decide) (by decide) (by decide)
  · exact (groups_flattened ⟨["zlcp", "a\\(b,c)"], true⟩ Interpreter.fresh.session).2
      (by decide +kernel)

end Split

end TextMacro
