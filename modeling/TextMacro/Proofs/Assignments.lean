import Mathlib.Data.List.Basic
import Mathlib.Data.List.TakeDrop
import Mathlib.Data.List.TakeWhile
import TextMacro.Command.Line
import TextMacro.Proofs.Numerals

/-!
# Assignments

A setting is read in two places: a value on the command line is read as it is, and a line of a
settings file without its comment and without the blanks at its ends. Both are split at the first
equals sign, and what stands on either side is freed from blanks again. The two come to the same,
because the equals sign is no blank: what the first trimming takes away are blanks at the outer end
of the name and of the value (`Blank.trim_append_cons`), which the second would take away as well
(`readAssignment_trim_eq_ok_iff`).

What is read is a name that is not empty and the number that a numeral stands for
(`readAssignment_eq_ok_iff`). The lines that are written for names and values are read as these
(`parseLines_map`), and a text is split into the lines that it was made of (`lines_join`,
`lines_intercalate`).
-/

namespace TextMacro

/-! ## Blanks at the ends -/

namespace Blank

variable {cs front back : List Char} {d : Char}

/-- What is taken away at the start are blanks. -/
theorem exists_append_trimStart (cs : List Char) :
    ∃ front, (∀ c ∈ front, isBlank c = true) ∧ cs = front ++ trimStart cs :=
  ⟨cs.takeWhile isBlank, fun _ hc => List.mem_takeWhile_imp hc,
    List.takeWhile_append_dropWhile.symm⟩

/-- Trimming at the end is trimming the reversed text at the start. -/
theorem trimEnd_eq_reverse (cs : List Char) : trimEnd cs = (trimStart cs.reverse).reverse := rfl

/-- What is taken away at the end are blanks. -/
theorem exists_trimEnd_append (cs : List Char) :
    ∃ back, (∀ c ∈ back, isBlank c = true) ∧ cs = trimEnd cs ++ back := by
  obtain ⟨front, hfront, heq⟩ := exists_append_trimStart cs.reverse
  refine ⟨front.reverse, fun c hc => hfront c (List.mem_reverse.mp hc), ?_⟩
  rw [trimEnd_eq_reverse, ← List.reverse_append, ← heq, List.reverse_reverse]

/-- Blanks at the start do not count. -/
theorem trimStart_append (h : ∀ c ∈ front, isBlank c = true) (cs : List Char) :
    trimStart (front ++ cs) = trimStart cs :=
  List.dropWhile_append_of_pos h

/-- Blanks at the end do not count. -/
theorem trimEnd_append (h : ∀ c ∈ back, isBlank c = true) (cs : List Char) :
    trimEnd (cs ++ back) = trimEnd cs := by
  have hback : ∀ c ∈ back.reverse, isBlank c = true := fun c hc => h c (List.mem_reverse.mp hc)
  rw [trimEnd_eq_reverse, List.reverse_append, trimStart_append hback]
  rfl

/-- Nothing is left of blanks. -/
theorem trimStart_eq_nil (h : ∀ c ∈ cs, isBlank c = true) : trimStart cs = [] :=
  List.dropWhile_eq_nil_iff.mpr h

/-- Blanks are taken away at the start first, so that those at the end do not count. -/
theorem trim_append (h : ∀ c ∈ back, isBlank c = true) (cs : List Char) :
    trim (cs ++ back) = trim cs := by
  unfold trim
  by_cases hcs : (trimStart cs).isEmpty = true
  · -- Then there are blanks only.
    have hnil : trimStart cs = [] := List.isEmpty_iff.mp hcs
    have hstart : trimStart (cs ++ back) = trimStart back := by
      unfold trimStart at hcs ⊢
      rw [List.dropWhile_append, if_pos hcs]
    rw [hstart, trimStart_eq_nil h, hnil]
  · have hstart : trimStart (cs ++ back) = trimStart cs ++ back := by
      unfold trimStart at hcs ⊢
      rw [List.dropWhile_append, if_neg hcs]
    rw [hstart, trimEnd_append h]

/-- Blanks that are gone from the front need not be taken off again. -/
theorem trim_trimStart (cs : List Char) : trim (trimStart cs) = trim cs := by
  obtain ⟨front, hfront, heq⟩ := exists_append_trimStart cs
  have hstart : trimStart (trimStart cs) = trimStart cs := by
    conv_rhs => rw [heq, trimStart_append hfront]
  unfold trim
  rw [hstart]

/-- Blanks that are gone from the end need not be taken off again. -/
theorem trim_trimEnd (cs : List Char) : trim (trimEnd cs) = trim cs := by
  obtain ⟨back, hback, heq⟩ := exists_trimEnd_append cs
  conv_rhs => rw [heq, trim_append hback]

/-- Nothing is left of blanks, and of nothing else. -/
theorem trim_eq_nil_iff : trim cs = [] ↔ ∀ c ∈ cs, isBlank c = true := by
  constructor
  · intro h
    obtain ⟨front, hfront, hcs⟩ := exists_append_trimStart cs
    obtain ⟨back, hback, hstart⟩ := exists_trimEnd_append (trimStart cs)
    have hend : trimEnd (trimStart cs) = [] := h
    rw [hend, List.nil_append] at hstart
    rw [hcs, hstart]
    intro c hc
    rcases List.mem_append.mp hc with hmem | hmem
    · exact hfront c hmem
    · exact hback c hmem
  · intro h
    unfold trim
    rw [trimStart_eq_nil h]
    rfl

/-- A text is trimmed on either side of a character that is no blank. -/
theorem trim_append_cons (hd : isBlank d = false) (front back : List Char) :
    trim (front ++ d :: back) = trimStart front ++ d :: trimEnd back := by
  have hkept : ∀ xs ys : List Char, trimStart (xs ++ d :: ys) = trimStart xs ++ d :: ys := by
    intro xs ys
    have hhead : (d :: ys).dropWhile isBlank = d :: ys := by
      rw [List.dropWhile_cons_of_neg (by simp [hd])]
    unfold trimStart
    rw [List.dropWhile_append, hhead]
    split
    · rename_i hnil
      rw [List.isEmpty_iff.mp hnil, List.nil_append]
    · rfl
  unfold trim
  rw [hkept, trimEnd_eq_reverse, List.reverse_append, List.reverse_cons, List.append_assoc,
    List.singleton_append, hkept, List.reverse_append, List.reverse_cons, List.reverse_reverse,
    List.append_assoc, List.singleton_append]
  rfl

/-- A text that begins with no blank. -/
theorem trimStart_eq_self (h : ∀ c, cs.head? = some c → isBlank c = false) : trimStart cs = cs := by
  cases cs with
  | nil => rfl
  | cons c cs => exact List.dropWhile_cons_of_neg (by simp [h c rfl])

/-- A text that neither begins nor ends with a blank. -/
theorem trim_eq_self (hhead : ∀ c, cs.head? = some c → isBlank c = false)
    (hlast : ∀ c, cs.getLast? = some c → isBlank c = false) : trim cs = cs := by
  have hreverse : trimStart cs.reverse = cs.reverse := by
    apply trimStart_eq_self
    intro c hc
    rw [List.head?_reverse] at hc
    exact hlast c hc
  unfold trim
  rw [trimStart_eq_self hhead, trimEnd_eq_reverse, hreverse, List.reverse_reverse]

end Blank

namespace Settings

open Blank

/-! ## Reading -/

section Reading

variable {cs front back : List Char} {name : String} {value : Int}

/-- A text is split at the first equals sign. -/
theorem splitAssignment_append (h : '=' ∉ front) (back : List Char) :
    splitAssignment (front ++ '=' :: back) = some (front, back) := by
  have hfront : ∀ c ∈ front, (c != '=') = true := by
    intro c hc
    exact bne_iff_ne.mpr fun heq => h (heq ▸ hc)
  have htake : (front ++ '=' :: back).takeWhile (· != '=') = front := by
    rw [List.takeWhile_append_of_pos hfront, List.takeWhile_cons_of_neg (by simp), List.append_nil]
  have hdrop : (front ++ '=' :: back).dropWhile (· != '=') = '=' :: back := by
    rw [List.dropWhile_append_of_pos hfront, List.dropWhile_cons_of_neg (by simp)]
  unfold splitAssignment
  rw [List.span_eq_takeWhile_dropWhile, htake, hdrop]

/-- A text without an equals sign is not split. -/
theorem splitAssignment_of_notMem (h : '=' ∉ cs) : splitAssignment cs = none := by
  have hdrop : cs.dropWhile (· != '=') = [] := by
    apply List.dropWhile_eq_nil_iff.mpr
    intro c hc
    exact bne_iff_ne.mpr fun heq => h (heq ▸ hc)
  unfold splitAssignment
  rw [List.span_eq_takeWhile_dropWhile, hdrop]

/-- Without an equals sign nothing is assigned. -/
theorem readAssignment_of_notMem (h : '=' ∉ cs) :
    readAssignment cs = .error (.noAssignment (String.ofList cs)) := by
  unfold readAssignment
  rw [splitAssignment_of_notMem h]

/-- The name and the value are freed from blanks before they are looked at. -/
theorem readAssignment_append (h : '=' ∉ front) (back : List Char) :
    readAssignment (front ++ '=' :: back)
      = if trim front = [] then .error .noName
        else match Decimal.read (String.ofList (trim back)) with
          | .ok value => .ok (String.ofList (trim front), value)
          | .error e => .error (.refused e) := by
  unfold readAssignment
  rw [splitAssignment_append h]
  dsimp only
  cases htrim : trim front with
  | nil => rfl
  | cons c cs => rfl

/-- A text with an equals sign is one without and one behind the sign. -/
theorem exists_eq_append_of_mem (h : '=' ∈ cs) :
    ∃ front back, cs = front ++ '=' :: back ∧ '=' ∉ front :=
  List.eq_append_cons_of_mem h

/-- Trimming a text first makes no difference to what is assigned. -/
theorem readAssignment_trim_eq_ok_iff {assigned : String × Int} :
    readAssignment (trim cs) = .ok assigned ↔ readAssignment cs = .ok assigned := by
  by_cases hmem : '=' ∈ cs
  · obtain ⟨front, back, rfl, hfront⟩ := exists_eq_append_of_mem hmem
    have hstart : '=' ∉ trimStart front := fun hin =>
      hfront ((List.dropWhile_sublist isBlank).mem hin)
    rw [trim_append_cons (by decide), readAssignment_append hstart, readAssignment_append hfront,
      trim_trimStart, trim_trimEnd]
  · -- Neither of them assigns; they only differ in what is reported.
    have htrim : '=' ∉ trim cs := by
      obtain ⟨start, -, hcs⟩ := exists_append_trimStart cs
      obtain ⟨back, -, hstart⟩ := exists_trimEnd_append (trimStart cs)
      intro hin
      have hin' : '=' ∈ trimStart cs := by
        rw [hstart]
        exact List.mem_append_left back hin
      rw [hcs] at hmem
      exact hmem (List.mem_append_right start hin')
    rw [readAssignment_of_notMem hmem, readAssignment_of_notMem htrim]
    simp

/-- A text assigns a number of 64 bits to a name: the name stands before the first equals sign, is not
empty, and may have blanks around it, and a numeral for the number stands behind, likewise. -/
structure Gives (cs : List Char) (name : String) (value : Int) : Prop where
  parts : ∃ front back, cs = front ++ '=' :: back ∧ '=' ∉ front ∧
    String.ofList (trim front) = name ∧ Decimal.Denotes (String.ofList (trim back)) value
  name_ne : name ≠ ""
  inRange : Decimal.InRange value

/-- What is read off a text is what it assigns. -/
theorem readAssignment_eq_ok_iff :
    readAssignment cs = .ok (name, value) ↔ Gives cs name value := by
  by_cases hmem : '=' ∈ cs
  · obtain ⟨front, back, rfl, hfront⟩ := exists_eq_append_of_mem hmem
    rw [readAssignment_append hfront]
    constructor
    · intro h
      split at h
      · simp at h
      · rename_i hne
        cases hread : Decimal.read (String.ofList (trim back)) with
        | error e => simp [hread] at h
        | ok n =>
          obtain ⟨hname, rfl⟩ : String.ofList (trim front) = name ∧ n = value := by
            simpa [hread] using h
          obtain ⟨hdenotes, hrange⟩ := Decimal.read_eq_ok_iff.mp hread
          refine ⟨⟨front, back, rfl, hfront, hname, hdenotes⟩, ?_, hrange⟩
          rintro rfl
          exact hne (String.ofList_eq_empty_iff.mp hname)
    · rintro ⟨⟨front', back', hsplit, hfront', hname, hdenotes⟩, hne, hrange⟩
      -- The first equals sign is the same.
      have hsame := congrArg splitAssignment hsplit
      rw [splitAssignment_append hfront, splitAssignment_append hfront', Option.some.injEq,
        Prod.mk.injEq] at hsame
      obtain ⟨rfl, rfl⟩ := hsame
      have htrim : trim front ≠ [] := fun hnil => hne (by rw [← hname, hnil])
      rw [if_neg htrim, Decimal.read_eq_ok_iff.mpr ⟨hdenotes, hrange⟩, hname]
  · rw [readAssignment_of_notMem hmem]
    refine iff_of_false (by simp) ?_
    rintro ⟨⟨front, back, rfl, -⟩, -, -⟩
    exact hmem (List.mem_append_right front List.mem_cons_self)

end Reading

/-! ## Lines -/

section Lines

variable {line : List Char}

/-- Up to the next line feed, characters are kept for the line. -/
theorem linesFrom_append (h : '\n' ∉ line) (before rest : List Char) :
    linesFrom before (line ++ rest) = linesFrom (line.reverse ++ before) rest := by
  induction line generalizing before with
  | nil => rfl
  | cons c line ih =>
    have hc : c ≠ '\n' := fun heq => h (heq ▸ List.mem_cons_self)
    have hline : '\n' ∉ line := fun hmem => h (List.mem_cons_of_mem c hmem)
    have hstep : linesFrom before (c :: (line ++ rest)) = linesFrom (c :: before) (line ++ rest) := by
      rw [linesFrom.eq_4 before c _ hc]
    rw [List.cons_append, hstep, ih hline, List.reverse_cons, List.append_assoc,
      List.singleton_append]

/-- What no line feed follows is the last line, and none if it is empty. -/
theorem linesFrom_of_notMem (h : '\n' ∉ line) :
    linesFrom [] line = if line = [] then [] else [line] := by
  have hall := linesFrom_append h [] []
  rw [List.append_nil, List.append_nil] at hall
  rw [hall]
  unfold linesFrom
  simp

/-- A line feed ends a line. A carriage return in front of it would belong to the end of the line. -/
theorem linesFrom_cons (h : '\n' ∉ line) (hlast : line.getLast? ≠ some '\r') (rest : List Char) :
    linesFrom [] (line ++ '\n' :: rest) = line :: linesFrom [] rest := by
  have hkept : ∀ kept, line.reverse ≠ '\r' :: kept := by
    intro kept heq
    rw [← List.head?_reverse, heq] at hlast
    exact hlast rfl
  rw [linesFrom_append h, List.append_nil, linesFrom.eq_3 _ _ hkept, List.reverse_reverse]

/-- A text of whole lines. -/
theorem lines_join {texts : List String} (h : ∀ text ∈ texts, '\n' ∉ text.toList)
    (hlast : ∀ text ∈ texts, text.toList.getLast? ≠ some '\r') :
    lines (String.join (texts.map (· ++ "\n"))) = texts.map String.toList := by
  unfold lines
  rw [String.toList_join]
  induction texts with
  | nil => rfl
  | cons text texts ih =>
    have hrest := ih (fun t ht => h t (List.mem_cons_of_mem text ht))
      fun t ht => hlast t (List.mem_cons_of_mem text ht)
    rw [List.map_cons, List.map_cons, List.flatMap_cons, String.toList_append, List.append_assoc]
    exact (linesFrom_cons (h text List.mem_cons_self) (hlast text List.mem_cons_self) _).trans
      (congrArg _ hrest)

/-- A text of lines with line feeds between them. -/
theorem lines_intercalate {texts : List String} (h : ∀ text ∈ texts, '\n' ∉ text.toList)
    (hlast : ∀ text ∈ texts, text.toList.getLast? ≠ some '\r') (hne : ∀ text ∈ texts, text ≠ "") :
    lines ("\n".intercalate texts) = texts.map String.toList := by
  unfold lines
  rw [String.toList_intercalate]
  induction texts with
  | nil => rfl
  | cons text texts ih =>
    cases texts with
    | nil =>
      have htext : text.toList ≠ [] := fun hnil =>
        hne text List.mem_cons_self (String.toList_eq_nil_iff.mp hnil)
      rw [List.map_singleton, List.intercalate_singleton,
        linesFrom_of_notMem (h text List.mem_cons_self), if_neg htext]
    | cons next texts =>
      have hrest := ih (fun t ht => h t (List.mem_cons_of_mem text ht))
        (fun t ht => hlast t (List.mem_cons_of_mem text ht))
        fun t ht => hne t (List.mem_cons_of_mem text ht)
      rw [List.map_cons, List.map_cons, List.intercalate_cons_cons]
      rw [List.map_cons] at hrest
      rw [List.append_assoc]
      exact (linesFrom_cons (h text List.mem_cons_self) (hlast text List.mem_cons_self) _).trans
        (congrArg _ hrest)

end Lines

/-! ## One line -/

section OneLine

variable {cs : List Char} {name : String} {value : Int}

/-- Without a comment, a line is only freed from blanks. -/
theorem content_of_notMem (h : '#' ∉ cs) : content cs = trim cs := by
  have hkept : ∀ c ∈ cs, (c != '#') = true := by
    intro c hc
    exact bne_iff_ne.mpr fun heq => h (heq ▸ hc)
  unfold content
  rw [List.takeWhile_eq_self_iff.mpr hkept]

/-- A text without a line feed is read as one line, also if it is empty. -/
theorem parse_of_notMem {s : String} (h : '\n' ∉ s.toList) : parse s = parseLines 1 [s.toList] := by
  unfold parse lines
  rw [linesFrom_of_notMem h]
  split
  · rename_i hnil
    rw [hnil]
    rfl
  · rfl

/-- A line without a comment gives what is read off it with its blanks, and nothing otherwise. -/
theorem parseLines_singleton (h : '#' ∉ cs) (number : Nat) :
    (∃ name value, readAssignment cs = .ok (name, value) ∧
        parseLines number [cs] = ([⟨number, name, value⟩], [])) ∨
      (∃ problem, readAssignment cs = .error problem) ∧ (parseLines number [cs]).1 = [] := by
  unfold parseLines
  rw [content_of_notMem h]
  dsimp only
  cases hread : readAssignment cs with
  | ok assigned =>
    have htrim := readAssignment_trim_eq_ok_iff.mpr hread
    have hne : trim cs ≠ [] := fun hnil => by
      rw [hnil] at htrim
      cases htrim
    rw [if_neg (by simpa using hne), htrim]
    exact .inl ⟨assigned.1, assigned.2, rfl, rfl⟩
  | error problem =>
    refine .inr ⟨⟨problem, rfl⟩, ?_⟩
    split
    · rfl
    · cases htrim : readAssignment (trim cs) with
      | ok assigned =>
        rw [readAssignment_trim_eq_ok_iff.mp htrim] at hread
        cases hread
      | error problem' => rfl

end OneLine

/-- On a command line, a property is given a value by a text that an assignment is read off. -/
theorem store_prop (o : Options) (s : String) :
    CommandLine.store o .prop (some s)
      = match readAssignment s.toList with
        | .ok prop => .ok { o with props := o.props ++ [prop] }
        | .error _ => .error .valueValidation := by
  unfold CommandLine.store
  dsimp only
  cases readAssignment s.toList with
  | ok prop => rfl
  | error problem => rfl

/-- A text gives a property a value on a command line as it does in a settings file. -/
structure ReadAlike (s : String) : Prop where
  /-- A command line has a further value for a property exactly if it is the only setting of the
  text, in its first line, and nothing is reported. -/
  given_iff : ∀ (o : Options) (name : String) (value : Int),
    CommandLine.store o .prop (some s) = .ok { o with props := o.props ++ [(name, value)] } ↔
      parse s = ([⟨1, name, value⟩], [])
  /-- In every other case the command line is not carried out, and the text has no setting. -/
  refused : (∀ name value, parse s ≠ ([⟨1, name, value⟩], [])) →
    (∀ o : Options, CommandLine.store o .prop (some s) = .error .valueValidation) ∧
      (parse s).1 = []

/-- So it is for every text of one line without a comment. -/
theorem readAlike_of_notMem {s : String} (hcomment : '#' ∉ s.toList) (hline : '\n' ∉ s.toList) :
    ReadAlike s := by
  have hparse := parse_of_notMem hline
  rcases parseLines_singleton hcomment 1 with
    ⟨name, value, hread, hone⟩ | ⟨⟨problem, hread⟩, hnone⟩
  · rw [← hparse] at hone
    constructor
    · intro o name' value'
      rw [store_prop, hread, hone]
      simp
    · intro hother
      exact absurd hone (hother name value)
  · rw [← hparse] at hnone
    constructor
    · intro o name' value'
      rw [store_prop, hread]
      refine iff_of_false (by simp) ?_
      intro hone
      rw [hone] at hnone
      cases hnone
    · intro _
      refine ⟨fun o => ?_, hnone⟩
      rw [store_prop, hread]

/-! ## Settings in writing -/

end Settings

/-- A numeral consists of a sign, if it has one, and digits. -/
theorem Numeral.mem_text {n : Numeral} {c : Char} (h : c ∈ n.text.toList) :
    c = '+' ∨ c = '-' ∨ c.isDigit = true := by
  unfold text digitChars at h
  rw [String.toList_ofList, List.mem_append] at h
  rcases h with h | h
  · obtain ⟨sign, -, rfl⟩ := List.mem_map.mp h
    cases sign with
    | plus => exact .inl rfl
    | minus => exact .inr (.inl rfl)
  · obtain ⟨d, -, hd⟩ := List.mem_map.mp h
    exact .inr (.inr (isDigit_iff.mpr ⟨d, hd⟩))

/-- A numeral has no blanks and nothing that a line is divided at. -/
theorem Decimal.Denotes.of_mem {text : String} {n : Int} {c : Char} (h : Denotes text n)
    (hc : c ∈ text.toList) : Blank.isBlank c = false ∧ c ≠ '#' := by
  obtain ⟨numeral, rfl, -⟩ := h
  rcases Numeral.mem_text hc with rfl | rfl | hdigit
  · decide
  · decide
  · obtain ⟨d, rfl⟩ := Numeral.isDigit_iff.mp hdigit
    clear hdigit hc
    revert d
    decide

namespace Setting

/-- The line for a setting. -/
def text (s : Setting) : String :=
  s.name ++ "=" ++ Decimal.render s.value

/-- A setting that can be written down: its name is not empty, has nothing in it that a line is
divided at and no blanks at the ends, and its value has 64 bits. -/
structure Writable (s : Setting) : Prop where
  name_ne : s.name ≠ ""
  equals : '=' ∉ s.name.toList
  comment : '#' ∉ s.name.toList
  lineFeed : '\n' ∉ s.name.toList
  head : ∀ c, s.name.toList.head? = some c → Blank.isBlank c = false
  last : ∀ c, s.name.toList.getLast? = some c → Blank.isBlank c = false
  inRange : Decimal.InRange s.value

/-- Settings with the numbers of lines that follow each other. -/
def numbered (number : Nat) (settings : List Setting) : List Setting :=
  (settings.zipIdx number).map fun (s, line) => { s with line := line }

/-- The text is a name, an equals sign and a numeral. -/
theorem toList_text (s : Setting) :
    s.text.toList = s.name.toList ++ '=' :: (Decimal.render s.value).toList := by
  unfold text
  rw [String.toList_append, String.toList_append, List.append_assoc]
  rfl

namespace Writable

variable {s : Setting}

/-- The value is read off the numeral it is written with. -/
theorem denotes (h : s.Writable) : Decimal.Denotes (Decimal.render s.value) s.value :=
  (Decimal.read_eq_ok_iff.mp (Decimal.read_render_eq_ok_iff.mpr h.inRange)).1

/-- What the line has in it stands in the name or is neither a blank nor a comment sign. -/
theorem of_mem_text (h : s.Writable) {c : Char} (hc : c ∈ s.text.toList) :
    c ∈ s.name.toList ∨ Blank.isBlank c = false ∧ c ≠ '#' := by
  rw [toList_text, List.mem_append, List.mem_cons] at hc
  rcases hc with hname | rfl | hvalue
  · exact .inl hname
  · exact .inr (by decide)
  · exact .inr (h.denotes.of_mem hvalue)

/-- The text of an assignment does not start a comment. -/
theorem comment_notMem (h : s.Writable) : '#' ∉ s.text.toList := by
  intro hmem
  rcases h.of_mem_text hmem with hname | ⟨-, hne⟩
  · exact h.comment hname
  · exact hne rfl

/-- The text of an assignment is one line. -/
theorem lineFeed_notMem (h : s.Writable) : '\n' ∉ s.text.toList := by
  intro hmem
  rcases h.of_mem_text hmem with hname | ⟨hblank, -⟩
  · exact h.lineFeed hname
  · revert hblank
    decide

/-- The line begins as the name does. -/
theorem head_text (h : s.Writable) {c : Char} (hc : s.text.toList.head? = some c) :
    Blank.isBlank c = false := by
  have hname : s.name.toList ≠ [] := fun hnil => h.name_ne (String.toList_eq_nil_iff.mp hnil)
  rw [toList_text, List.head?_append_of_ne_nil _ hname] at hc
  exact h.head c hc

/-- The line ends as the numeral does. -/
theorem last_text (h : s.Writable) {c : Char} (hc : s.text.toList.getLast? = some c) :
    Blank.isBlank c = false := by
  rw [toList_text, List.getLast?_append_cons] at hc
  rcases List.mem_cons.mp (List.mem_of_getLast? hc) with rfl | hvalue
  · decide
  · exact (h.denotes.of_mem hvalue).1

/-- The line has nothing that is taken away before it is read. -/
theorem content_text (h : s.Writable) : Settings.content s.text.toList = s.text.toList := by
  rw [Settings.content_of_notMem h.comment_notMem]
  exact Blank.trim_eq_self (fun _ hc => h.head_text hc) fun _ hc => h.last_text hc

/-- The line assigns the value to the name. -/
theorem readAssignment_text (h : s.Writable) :
    Settings.readAssignment s.text.toList = .ok (s.name, s.value) := by
  have hname : Blank.trim s.name.toList = s.name.toList := Blank.trim_eq_self h.head h.last
  have hvalue : Blank.trim (Decimal.render s.value).toList = (Decimal.render s.value).toList := by
    apply Blank.trim_eq_self
    · exact fun c hc => (h.denotes.of_mem (List.mem_of_head? hc)).1
    · exact fun c hc => (h.denotes.of_mem (List.mem_of_getLast? hc)).1
  apply Settings.readAssignment_eq_ok_iff.mpr
  refine ⟨⟨_, _, toList_text s, h.equals, ?_, ?_⟩, h.name_ne, h.inRange⟩
  · rw [hname, String.ofList_toList]
  · rw [hvalue, String.ofList_toList]
    exact h.denotes

end Writable

end Setting

namespace Settings

/-- The lines for settings are read as the settings. -/
theorem parseLines_map {settings : List Setting} (h : ∀ s ∈ settings, s.Writable) (number : Nat) :
    parseLines number (settings.map (·.text.toList)) = (Setting.numbered number settings, []) := by
  induction settings generalizing number with
  | nil => rfl
  | cons s settings ih =>
    have hs := h s List.mem_cons_self
    have hrest := ih (fun s' hs' => h s' (List.mem_cons_of_mem s hs')) (number + 1)
    have hne : s.text.toList.isEmpty = false := by
      rw [Setting.toList_text]
      simp
    rw [List.map_cons]
    unfold parseLines
    rw [hrest]
    dsimp only
    rw [hs.content_text, hne, if_neg (by decide), hs.readAssignment_text]
    rfl

/-- Settings are read alike from a command line and from a settings file. A text of one line without
a comment gives a command line a value for a property exactly if it is the only setting of the text,
and is otherwise refused and no setting; and settings that are written down one on a line, with a line
feed behind each line or only between the lines, are read back in order, with the numbers of their
lines. -/
theorem assignments_read_alike :
    (∀ s : String, '#' ∉ s.toList → '\n' ∉ s.toList → ReadAlike s) ∧
    (∀ settings : List Setting, (∀ s ∈ settings, s.Writable) →
      parse (String.join (settings.map (·.text ++ "\n"))) = (Setting.numbered 1 settings, []) ∧
      parse ("\n".intercalate (settings.map Setting.text)) = (Setting.numbered 1 settings, [])) := by
  refine ⟨fun s => readAlike_of_notMem, fun settings h => ?_⟩
  have hline : ∀ text ∈ settings.map Setting.text, '\n' ∉ text.toList :=
    List.forall_mem_map.mpr fun s hs => (h s hs).lineFeed_notMem
  have hlast : ∀ text ∈ settings.map Setting.text, text.toList.getLast? ≠ some '\r' :=
    List.forall_mem_map.mpr fun s hs hc => absurd ((h s hs).last_text hc) (by decide)
  have hne : ∀ text ∈ settings.map Setting.text, text ≠ "" :=
    List.forall_mem_map.mpr fun s _ hnil => by
      have htext := Setting.toList_text s
      rw [hnil] at htext
      exact absurd htext.symm (by simp)
  have hjoin := lines_join hline hlast
  have hbetween := lines_intercalate hline hlast hne
  rw [List.map_map] at hjoin hbetween
  unfold parse
  constructor
  · rw [List.map_map] at hjoin
    exact (congrArg _ hjoin).trans (parseLines_map h 1)
  · exact (congrArg _ hbetween).trans (parseLines_map h 1)

/-- A text with blanks in every place, among them a carriage return at its end, and two settings, one
with a blank inside its name and a negative value. -/
theorem assignments_read_alike_padded :
    parse "\u2003stack size\t=\u00A0+0128 \r" = ([⟨1, "stack size", 128⟩], []) ∧
    parse "echo=1\nstack size=-128\n" = ([⟨1, "echo", 1⟩, ⟨2, "stack size", -128⟩], []) := by
  obtain ⟨halike, hwritten⟩ := assignments_read_alike
  constructor
  · have hpadded := halike "\u2003stack size\t=\u00A0+0128 \r" (by decide) (by decide)
    apply (hpadded.given_iff .none "stack size" 128).mp
    decide +kernel
  · have hecho : (⟨7, "echo", 1⟩ : Setting).Writable :=
      ⟨by decide, by decide, by decide, by decide, fun _ hc => by cases hc; decide,
        fun _ hc => by cases hc; decide, by decide⟩
    have hstack : (⟨7, "stack size", -128⟩ : Setting).Writable :=
      ⟨by decide, by decide, by decide, by decide, fun _ hc => by cases hc; decide,
        fun _ hc => by cases hc; decide, by decide⟩
    have hboth : ∀ s ∈ [(⟨7, "echo", 1⟩ : Setting), ⟨7, "stack size", -128⟩], s.Writable :=
      List.forall_mem_cons.mpr ⟨hecho, List.forall_mem_singleton.mpr hstack⟩
    exact (hwritten _ hboth).1

/-- A second equals sign belongs to the value, which it makes no number. -/
example : parse "echo=1=1" = ([], [⟨1, .refused (.notDecimal "1=1")⟩]) ∧
    CommandLine.store .none .prop (some "echo=1=1") = .error .valueValidation := by
  decide +kernel

end Settings

end TextMacro
