import Mathlib.Data.List.Nodup
import TextMacro.Proofs.Assignments

/-!
# Settings files

A settings file is taken over in two passes: its lines are read, and the settings among them are taken
over. A line can fail in either pass, and the reports of both are put in order in the end. Line by
line, this is one pass: what becomes of a line depends on the line only (`Settings.outcome`), because
whether a property may have a value does not depend on the values there are (`Properties.set_eq`). The
properties, the settings taken over and the reports are those of the outcomes in order
(`Settings.Pass.of_lines`), where the reports come up in another order and are put in this one by
sorting (`Settings.mergeSort_eq`). From there, what is said of a line by its number is said of its
outcome (`Settings.filter_collect`), and a property has the value from the last line that gives it one
(`Settings.value_foldl`).
-/

namespace TextMacro

/-! ## Properties -/

/-- Properties are told apart by their names. -/
theorem Property.ofName?_eq_some_iff {name : String} {p : Property} :
    ofName? name = some p ↔ p.name = name := by
  constructor
  · intro h
    simpa using List.find?_some h
  · rintro rfl
    cases p <;> decide

namespace Properties

/-- The property that can be given a value by a name. -/
def accepted (name : String) (value : Int) : Except Error Property := do
  let p ← named name
  if p.allows value then .ok p else .error (.outOfRange name value)

/-- Whether a value is accepted does not depend on the values there are. -/
theorem set_eq (ps : Properties) (name : String) (value : Int) :
    ps.set name value = (ps.put · value) <$> accepted name value := by
  unfold set accepted
  cases named name with
  | error e => rfl
  | ok p =>
    show (if p.allows value then _ else _) = _ <$> (if p.allows value then _ else _)
    split <;> rfl

/-- A property is given the values in its range, by its name. -/
theorem accepted_eq_ok_iff {name : String} {value : Int} {p : Property} :
    accepted name value = .ok p ↔ p.name = name ∧ p.least ≤ value ∧ value ≤ p.greatest := by
  unfold accepted named
  rw [← Property.ofName?_eq_some_iff]
  cases Property.ofName? name with
  | none => simp [bind, Except.bind]
  | some q =>
    show (if q.allows value then _ else _) = _ ↔ _
    rw [Option.some.injEq]
    constructor
    · intro h
      split at h
      · rename_i hallows
        cases h
        exact ⟨rfl, by simpa [Property.allows] using hallows⟩
      · cases h
    · rintro ⟨rfl, hrange⟩
      rw [if_pos (by simpa [Property.allows] using hrange)]

/-- A value that is put in place of another leaves the other properties alone. -/
theorem value_put (ps : Properties) (p q : Property) (value : Int) :
    (ps.put p value).value q = if p = q then value else ps.value q := by
  cases p <;> cases q <;> rfl

end Properties

namespace Settings

/-! ## What becomes of a line -/

/-- What becomes of a line. -/
inductive Outcome where
  /-- There is nothing on it. -/
  | vacant
  /-- It gives a property a value. -/
  | taken (p : Property) (value : Int)
  /-- It is reported. -/
  | refused (problem : SettingProblem)

namespace Outcome

/-- The setting that is taken over, from the line with a number. -/
def setting? (line : Nat) : Outcome → Option Setting
  | taken p value => some ⟨line, p.name, value⟩
  | _ => none

/-- The report, of the line with a number. -/
def report? (line : Nat) : Outcome → Option RefusedLine
  | refused problem => some ⟨line, problem⟩
  | _ => none

/-- The properties after it. -/
def update (ps : Properties) : Outcome → Properties
  | taken p value => ps.put p value
  | _ => ps

/-- A setting is that of the line it was read from. -/
theorem line_setting? (line : Nat) (o : Outcome) (s : Setting) (h : o.setting? line = some s) :
    s.line = line := by
  cases o with
  | taken p value => cases h; rfl
  | _ => cases h

/-- A report is about the line that was refused. -/
theorem line_report? (line : Nat) (o : Outcome) (r : RefusedLine) (h : o.report? line = some r) :
    r.line = line := by
  cases o with
  | refused problem => cases h; rfl
  | _ => cases h

end Outcome

/-- What becomes of a line, whatever the properties are. -/
def outcome (line : List Char) : Outcome :=
  if (content line).isEmpty then .vacant
  else
    match readAssignment (content line) with
    | .error problem => .refused problem
    | .ok (name, value) =>
      match Properties.accepted name value with
      | .ok p => .taken p value
      | .error e => .refused (.refused e)

/-- A line gives a property a value of its range: in front of a comment, it assigns the value to the
name of the property. -/
structure Assigns (line : List Char) (p : Property) (value : Int) : Prop where
  gives : Gives (line.takeWhile (· != '#')) p.name value
  least : p.least ≤ value
  greatest : value ≤ p.greatest

/-- A line has nothing but blanks in front of a comment. -/
def Vacant (line : List Char) : Prop :=
  ∀ c ∈ line.takeWhile (· != '#'), Blank.isBlank c = true

section OneLine

variable {line : List Char} {p : Property} {value : Int}

/-- Nothing becomes of the lines that have nothing on them, and of no others. -/
theorem outcome_eq_vacant_iff : outcome line = .vacant ↔ Vacant line := by
  have hcontent : content line = [] ↔ Vacant line := Blank.trim_eq_nil_iff
  rw [← hcontent]
  unfold outcome
  constructor
  · intro h
    split at h
    · rename_i hempty
      exact List.isEmpty_iff.mp hempty
    · split at h
      · cases h
      · split at h <;> cases h
  · intro h
    rw [if_pos (List.isEmpty_iff.mpr h)]

/-- What is read off a line is what it assigns. -/
theorem readAssignment_content_iff {name : String} :
    readAssignment (content line) = .ok (name, value) ↔
      Gives (line.takeWhile (· != '#')) name value :=
  readAssignment_trim_eq_ok_iff.trans readAssignment_eq_ok_iff

/-- The lines that give a property a value are those that assign it one of its range. -/
theorem outcome_eq_taken_iff : outcome line = .taken p value ↔ Assigns line p value := by
  constructor
  · intro h
    unfold outcome at h
    split at h
    · cases h
    · split at h
      · cases h
      · rename_i name value' hread
        split at h
        · rename_i p' haccepted
          cases h
          obtain ⟨hname, hleast, hgreatest⟩ := Properties.accepted_eq_ok_iff.mp haccepted
          exact ⟨hname ▸ readAssignment_content_iff.mp hread, hleast, hgreatest⟩
        · cases h
  · rintro ⟨hgives, hleast, hgreatest⟩
    have hread := readAssignment_content_iff.mpr hgives
    have haccepted : Properties.accepted p.name value = .ok p :=
      Properties.accepted_eq_ok_iff.mpr ⟨rfl, hleast, hgreatest⟩
    have hne : content line ≠ [] := fun hnil => by
      rw [hnil] at hread
      cases hread
    unfold outcome
    rw [if_neg (by simpa using hne), hread]
    dsimp only
    rw [haccepted]

end OneLine

/-! ## One pass -/

/-- What lines give rise to, where the first has the number `number`. -/
def collect {β : Type} (f : Nat → Outcome → Option β) (number : Nat) (lines : List (List Char)) :
    List β :=
  (lines.zipIdx number).filterMap fun numbered => f numbered.2 (outcome numbered.1)

section Collect

variable {β : Type} {f : Nat → Outcome → Option β} {key : β → Nat} {number : Nat}
  {before after lines : List (List Char)} {line : List Char}

/-- What the first line gives comes before what the others give. -/
theorem collect_cons : collect f number (line :: lines)
    = (f number (outcome line)).toList ++ collect f (number + 1) lines := by
  unfold collect
  rw [List.zipIdx_cons, List.filterMap_cons]
  dsimp only
  cases f number (outcome line) <;> rfl

/-- What some lines give comes before what the lines behind them give. -/
theorem collect_append : collect f number (before ++ after)
    = collect f number before ++ collect f (number + before.length) after := by
  unfold collect
  rw [List.zipIdx_append, List.filterMap_append]

/-- What has the numbers of lines has those of the lines it comes from. -/
theorem mem_collect (hkey : ∀ n o b, f n o = some b → key b = n) {b : β}
    (h : b ∈ collect f number lines) :
    ∃ before line after, lines = before ++ line :: after ∧ key b = number + before.length := by
  induction lines generalizing number with
  | nil => cases h
  | cons line lines ih =>
    rw [collect_cons, List.mem_append, Option.mem_toList] at h
    rcases h with h | h
    · exact ⟨[], line, lines, rfl, hkey _ _ _ h⟩
    · obtain ⟨before, line', after, rfl, hb⟩ := ih h
      refine ⟨line :: before, line', after, rfl, ?_⟩
      rw [hb, List.length_cons]
      omega

/-- It comes in the order of the lines, and once for each. -/
theorem pairwise_collect (hkey : ∀ n o b, f n o = some b → key b = n) :
    (collect f number lines).Pairwise (key · < key ·) := by
  induction lines generalizing number with
  | nil => exact List.Pairwise.nil
  | cons line lines ih =>
    rw [collect_cons]
    refine List.pairwise_append.mpr ⟨?_, ih, fun a ha b hb => ?_⟩
    · cases f number (outcome line) with
      | none => exact List.Pairwise.nil
      | some b => exact List.pairwise_singleton _ b
    · obtain ⟨before, -, -, -, hb⟩ := mem_collect hkey hb
      rw [hkey _ _ _ (Option.mem_toList.mp ha), hb]
      omega

/-- What has the number of a line is what this line gives rise to. -/
theorem filter_collect (hkey : ∀ n o b, f n o = some b → key b = n) :
    (collect f number (before ++ line :: after)).filter (key · == number + before.length)
      = (f (number + before.length) (outcome line)).toList := by
  have hbefore : (collect f number before).filter (key · == number + before.length) = [] := by
    apply List.filter_eq_nil_iff.mpr
    intro b hb heq
    obtain ⟨front, line', back, rfl, hfront⟩ := mem_collect hkey hb
    rw [beq_iff_eq, hfront, List.length_append, List.length_cons] at heq
    omega
  have hafter : (collect f (number + before.length + 1) after).filter
      (key · == number + before.length) = [] := by
    apply List.filter_eq_nil_iff.mpr
    intro b hb heq
    obtain ⟨front, -, -, -, hfront⟩ := mem_collect hkey hb
    rw [beq_iff_eq, hfront] at heq
    omega
  have hline : (f (number + before.length) (outcome line)).toList.filter
      (key · == number + before.length) = (f (number + before.length) (outcome line)).toList := by
    apply List.filter_eq_self.mpr
    intro b hb
    exact beq_iff_eq.mpr (hkey _ _ _ (Option.mem_toList.mp hb))
  rw [collect_append, collect_cons, List.filter_append, List.filter_append, hbefore, hline, hafter,
    List.nil_append, List.append_nil]

end Collect

/-- The settings that are taken over when settings are taken over in order. -/
def applied (ps : Properties) : List Setting → List Setting
  | [] => []
  | setting :: rest =>
    match ps.set setting.name setting.value with
    | .ok ps => setting :: applied ps rest
    | .error _ => applied ps rest

section Apply

variable (ps : Properties) (line : Nat) (settings : List Setting) {name : String} {value : Int}

/-- A setting that is accepted. -/
theorem apply_cons_of_ok {p : Property} (h : Properties.accepted name value = .ok p) :
    apply ps (⟨line, name, value⟩ :: settings) = apply (ps.put p value) settings ∧
      applied ps (⟨line, name, value⟩ :: settings)
        = ⟨line, name, value⟩ :: applied (ps.put p value) settings := by
  have hset : ps.set name value = .ok (ps.put p value) := by
    rw [Properties.set_eq, h]
    rfl
  constructor
  · rw [apply, hset]
  · rw [applied, hset]

/-- A setting that is refused. -/
theorem apply_cons_of_error {e : Error} (h : Properties.accepted name value = .error e) :
    apply ps (⟨line, name, value⟩ :: settings)
        = ((apply ps settings).1, ⟨line, .refused e⟩ :: (apply ps settings).2) ∧
      applied ps (⟨line, name, value⟩ :: settings) = applied ps settings := by
  have hset : ps.set name value = .error e := by
    rw [Properties.set_eq, h]
    rfl
  constructor
  · rw [apply, hset]
  · rw [applied, hset]

/-- A setting is taken over or reported with its line. -/
theorem applied_or_refused {settings : List Setting} {s : Setting} (h : s ∈ settings) :
    s ∈ applied ps settings ∨ ∃ r ∈ (apply ps settings).2, r.line = s.line := by
  induction settings generalizing ps with
  | nil => cases h
  | cons setting settings ih =>
    obtain ⟨line, name, value⟩ := setting
    cases haccepted : Properties.accepted name value with
    | ok p =>
      obtain ⟨happly, happlied⟩ := apply_cons_of_ok ps line settings haccepted
      rw [happly, happlied]
      rcases List.mem_cons.mp h with rfl | hrest
      · exact .inl List.mem_cons_self
      · exact (ih _ hrest).imp (List.mem_cons_of_mem _) id
    | error e =>
      obtain ⟨happly, happlied⟩ := apply_cons_of_error ps line settings haccepted
      rw [happly, happlied]
      rcases List.mem_cons.mp h with rfl | hrest
      · exact .inr ⟨_, List.mem_cons_self, rfl⟩
      · rcases ih ps hrest with happlied | ⟨r, hr, hline⟩
        · exact .inl happlied
        · exact .inr ⟨r, List.mem_cons_of_mem _ hr, hline⟩

end Apply

section Line

variable (number : Nat) {line : List Char} (lines : List (List Char))

/-- A line with nothing on it is passed over. -/
theorem parseLines_cons_of_vacant (h : content line = []) :
    parseLines number (line :: lines) = parseLines (number + 1) lines ∧ outcome line = .vacant := by
  constructor
  · rw [parseLines, h]
    rfl
  · exact outcome_eq_vacant_iff.mpr (Blank.trim_eq_nil_iff.mp h)

/-- A line that assigns nothing is reported. -/
theorem parseLines_cons_of_error (hne : content line ≠ []) {problem : SettingProblem}
    (hread : readAssignment (content line) = .error problem) :
    parseLines number (line :: lines) = ((parseLines (number + 1) lines).1,
        ⟨number, problem⟩ :: (parseLines (number + 1) lines).2) ∧
      outcome line = .refused problem := by
  have hempty : ¬ (content line).isEmpty = true := by simpa using hne
  constructor
  · rw [parseLines]
    dsimp only
    rw [if_neg hempty, hread]
  · rw [outcome, if_neg hempty, hread]

/-- A line that assigns a value to a name is a setting, whether or not it is accepted. -/
theorem parseLines_cons_of_ok (hne : content line ≠ []) {name : String} {value : Int}
    (hread : readAssignment (content line) = .ok (name, value)) :
    parseLines number (line :: lines) = (⟨number, name, value⟩ :: (parseLines (number + 1) lines).1,
        (parseLines (number + 1) lines).2) ∧
      outcome line = match Properties.accepted name value with
        | .ok p => .taken p value
        | .error e => .refused (.refused e) := by
  have hempty : ¬ (content line).isEmpty = true := by simpa using hne
  constructor
  · rw [parseLines]
    dsimp only
    rw [if_neg hempty, hread]
  · rw [outcome, if_neg hempty, hread]

end Line

/-- Both passes over lines take the first of them for what becomes of it. A report of the second pass
comes up behind those of the first. -/
theorem passes_cons (ps : Properties) (number : Nat) (line : List Char) (lines : List (List Char)) :
    (apply ps (parseLines number (line :: lines)).1).1
        = (apply ((outcome line).update ps) (parseLines (number + 1) lines).1).1 ∧
    applied ps (parseLines number (line :: lines)).1
        = ((outcome line).setting? number).toList
          ++ applied ((outcome line).update ps) (parseLines (number + 1) lines).1 ∧
    ((parseLines number (line :: lines)).2
        ++ (apply ps (parseLines number (line :: lines)).1).2).Perm
      (((outcome line).report? number).toList ++ ((parseLines (number + 1) lines).2
        ++ (apply ((outcome line).update ps) (parseLines (number + 1) lines).1).2)) := by
  by_cases hvacant : content line = []
  · obtain ⟨hparse, houtcome⟩ := parseLines_cons_of_vacant number lines hvacant
    rw [hparse, houtcome]
    exact ⟨rfl, rfl, List.Perm.refl _⟩
  cases hread : readAssignment (content line) with
  | error problem =>
    obtain ⟨hparse, houtcome⟩ := parseLines_cons_of_error number lines hvacant hread
    rw [hparse, houtcome]
    exact ⟨rfl, rfl, List.Perm.refl _⟩
  | ok assigned =>
    obtain ⟨name, value⟩ := assigned
    obtain ⟨hparse, houtcome⟩ := parseLines_cons_of_ok number lines hvacant hread
    rw [hparse, houtcome]
    cases haccepted : Properties.accepted name value with
    | ok p =>
      obtain ⟨rfl, -⟩ := Properties.accepted_eq_ok_iff.mp haccepted
      obtain ⟨happly, happlied⟩ := apply_cons_of_ok ps number _ haccepted
      rw [happly, happlied]
      exact ⟨rfl, rfl, List.Perm.refl _⟩
    | error e =>
      obtain ⟨happly, happlied⟩ := apply_cons_of_error ps number _ haccepted
      rw [happly, happlied]
      exact ⟨rfl, rfl, List.perm_middle⟩

/-- What the two passes over lines come to. -/
structure Pass (ps : Properties) (number : Nat) (lines : List (List Char)) : Prop where
  properties : (apply ps (parseLines number lines).1).1
    = lines.foldl (fun ps line => (outcome line).update ps) ps
  settings : applied ps (parseLines number lines).1
    = collect (fun n o => o.setting? n) number lines
  reports : ((parseLines number lines).2 ++ (apply ps (parseLines number lines).1).2).Perm
    (collect (fun n o => o.report? n) number lines)

/-- They come to the outcomes of the lines. -/
theorem Pass.of_lines (ps : Properties) (number : Nat) (lines : List (List Char)) :
    Pass ps number lines := by
  induction lines generalizing ps number with
  | nil => exact ⟨rfl, rfl, List.Perm.refl _⟩
  | cons line lines ih =>
    obtain ⟨hproperties, hsettings, hreports⟩ := passes_cons ps number line lines
    have hrest := ih ((outcome line).update ps) (number + 1)
    constructor
    · rw [hproperties, List.foldl_cons]
      exact hrest.properties
    · rw [hsettings, collect_cons, hrest.settings]
    · rw [collect_cons]
      exact hreports.trans (hrest.reports.append_left _)

/-- Reports of different lines are sorted if they are in the order of their lines. -/
theorem mergeSort_eq {reports sorted : List RefusedLine} (hperm : reports.Perm sorted)
    (hsorted : sorted.Pairwise (·.line < ·.line)) :
    (reports.mergeSort fun a b => a.line ≤ b.line) = sorted := by
  have hle : (reports.mergeSort fun a b => a.line ≤ b.line).Pairwise (·.line ≤ ·.line) := by
    have hmerge : (reports.mergeSort fun a b => a.line ≤ b.line).Pairwise
        fun a b => decide (a.line ≤ b.line) = true := by
      apply List.pairwise_mergeSort
      · intro a b c hab hbc
        rw [decide_eq_true_eq] at hab hbc ⊢
        exact Nat.le_trans hab hbc
      · intro a b
        rw [Bool.or_eq_true, decide_eq_true_eq, decide_eq_true_eq]
        exact Nat.le_total a.line b.line
    simpa using hmerge
  have hmerged := (List.mergeSort_perm reports fun a b => a.line ≤ b.line).trans hperm
  have hnodup : (sorted.map (·.line)).Nodup :=
    List.pairwise_map.mpr (hsorted.imp fun hlt => Nat.ne_of_lt hlt)
  refine List.Perm.eq_of_pairwise ?_ hle (hsorted.imp fun hlt => Nat.le_of_lt hlt) hmerged
  intro a b ha hb hab hba
  exact List.inj_on_of_nodup_map hnodup (hmerged.mem_iff.mp ha) hb (Nat.le_antisymm hab hba)

/-- A text is taken over line by line. -/
theorem applyText_eq (ps : Properties) (text : String) :
    applyText ps text = ((lines text).foldl (fun ps line => (outcome line).update ps) ps,
      collect (fun n o => o.report? n) 1 (lines text)) := by
  have hpass := Pass.of_lines ps 1 (lines text)
  have hsorted := mergeSort_eq hpass.reports (pairwise_collect Outcome.line_report?)
  exact Prod.ext hpass.properties hsorted

/-! ## The last line counts -/

/-- A property has the value that the last of the lines gives it that give it one, and else the value
it had. -/
theorem value_foldl (ps : Properties) (p : Property) (lines : List (List Char)) :
    (∃ before line after, lines = before ++ line :: after ∧
      Assigns line p ((lines.foldl (fun ps line => (outcome line).update ps) ps).value p) ∧
      ∀ later ∈ after, ∀ value, ¬ Assigns later p value) ∨
    ((∀ line ∈ lines, ∀ value, ¬ Assigns line p value) ∧
      (lines.foldl (fun ps line => (outcome line).update ps) ps).value p = ps.value p) := by
  induction lines generalizing ps with
  | nil => exact .inr ⟨fun _ hmem => absurd hmem List.not_mem_nil, rfl⟩
  | cons line lines ih =>
    rw [List.foldl_cons]
    rcases ih ((outcome line).update ps) with
      ⟨before, last, after, rfl, hassigns, hafter⟩ | ⟨hnone, hvalue⟩
    · exact .inl ⟨line :: before, last, after, rfl, hassigns, hafter⟩
    · -- No later line counts, so that this one does if it gives the property a value.
      rw [hvalue]
      by_cases hassigns : ∃ value, Assigns line p value
      · obtain ⟨value, hassigns⟩ := hassigns
        have hput : ((outcome line).update ps).value p = value := by
          rw [outcome_eq_taken_iff.mpr hassigns]
          exact (Properties.value_put ps p p value).trans (if_pos rfl)
        exact .inl ⟨[], line, lines, rfl, hput.symm ▸ hassigns, hnone⟩
      · refine .inr ⟨?_, ?_⟩
        · intro line' hmem value hassigns'
          rcases List.mem_cons.mp hmem with rfl | hmem
          · exact hassigns ⟨value, hassigns'⟩
          · exact hnone line' hmem value hassigns'
        · cases houtcome : outcome line with
          | vacant => rfl
          | refused problem => rfl
          | taken q value =>
            have hne : q ≠ p := by
              rintro rfl
              exact hassigns ⟨value, outcome_eq_taken_iff.mp houtcome⟩
            exact (Properties.value_put ps q p value).trans (if_neg hne)

/-! ## Every line is accounted for -/

/-- What a text does to properties `ps`, which it turns into `ps'`, and what is reported of it. -/
structure Accounts (ps : Properties) (text : String) (ps' : Properties)
    (reported : List RefusedLine) : Prop where
  /-- A line with nothing in front of a comment is no setting and is not reported. -/
  vacant : ∀ before line after, lines text = before ++ line :: after → Vacant line →
    (∀ s ∈ (parse text).1, s.line ≠ before.length + 1) ∧
      ∀ r ∈ reported, r.line ≠ before.length + 1
  /-- Any other line is either one setting that is taken over, namely if it gives a property a value
  of its range, or reported once, with its number. -/
  occupied : ∀ before line after, lines text = before ++ line :: after → ¬ Vacant line →
    (∃ p value, Assigns line p value ∧
      (applied ps (parse text).1).filter (·.line == before.length + 1)
        = [⟨before.length + 1, p.name, value⟩] ∧
      reported.filter (·.line == before.length + 1) = []) ∨
    (∃ problem, (∀ p value, ¬ Assigns line p value) ∧
      (applied ps (parse text).1).filter (·.line == before.length + 1) = [] ∧
      reported.filter (·.line == before.length + 1) = [⟨before.length + 1, problem⟩])
  /-- Nothing else is reported. -/
  within : ∀ r ∈ reported, ∃ before line after,
    lines text = before ++ line :: after ∧ r.line = before.length + 1
  increasing : reported.Pairwise (·.line < ·.line)
  /-- The last line that gives a property a value of its range counts. Without one, the property
  stays as it is. -/
  value : ∀ p : Property,
    (∃ before line after, lines text = before ++ line :: after ∧ Assigns line p (ps'.value p) ∧
      ∀ later ∈ after, ∀ value, ¬ Assigns later p value) ∨
    ((∀ line ∈ lines text, ∀ value, ¬ Assigns line p value) ∧ ps'.value p = ps.value p)

/-- What has the number of a line is told by what becomes of it. -/
theorem filter_of_lines (ps : Properties) {text : String} {before after : List (List Char)}
    {line : List Char} (hlines : lines text = before ++ line :: after) :
    (applied ps (parse text).1).filter (·.line == before.length + 1)
        = ((outcome line).setting? (before.length + 1)).toList ∧
      (applyText ps text).2.filter (·.line == before.length + 1)
        = ((outcome line).report? (before.length + 1)).toList := by
  have hpass := Pass.of_lines ps 1 (lines text)
  have hsettings : applied ps (parse text).1 = collect (fun n o => o.setting? n) 1 (lines text) :=
    hpass.settings
  rw [hsettings, applyText_eq, hlines, Nat.add_comm before.length 1]
  exact ⟨filter_collect Outcome.line_setting?, filter_collect Outcome.line_report?⟩

section Accounted

variable (ps : Properties) {text : String} {before after : List (List Char)} {line : List Char}

/-- A line with nothing in front of a comment has no part in it. -/
theorem vacant_of_lines (hlines : lines text = before ++ line :: after) (hvacant : Vacant line) :
    (∀ s ∈ (parse text).1, s.line ≠ before.length + 1) ∧
      ∀ r ∈ (applyText ps text).2, r.line ≠ before.length + 1 := by
  obtain ⟨hsettings, hreports⟩ := filter_of_lines ps hlines
  rw [outcome_eq_vacant_iff.mpr hvacant] at hsettings hreports
  have happlied : ∀ s ∈ applied ps (parse text).1, s.line ≠ before.length + 1 := by
    simpa [Outcome.setting?] using hsettings
  have hreported : ∀ r ∈ (applyText ps text).2, r.line ≠ before.length + 1 := by
    simpa [Outcome.report?] using hreports
  refine ⟨fun s hs => ?_, hreported⟩
  rcases applied_or_refused ps hs with hs | ⟨r, hr, hline⟩
  · exact happlied s hs
  · have hmem : r ∈ (applyText ps text).2 := List.mem_mergeSort.mpr (List.mem_append_right _ hr)
    rw [← hline]
    exact hreported r hmem

/-- Any other line is taken over or reported, as what becomes of it says. -/
theorem occupied_of_lines (hlines : lines text = before ++ line :: after)
    (hoccupied : ¬ Vacant line) :
    (∃ p value, Assigns line p value ∧
      (applied ps (parse text).1).filter (·.line == before.length + 1)
        = [⟨before.length + 1, p.name, value⟩] ∧
      (applyText ps text).2.filter (·.line == before.length + 1) = []) ∨
    (∃ problem, (∀ p value, ¬ Assigns line p value) ∧
      (applied ps (parse text).1).filter (·.line == before.length + 1) = [] ∧
      (applyText ps text).2.filter (·.line == before.length + 1)
        = [⟨before.length + 1, problem⟩]) := by
  obtain ⟨hsettings, hreports⟩ := filter_of_lines ps hlines
  cases houtcome : outcome line with
  | vacant => exact absurd (outcome_eq_vacant_iff.mp houtcome) hoccupied
  | taken p value =>
    rw [houtcome] at hsettings hreports
    exact .inl ⟨p, value, outcome_eq_taken_iff.mp houtcome, hsettings, hreports⟩
  | refused problem =>
    rw [houtcome] at hsettings hreports
    refine .inr ⟨problem, fun p value hassigns => ?_, hsettings, hreports⟩
    rw [outcome_eq_taken_iff.mpr hassigns] at houtcome
    cases houtcome

end Accounted

/-- Every line of a settings file is accounted for once, and the last line that can be used counts: so
it is for every text and all properties. A file that can be read is taken over as its text is, and if
one cannot, nothing is. -/
theorem every_line_accounted_for (ps : Properties) :
    (∀ text : String, Accounts ps text (applyText ps text).1 (applyText ps text).2) ∧
    ∀ (files : Files) (path : String),
      load files path ps = (applyText ps ·) <$> (files.readText path).mapError (Error.io path) := by
  constructor
  · intro text
    constructor
    · exact fun before line after => vacant_of_lines ps
    · exact fun before line after => occupied_of_lines ps
    · intro r hr
      rw [applyText_eq] at hr
      obtain ⟨before, line, after, hlines, hnumber⟩ := mem_collect Outcome.line_report? hr
      exact ⟨before, line, after, hlines, by rw [hnumber, Nat.add_comm]⟩
    · rw [applyText_eq]
      exact pairwise_collect Outcome.line_report?
    · intro p
      rw [applyText_eq]
      exact value_foldl ps p (lines text)
  · intro files path
    unfold load
    cases files.readText path <;> rfl

/-- The sixth line counts and not the second. Three are reported, each for another reason. -/
example : applyText .initial
    "# first\nstacksize = 8\nstacksize=0\njunk\n \nstacksize=+16 # last\nbogus=1\n"
      = (⟨16, 100000, 1, 0⟩, [⟨3, .refused (.outOfRange "stacksize" 0)⟩, ⟨4, .noAssignment "junk"⟩,
        ⟨7, .refused (.unknownProperty "bogus")⟩]) := by
  rw [applyText_eq]
  decide +kernel

end Settings

end TextMacro
