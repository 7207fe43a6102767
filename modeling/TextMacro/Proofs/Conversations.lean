import TextMacro.Proofs.Budget
import TextMacro.Proofs.Exits
import TextMacro.Proofs.Outside
import TextMacro.Proofs.Pieces

/-!
# Interactive sessions

An interactive session takes programs off the standard input and runs them, until one exits or
nothing is left. `Conversation` says what such a session comes to over a text, without the loop: the
next program is the piece that the text is cut into by the terminator in force, and the session goes
on over the rest, whether the program has succeeded or failed.

Programs that are given another stream to read from do not reach the standard input
(`outside_evaluate`), so that what one program leaves of the text is what the next is cut from
(`Attends`). Each piece uses up some of the text. So every text has a conversation
(`Attends.exists_conversation`), and the loop comes to what it says (`Conversation.settles`).
-/

namespace TextMacro

/-! ## The standard input between programs -/

namespace Session

variable {s s' : Session}

/-- With the same outside, programs read from a stream of their own as before, and the standard
input is as it was. -/
theorem stdin_of_outside (hsame : s'.outside = s.outside)
    (hseparate : s.streams.rsInput.isSome) :
    s'.streams.rsInput.isSome ∧ s'.streams.stdin = s.streams.stdin := by
  have hstdin : s'.streams.rsInput.map (fun _ => s'.streams.stdin)
      = s.streams.rsInput.map fun _ => s.streams.stdin :=
    congrArg Outside.stdin? hsame
  obtain ⟨source, hsource⟩ := Option.isSome_iff_exists.mp hseparate
  rw [hsource, Option.map_some, Option.map_eq_some_iff] at hstdin
  obtain ⟨source', hsource', heq⟩ := hstdin
  exact ⟨Option.isSome_iff_exists.mpr ⟨source', hsource'⟩, heq⟩

/-- With the same outside, the outputs go to the files that they went to, and can be written to as
before. -/
theorem output_of_outside (hsame : s'.outside = s.outside) (output : Output) :
    (s'.streams.get output).writable = (s.streams.get output).writable ∧
      (s'.streams.get output).target? = (s.streams.get output).target? :=
  ⟨congrFun (congrArg Outside.writable hsame) output,
    congrFun (congrArg Outside.target? hsame) output⟩

/-- With the same outside, a file that no output goes to has the content that it had. -/
theorem contentAt_of_outside {place : Place} (hsame : s'.outside = s.outside)
    (hfree : ∀ output, (s.streams.get output).target? ≠ some place) :
    s'.files.contentAt place = s.files.contentAt place := by
  have hcontent : s'.outside.content? place = s.outside.content? place :=
    congrFun (congrArg Outside.content? hsame) place
  have hfree' : ∀ output, (s'.streams.get output).target? ≠ some place := fun output =>
    (output_of_outside hsame output).2 ▸ hfree output
  have hkept : ¬ (s.streams.stdout.target? = some place ∨ s.streams.stderr.target? = some place) :=
    not_or.mpr ⟨hfree .stdout, hfree .stderr⟩
  have hkept' :
      ¬ (s'.streams.stdout.target? = some place ∨ s'.streams.stderr.target? = some place) :=
    not_or.mpr ⟨hfree' .stdout, hfree' .stderr⟩
  unfold outside at hcontent
  dsimp only at hcontent
  rw [if_neg hkept, if_neg hkept'] at hcontent
  exact Option.some.inj hcontent

end Session

namespace Interpreter

/-- An interpreter has a text to take programs from. -/
structure Attends (t : Interpreter) (text : List Char) : Prop where
  /-- Programs are given a stream of their own to read from. -/
  separate : t.session.streams.rsInput.isSome
  /-- Both outputs can be written to. -/
  writable : ∀ output, (t.session.streams.get output).writable = .ok ()
  /-- Nothing is printed to the file that the standard input comes from, so that what is left of it
  does not grow. -/
  apart : ∀ place, t.session.streams.stdin.origin? = some place →
    ∀ output, (t.session.streams.get output).target? ≠ some place
  /-- The standard input has the text left, with its newlines folded. -/
  reads : Stream.Reads t.session.files t.session.streams.stdin text

/-- The interpreter with a stream as its standard input. -/
def withStdin (t : Interpreter) (stdin : Stream) : Interpreter :=
  { t with session := { t.session with streams := { t.session.streams with stdin } } }

/-- Prints a text. -/
def printing (t : Interpreter) (output : Output) (text : String) : Interpreter :=
  { t with session := t.session.print output text }

/-- Prints the text that a program has left if that is asked for. -/
def shown (t : Interpreter) (text : String) : Interpreter :=
  if t.session.props.showFinal && !text.isEmpty then t.printing .stdout text else t

namespace Attends

variable {t u : Interpreter} {text rest : List Char}

/-- What leaves the outside as it is leaves the text. -/
theorem of_outside (h : t.Attends text)
    (hsame : u.session.outside = t.session.outside) : u.Attends text := by
  obtain ⟨hseparate, hstdin⟩ := Session.stdin_of_outside hsame h.separate
  have houtput := Session.output_of_outside hsame
  refine ⟨hseparate, fun output => (houtput output).1.trans (h.writable output), ?_, ?_⟩
  · intro place horigin output
    rw [(houtput output).2]
    exact h.apart place (hstdin ▸ horigin) output
  · rw [hstdin]
    refine h.reads.congr (Stream.bytes_congr fun place horigin => ?_)
    exact Session.contentAt_of_outside hsame (h.apart place horigin)

/-- Printing leaves the text that is waiting to be read. -/
theorem printing (h : t.Attends text) (output : Output) (printed : String) :
    (t.printing output printed).Attends text :=
  h.of_outside (Session.outside_print t.session output printed)

/-- Showing what a program leaves does not read anything. -/
theorem shown (h : t.Attends text) (output : String) : (t.shown output).Attends text := by
  unfold Interpreter.shown
  split
  · exact h.printing .stdout output
  · exact h

end Attends

/-! ## Taking a program -/

/-- The next program is taken off the text, and nothing else is changed. -/
structure Takes (t : Interpreter) (text : List Char) (program : String) (rest : List Char)
    (u : Interpreter) : Prop where
  /-- It is what the text is cut into by the terminator in force. -/
  cut : Stream.Cut t.session.chars.readEnd text program.toList rest
  read : t.act (Action.readStdin (Stream.readUntil · t.session.chars.readEnd)) =
    (.ok (some program), u)
  attends : u.Attends rest
  others : ∃ stdin, u = t.withStdin stdin

/-- The outputs do not depend on the standard input. -/
theorem get_withStdin (t : Interpreter) (stdin : Stream) (output : Output) :
    (t.withStdin stdin).session.streams.get output = t.session.streams.get output := by
  cases output with
  | stdout => rfl
  | stderr => rfl

/-- A read from the standard input changes nothing else. -/
theorem act_readStdin {α : Type} {t : Interpreter} {reader : Files → Stream.Reader α} {a : α}
    {stdin : Stream} (h : reader t.session.files t.session.streams.stdin = .ok a stdin) :
    t.act (Action.readStdin reader) = (.ok a, t.withStdin stdin) := by
  unfold act Action.readStdin
  rw [h]
  rfl

namespace Attends

variable {t : Interpreter} {text piece rest : List Char}

/-- Wherever the text is cut, that piece is the next program. -/
theorem exists_takes (h : t.Attends text)
    (hcut : Stream.Cut t.session.chars.readEnd text piece rest) :
    ∃ u, t.Takes text (String.ofList piece) rest u := by
  obtain ⟨stdin, hread, hleft, hhandle⟩ := h.reads.readUntil_of_cut hcut
  have horigin : stdin.origin? = t.session.streams.stdin.origin? := by
    unfold Stream.origin?
    rw [hhandle]
  refine ⟨t.withStdin stdin, ?_, act_readStdin hread, ?_, stdin, rfl⟩
  · rwa [String.toList_ofList]
  · refine ⟨h.separate, fun output => ?_, fun place hplace output => ?_, hleft⟩
    · rw [get_withStdin]
      exact h.writable output
    · rw [get_withStdin]
      exact h.apart place (horigin ▸ hplace) output

/-- Where nothing of the text is left, no program is read. -/
theorem read_nil (h : t.Attends []) :
    t.act (Action.readStdin (Stream.readUntil · t.session.chars.readEnd)) = (.ok none, t) :=
  act_readStdin (h.reads.readUntil_of_nil _)

end Attends

/-! ## Running a program -/

/-- A program is evaluated to an ending, which more steps do not change. -/
def Evaluates (t : Interpreter) (program : String) (ending : Ending Failure Outcome)
    (u : Interpreter) : Prop :=
  ending ≠ .unfinished ∧
    ∃ steps, ∀ fuel, steps ≤ fuel → t.evaluate fuel program = (ending, u)

/-- No number of steps is enough for a program. -/
def Endless (t : Interpreter) (program : String) : Prop :=
  ∀ fuel, (t.evaluate fuel program).1 = .unfinished

variable {t u v : Interpreter} {program : String} {rest : List Char}

/-- A program is evaluated to an ending or goes on for ever. -/
theorem evaluates_or_endless (t : Interpreter) (program : String) :
    (∃ ending u, t.Evaluates program ending u) ∨ t.Endless program := by
  by_cases hends : ∃ steps, ∀ u, run steps (t.load program) ≠ .unfinished u
  · obtain ⟨steps, hsteps⟩ := hends
    obtain ⟨hsame, hended⟩ := evaluate_of_run_ends hsteps
    exact .inl ⟨_, _, hended, steps, hsame⟩
  · refine .inr fun fuel => ?_
    obtain ⟨u, hrun⟩ : ∃ u, run fuel (t.load program) = .unfinished u := by
      simpa using (not_exists.mp hends) fuel
    rw [evaluate_eq, hrun]

/-- Evaluating a program takes nothing of the text. -/
theorem Attends.of_evaluate {fuel : Nat} {ending : Ending Failure Outcome} (ht : t.Attends rest)
    (h : t.evaluate fuel program = (ending, u)) : u.Attends rest := by
  have hsame := outside_evaluate fuel t program
  rw [h] at hsame
  exact ht.of_outside hsame

namespace Evaluates

/-- A program that is evaluated leaves the text that the next is taken from. -/
theorem attends {ending : Ending Failure Outcome} (h : t.Evaluates program ending u)
    (ht : t.Attends rest) : u.Attends rest := by
  obtain ⟨steps, hsteps⟩ := h.2
  exact ht.of_evaluate (hsteps steps (Nat.le_refl _))

/-- With any number of steps a program comes to its ending, unless they are not enough. -/
theorem exists_steps {ending : Ending Failure Outcome} (h : t.Evaluates program ending u) :
    ∃ steps, ∀ fuel, t.evaluate fuel program = (ending, u) ∨
      ((t.evaluate fuel program).1 = .unfinished ∧ fuel < steps) := by
  obtain ⟨steps, hsteps⟩ := h.2
  refine ⟨steps, fun fuel => ?_⟩
  by_cases hends : ∀ v, run fuel (t.load program) ≠ .unfinished v
  · obtain ⟨hsame, -⟩ := evaluate_of_run_ends hends
    rw [← hsame (max fuel steps) (Nat.le_max_left _ _), hsteps _ (Nat.le_max_right _ _)]
    exact .inl rfl
  · obtain ⟨v, hrun⟩ : ∃ v, run fuel (t.load program) = .unfinished v := by simpa using hends
    have hunfinished : (t.evaluate fuel program).1 = .unfinished := by rw [evaluate_eq, hrun]
    refine .inr ⟨hunfinished, Nat.lt_of_not_le fun hle => h.1 ?_⟩
    rw [← hunfinished, hsteps fuel hle]

/-- The status in an outcome is the one with which the program has asked to stop. -/
theorem exit_eq_some_iff {outcome : Outcome} {status : Int}
    (h : t.Evaluates program (.ok outcome) u) :
    outcome.exit = some status ↔ t.Exits program status := by
  obtain ⟨steps, hsteps⟩ := h.2
  exact Interpreter.exit_eq_some_iff (hsteps steps (Nat.le_refl _))

/-- A program that fails has not asked to stop. -/
theorem not_exits {failure : Failure} (h : t.Evaluates program (.error failure) u) (status : Int) :
    ¬ t.Exits program status := by
  obtain ⟨steps, hsteps⟩ := h.2
  exact not_exits_of_error (congrArg Prod.fst (hsteps steps (Nat.le_refl _)))

end Evaluates

/-- A text is printed to an output that can be written to. -/
theorem act_print {output : Output} (h : (t.session.streams.get output).writable = .ok ())
    (text : String) : t.act (Action.print output text) = (.ok (), t.printing output text) := by
  unfold act Action.print
  rw [h]
  rfl

/-- A program that succeeds is run to the status that it asks for, and its text is shown. -/
theorem runProgram_of_ok {fuel : Nat} {outcome : Outcome}
    (h : t.evaluate fuel program = (.ok outcome, u))
    (hwritable : (u.session.streams.get .stdout).writable = .ok ()) :
    t.runProgram fuel program = (.ok outcome.exit, u.shown outcome.output) := by
  unfold runProgram shown
  rw [h]
  dsimp only
  split
  · rw [act_print hwritable]
  · rfl

/-! ## Rounds of the loop -/

/-- With any number of steps a loop comes to its ending, unless they are not enough. From some
number on they are, if the loop comes to an end at all. -/
def Settles (loop : Nat → Ending Error Int × Interpreter) (ending : Ending Error Int)
    (last : Interpreter) : Prop :=
  ∃ steps, ∀ fuel, loop fuel = (ending, last) ∨
    ((loop fuel).1 = .unfinished ∧ (steps ≤ fuel → ending = .unfinished))

/-- What does not depend on the number of programs is settled. -/
theorem Settles.const (ending : Ending Error Int) (last : Interpreter) :
    Settles (fun _ => (ending, last)) ending last :=
  ⟨0, fun _ => .inl rfl⟩

namespace Takes

variable {text : List Char} {fuel : Nat}

/-- The loop ends after a program that exits. -/
theorem interactFor_of_exit {outcome : Outcome} {status : Int} (h : t.Takes text program rest u)
    (hevaluate : u.evaluate fuel program = (.ok outcome, v)) (hexit : outcome.exit = some status)
    (count : Nat) : t.interactFor fuel (count + 1) = (.ok status, v.shown outcome.output) := by
  have hv : v.Attends rest := h.attends.of_evaluate hevaluate
  have hrun := runProgram_of_ok hevaluate (hv.writable .stdout)
  simp only [interactFor, h.read, hrun, hexit]

/-- The loop goes on after a program that succeeds and does not exit. -/
theorem interactFor_of_ok {outcome : Outcome} (h : t.Takes text program rest u)
    (hevaluate : u.evaluate fuel program = (.ok outcome, v)) (hexit : outcome.exit = none)
    (count : Nat) :
    t.interactFor fuel (count + 1) = (v.shown outcome.output).interactFor fuel count := by
  have hv : v.Attends rest := h.attends.of_evaluate hevaluate
  have hrun := runProgram_of_ok hevaluate (hv.writable .stdout)
  simp only [interactFor, h.read, hrun, hexit]

/-- The loop goes on after a program that fails, once its report is printed. -/
theorem interactFor_of_error {failure : Failure} (h : t.Takes text program rest u)
    (hevaluate : u.evaluate fuel program = (.error failure, v)) (count : Nat) :
    t.interactFor fuel (count + 1) =
      (v.printing .stderr (failure.report ++ "\n")).interactFor fuel count := by
  have hv : v.Attends rest := h.attends.of_evaluate hevaluate
  have hprint := act_print (hv.writable .stderr) (failure.report ++ "\n")
  simp only [interactFor, h.read, runProgram, hevaluate, hprint]

/-- A conversation ends where a program reaches outside the buffer. -/
theorem interactFor_of_fault (h : t.Takes text program rest u)
    (hevaluate : u.evaluate fuel program = (.fault, v)) (count : Nat) :
    t.interactFor fuel (count + 1) = (.fault, v) := by
  simp only [interactFor, h.read, runProgram, hevaluate]

/-- A conversation stops where the steps for a program are not enough. -/
theorem interactFor_of_unfinished (h : t.Takes text program rest u)
    (hevaluate : (u.evaluate fuel program).1 = .unfinished) (count : Nat) :
    (t.interactFor fuel (count + 1)).1 = .unfinished := by
  obtain ⟨v, hv⟩ : ∃ v, u.evaluate fuel program = (.unfinished, v) :=
    ⟨_, Prod.ext hevaluate rfl⟩
  simp only [interactFor, h.read, runProgram, hv]

/-- If the loop goes on in one way after a program, it comes to what it comes to then. -/
theorem settles {ended : Ending Failure Outcome} {count : Nat} {ending : Ending Error Int}
    {last : Interpreter} {loop : Nat → Ending Error Int × Interpreter}
    (h : t.Takes text program rest u) (hevaluates : u.Evaluates program ended v)
    (hround : ∀ fuel, u.evaluate fuel program = (ended, v) →
      t.interactFor fuel (count + 1) = loop fuel)
    (hloop : Settles loop ending last) : Settles (t.interactFor · (count + 1)) ending last := by
  obtain ⟨steps, hsteps⟩ := hevaluates.exists_steps
  obtain ⟨steps', hsteps'⟩ := hloop
  -- There have to be steps enough for this program and for what comes behind it.
  refine ⟨max steps steps', fun fuel => ?_⟩
  dsimp only
  rw [Nat.max_le]
  rcases hsteps fuel with hdone | ⟨hmore, hlt⟩
  · rw [hround fuel hdone]
    exact (hsteps' fuel).imp_right fun hmore => ⟨hmore.1, fun hle => hmore.2 hle.2⟩
  · exact .inr ⟨h.interactFor_of_unfinished hmore count,
      fun hle => absurd hlt (Nat.not_lt.mpr hle.1)⟩

end Takes

/-! ## Conversations -/

/-- What an interactive session over a text comes to: the programs that are run, how the session
ends, and the interpreter that it leaves. -/
inductive Conversation : (t : Interpreter) → (text : List Char) → (programs : List String) →
    (ending : Ending Error Int) → (last : Interpreter) → Prop
  /-- No program is run when the text is used up. -/
  | usedUp {t : Interpreter} : Conversation t [] [] (.ok 0) t
  /-- The first program that exits ends the session with its status. -/
  | exited {t u v : Interpreter} {text rest : List Char} {program : String} {outcome : Outcome}
    {status : Int} (htakes : t.Takes text program rest u)
    (hevaluates : u.Evaluates program (.ok outcome) v) (hexits : u.Exits program status) :
    Conversation t text [program] (.ok status) (v.shown outcome.output)
  /-- After a program that succeeds the session goes on over the rest of the text. -/
  | succeeded {t u v last : Interpreter} {text rest : List Char} {program : String}
    {outcome : Outcome} {programs : List String} {ending : Ending Error Int}
    (htakes : t.Takes text program rest u) (hevaluates : u.Evaluates program (.ok outcome) v)
    (hstays : ∀ status, ¬ u.Exits program status)
    (hrest : Conversation (v.shown outcome.output) rest programs ending last) :
    Conversation t text (program :: programs) ending last
  /-- After a program that fails its report is printed, with a line feed behind it, and the session
  goes on over the same rest. -/
  | failed {t u v last : Interpreter} {text rest : List Char} {program : String}
    {failure : Failure} {programs : List String} {ending : Ending Error Int}
    (htakes : t.Takes text program rest u) (hevaluates : u.Evaluates program (.error failure) v)
    (hstays : ∀ status, ¬ u.Exits program status)
    (hrest : Conversation (v.printing .stderr (failure.report ++ "\n")) rest programs ending last) :
    Conversation t text (program :: programs) ending last
  /-- A program in which the scanner reaches outside its buffer is the last. -/
  | broken {t u v : Interpreter} {text rest : List Char} {program : String}
    (htakes : t.Takes text program rest u) (hevaluates : u.Evaluates program .fault v) :
    Conversation t text [program] .fault v
  /-- So is a program that goes on for ever. -/
  | endless {t u : Interpreter} {text rest : List Char} {program : String}
    (htakes : t.Takes text program rest u) (hendless : u.Endless program) :
    Conversation t text [program] .unfinished u

namespace Conversation

variable {text : List Char} {programs : List String} {ending : Ending Error Int}
  {last : Interpreter}

/-- There are no more programs than characters, as each takes one at least. -/
theorem length_le (h : t.Conversation text programs ending last) :
    programs.length ≤ text.length := by
  induction h with
  | usedUp => exact Nat.le_refl 0
  | exited htakes => exact Nat.one_le_of_lt htakes.cut.length_lt
  | succeeded htakes _ _ _ ih => exact Nat.lt_of_le_of_lt ih htakes.cut.length_lt
  | failed htakes _ _ _ ih => exact Nat.lt_of_le_of_lt ih htakes.cut.length_lt
  | broken htakes => exact Nat.one_le_of_lt htakes.cut.length_lt
  | endless htakes => exact Nat.one_le_of_lt htakes.cut.length_lt

/-- A session does not fail. -/
theorem ne_error (h : t.Conversation text programs ending last) (e : Error) :
    ending ≠ .error e := by
  induction h with
  | succeeded _ _ _ _ ih => exact ih
  | failed _ _ _ _ ih => exact ih
  | _ => simp

/-- The loop comes to what the conversation says if it may run more rounds than there are
programs. -/
theorem settles (h : t.Conversation text programs ending last) (ht : t.Attends text)
    {count : Nat} (hcount : programs.length ≤ count) :
    Settles (t.interactFor · (count + 1)) ending last := by
  induction h generalizing count with
  | usedUp =>
    refine ⟨0, fun fuel => .inl ?_⟩
    dsimp only
    rw [interactFor, ht.read_nil]
  | exited htakes hevaluates hexits =>
    have hexit := hevaluates.exit_eq_some_iff.mpr hexits
    exact htakes.settles hevaluates (fun fuel hdone => htakes.interactFor_of_exit hdone hexit count)
      (.const _ _)
  | @succeeded t u v last text rest program outcome programs ending htakes hevaluates hstays _ ih =>
    obtain ⟨count, rfl⟩ : ∃ n, count = n + 1 := Nat.exists_eq_add_one.mpr (Nat.zero_lt_of_lt hcount)
    have hleft : v.Attends rest := hevaluates.attends htakes.attends
    have hexit : outcome.exit = none := by
      refine Option.eq_none_iff_forall_ne_some.mpr fun status hstatus => ?_
      exact hstays status (hevaluates.exit_eq_some_iff.mp hstatus)
    exact htakes.settles hevaluates (fun fuel hdone => htakes.interactFor_of_ok hdone hexit _)
      (ih (hleft.shown _) (Nat.le_of_succ_le_succ hcount))
  | @failed t u v last text rest program failure programs ending htakes hevaluates _ _ ih =>
    obtain ⟨count, rfl⟩ : ∃ n, count = n + 1 := Nat.exists_eq_add_one.mpr (Nat.zero_lt_of_lt hcount)
    have hleft : v.Attends rest := hevaluates.attends htakes.attends
    exact htakes.settles hevaluates (fun fuel hdone => htakes.interactFor_of_error hdone _)
      (ih (hleft.printing _ _) (Nat.le_of_succ_le_succ hcount))
  | broken htakes hevaluates =>
    exact htakes.settles hevaluates (fun fuel hdone => htakes.interactFor_of_fault hdone _)
      (.const _ _)
  | endless htakes hendless =>
    exact ⟨0, fun fuel => .inr ⟨htakes.interactFor_of_unfinished (hendless fuel) count,
      fun _ => rfl⟩⟩

end Conversation

/-- Every text has a conversation. -/
theorem Attends.exists_conversation {t : Interpreter} {text : List Char} (h : t.Attends text) :
    ∃ programs ending last, t.Conversation text programs ending last := by
  by_cases hempty : text = []
  · subst hempty
    exact ⟨[], .ok 0, t, .usedUp⟩
  · obtain ⟨piece, rest, hcut⟩ := Stream.exists_cut t.session.chars.readEnd hempty
    obtain ⟨u, htakes⟩ := h.exists_takes hcut
    have hshorter := hcut.length_lt
    rcases u.evaluates_or_endless (String.ofList piece)
      with ⟨ending, v, hevaluates⟩ | hendless
    · have hleft : v.Attends rest := hevaluates.attends htakes.attends
      cases ending with
      | ok outcome =>
        cases hexit : outcome.exit with
        | some status =>
          have hexits := hevaluates.exit_eq_some_iff.mp hexit
          exact ⟨_, _, _, .exited htakes hevaluates hexits⟩
        | none =>
          have hstays : ∀ status, ¬ u.Exits (String.ofList piece) status := fun status hexits => by
            simpa [hexit] using hevaluates.exit_eq_some_iff.mpr hexits
          obtain ⟨programs, ending, last, hrest⟩ := (hleft.shown outcome.output).exists_conversation
          exact ⟨_, _, _, .succeeded htakes hevaluates hstays hrest⟩
      | error failure =>
        obtain ⟨programs, ending, last, hrest⟩ :=
          (hleft.printing .stderr (failure.report ++ "\n")).exists_conversation
        exact ⟨_, _, _, .failed htakes hevaluates hevaluates.not_exits hrest⟩
      | fault => exact ⟨_, _, _, .broken htakes hevaluates⟩
      | unfinished => exact absurd rfl hevaluates.1
    · exact ⟨_, _, _, .endless htakes hendless⟩
termination_by text.length

/-- An interactive session runs exactly the pieces of its input. Over every text it has a
conversation, of no more programs than the text has characters, and the loop comes to what this says
unless the steps are not enough, which they are from some number on if every program comes to an
end. No program takes anything of the standard input while programs are given another stream to read
from, whatever it does. -/
theorem interact_runs_pieces {t : Interpreter} {text : List Char} (h : t.Attends text) :
    (∃ programs ending last, t.Conversation text programs ending last ∧
      programs.length ≤ text.length ∧ (∀ e, ending ≠ .error e) ∧
      (∀ fuel, t.interact fuel = (ending, last) ∨ (t.interact fuel).1 = .unfinished) ∧
      (ending ≠ .unfinished →
        ∃ steps, ∀ fuel, steps ≤ fuel → t.interact fuel = (ending, last))) ∧
    ∀ (u : Interpreter) (program : String), u.session.streams.rsInput.isSome →
      (∀ v, (u.load program).Reaches v → v.session.streams.stdin = u.session.streams.stdin) ∧
      ∀ fuel, (u.evaluate fuel program).2.session.streams.stdin = u.session.streams.stdin := by
  constructor
  · obtain ⟨programs, ending, last, hconversation⟩ := h.exists_conversation
    have hfew := hconversation.length_le
    -- The loop may run one round more than there are characters left.
    obtain ⟨steps, hsteps⟩ := hconversation.settles h (hfew.trans h.reads.length_le_pending)
    refine ⟨programs, ending, last, hconversation, hfew, hconversation.ne_error,
      fun fuel => (hsteps fuel).imp_right And.left, fun hends => ⟨steps, fun fuel hle => ?_⟩⟩
    exact (hsteps fuel).resolve_right fun hmore => hends (hmore.2 hle)
  · intro u program hseparate
    refine ⟨fun v hv => ?_, fun fuel => ?_⟩
    · exact (Session.stdin_of_outside hv.outside_eq hseparate).2
    · exact (Session.stdin_of_outside (outside_evaluate fuel u program) hseparate).2

/-- Three programs on one line each. The second exits. -/
def threeLines : String := "one\n#<exit;3>\nthree\n"

/-- An interpreter with these programs on its standard input, and nothing to read from for them. -/
def exiting : Interpreter :=
  ofSession (.start { Streams.ofInput threeLines.toUTF8 with
    rsInput := some (.reader "rs" ByteArray.empty) } .empty ⟨0, 0⟩ default)

/-- The session ends with the status of the second program. -/
theorem interact_runs_pieces_exiting :
    exiting.Attends threeLines.toList ∧
    ∃ programs last, exiting.Conversation threeLines.toList programs (.ok 3) last ∧
      ∃ steps, ∀ fuel, steps ≤ fuel → exiting.interact fuel = (.ok 3, last) := by
  have hattends : exiting.Attends threeLines.toList := by
    have hfold : Stream.foldNewlines threeLines.toList = threeLines.toList := by decide +kernel
    have hreads := Stream.reads_of_fresh (Stream.fresh_reader .empty "stdin" threeLines.toUTF8)
    rw [hfold] at hreads
    refine ⟨rfl, fun output => ?_, fun place horigin => ?_, hreads⟩
    · cases output with
      | stdout => rfl
      | stderr => rfl
    · cases horigin
  obtain ⟨⟨programs, ending, last, hconversation, -, -, hpartial, hends⟩, -⟩ :=
    interact_runs_pieces hattends
  have hstatus : (exiting.interact 40).1.value? = some 3 := by decide +kernel
  obtain rfl : ending = .ok 3 := by
    rcases hpartial 40 with hdone | hmore
    · rw [hdone] at hstatus
      exact Ending.eq_ok_of_value? hstatus
    · rw [hmore] at hstatus
      cases hstatus
  exact ⟨hattends, programs, last, hconversation, hends (by simp)⟩

end Interpreter

end TextMacro
