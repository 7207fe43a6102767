import TextMacro.Proofs.Changes

/-!
# What programs leave alone outside

Programs print, read from the stream they are given, and look for files. None of this reaches the
rest of what is outside: whether the outputs can be written to and which files they go to, the files
that no output goes to, and the standard input where programs are given another stream to read from
(`Session.outside`). Every elementary change leaves that part alone, so every call does, every step
of a program, and every program, whatever it comes to (`Interpreter.outside_evaluate`).
-/

namespace TextMacro

/-! ## Files and streams -/

/-- Adding to a file leaves what stands elsewhere. -/
theorem Files.contentAt_append {place other : Place} (files : Files) (bytes : ByteArray)
    (hne : other ≠ place) : (files.append place bytes).contentAt other = files.contentAt other := by
  obtain ⟨nodes, sought⟩ := files
  have hlookup : ((⟨nodes, sought⟩ : Files).append place bytes).nodes.lookup other
      = nodes.lookup other := by
    unfold append
    dsimp only
    induction nodes with
    | nil => rfl
    | cons entry nodes ih =>
      obtain ⟨p, node⟩ := entry
      rw [List.map_cons, List.lookup_cons, List.lookup_cons, ih]
      by_cases hp : other = p
      · subst hp
        simp [hne]
      · rw [beq_false_of_ne hp]
  unfold contentAt node?
  rw [hlookup]

namespace Stream

/-- The file that a stream writes to. -/
def target? (s : Stream) : Option Place :=
  match s.handle with
  | .fileWriter place _ => some place
  | _ => none

/-- The file that a stream reads from. -/
def origin? (s : Stream) : Option Place :=
  match s.handle with
  | .reader (.file place) => some place
  | _ => none

/-- What is read from a stream depends on one file at most. -/
theorem bytes_congr {files files' : Files} {s : Stream}
    (h : ∀ place, s.origin? = some place → files'.contentAt place = files.contentAt place) :
    s.bytes files' = s.bytes files := by
  unfold bytes
  cases hhandle : s.handle with
  | reader source =>
    cases source with
    | memory bytes => rfl
    | file place =>
      dsimp only
      rw [h place (by rw [origin?, hhandle])]
  | memoryWriter => rfl
  | fileWriter place pending => rfl
  | closed => rfl

/-- What becomes of a stream and the files when something is written: the stream stays on its file,
and the other files stay as they are. -/
structure Leaves (files : Files) (s : Stream) (result : Stream × Files) : Prop where
  writable : result.1.writable = s.writable
  target : result.1.target? = s.target?
  contents : ∀ place, s.target? ≠ some place →
    result.2.contentAt place = files.contentAt place

variable {files files' : Files} {s : Stream} {place : Place} {pending waiting : ByteArray}

/-- Nothing is written. -/
theorem Leaves.refl (files : Files) (s : Stream) : Leaves files s (s, files) :=
  ⟨rfl, rfl, fun _ _ => rfl⟩

/-- One thing is written after another. -/
theorem Leaves.trans {result result' : Stream × Files} (h : Leaves files s result)
    (h' : Leaves result.2 result.1 result') : Leaves files s result' := by
  refine ⟨h'.writable.trans h.writable, h'.target.trans h.target, fun place hne => ?_⟩
  rw [h'.contents place (h.target ▸ hne), h.contents place hne]

/-- A stream that writes to a file changes that file only. -/
theorem Leaves.of_fileWriter (hhandle : s.handle = .fileWriter place pending)
    (hfiles : ∀ other, other ≠ place → files'.contentAt other = files.contentAt other) :
    Leaves files s ({ s with handle := .fileWriter place waiting }, files') := by
  have htarget : s.target? = some place := by rw [target?, hhandle]
  constructor
  · show Except.ok () = s.writable
    unfold Stream.writable
    rw [hhandle]
  · rw [htarget]
    rfl
  · intro other hne
    rw [htarget] at hne
    exact hfiles other fun heq => hne (congrArg some heq.symm)

/-- A text is written, at once or later. -/
theorem leaves_put (files : Files) (s : Stream) (text : String) :
    Leaves files s (s.put files text) := by
  unfold put
  split
  · rename_i hhandle
    refine ⟨?_, ?_, fun _ _ => rfl⟩
    · unfold Stream.writable
      rw [hhandle]
    · unfold target?
      rw [hhandle]
  · rename_i place pending hhandle
    dsimp only
    -- What waits may be written in front of the text.
    generalize hgathered : (if pendingLimit < pending.size + text.toUTF8.size
      then (ByteArray.empty, files.append place pending) else (pending, files)) = gathered
    have hbefore : ∀ other, other ≠ place →
        gathered.2.contentAt other = files.contentAt other := by
      intro other hne
      rw [← hgathered]
      split
      · exact files.contentAt_append pending hne
      · rfl
    split
    · exact .of_fileWriter hhandle fun other hne =>
        (gathered.2.contentAt_append _ hne).trans (hbefore other hne)
    · exact .of_fileWriter hhandle hbefore
  · exact .refl files s

/-- What waits is written. -/
theorem leaves_flush (files : Files) (s : Stream) : Leaves files s (s.flush files) := by
  unfold flush
  split
  · rename_i hhandle
    exact .of_fileWriter hhandle fun _ hne => files.contentAt_append _ hne
  · exact .refl files s

end Stream

/-! ## Out of reach -/

/-- The part of the streams and files that is out of the reach of programs. -/
@[ext]
structure Outside where
  /-- The standard input, if programs are given another stream to read from. -/
  stdin? : Option Stream
  /-- Whether an output can be written to. -/
  writable : Output → Except Error PUnit
  /-- The file that an output goes to. -/
  target? : Output → Option Place
  /-- The files that no output goes to. -/
  content? : Place → Option (Except StreamProblem ByteArray)

namespace Session

/-- What is outside the reach of programs in a session. -/
def outside (s : Session) : Outside where
  stdin? := s.streams.rsInput.map fun _ => s.streams.stdin
  writable output := (s.streams.get output).writable
  target? output := (s.streams.get output).target?
  content? place :=
    if s.streams.stdout.target? = some place ∨ s.streams.stderr.target? = some place then none
    else some (s.files.contentAt place)

/-- What is outside stays the same if the standard input does, as far as it is part of it, and if
what is written leaves the outputs on their files and the other files alone. -/
theorem outside_congr {s s' : Session} (hstdin : s'.outside.stdin? = s.outside.stdin?)
    (hwritable : ∀ output, (s'.streams.get output).writable = (s.streams.get output).writable)
    (htarget : ∀ output, (s'.streams.get output).target? = (s.streams.get output).target?)
    (hfiles : ∀ place, (∀ output, (s.streams.get output).target? ≠ some place) →
      s'.files.contentAt place = s.files.contentAt place) :
    s'.outside = s.outside := by
  have hcontent : ∀ place, s'.outside.content? place = s.outside.content? place := by
    intro place
    have hout : s'.streams.stdout.target? = s.streams.stdout.target? := htarget .stdout
    have herr : s'.streams.stderr.target? = s.streams.stderr.target? := htarget .stderr
    unfold outside
    dsimp only
    rw [hout, herr]
    split
    · rfl
    · rename_i hfree
      obtain ⟨hout, herr⟩ := not_or.mp hfree
      rw [hfiles place fun output => by
        cases output with
        | stdout => exact hout
        | stderr => exact herr]
  exact Outside.ext hstdin (funext hwritable) (funext htarget) (funext hcontent)

/-- Reading from the stream that programs read from leaves the standard input alone, unless it is
that stream. -/
theorem outside_read (s : Session) (source : Stream) :
    { s with streams := s.streams.setRsSource source }.outside = s.outside := by
  unfold Streams.setRsSource
  cases hrs : s.streams.rsInput with
  | some old =>
    refine outside_congr ?_ (fun _ => rfl) (fun _ => rfl) fun _ _ => rfl
    simp [outside, hrs]
  | none =>
    refine outside_congr ?_ (fun _ => rfl) (fun _ => rfl) fun _ _ => rfl
    simp [outside, hrs]

end Session

/-- Printing writes to one of the outputs and leaves the other streams as they are. -/
theorem Streams.print_leaves (streams : Streams) (files : Files) (output : Output) (text : String) :
    (streams.print files output text).1.stdin = streams.stdin ∧
    (streams.print files output text).1.rsInput = streams.rsInput ∧
    (∀ other, other ≠ output →
      (streams.print files output text).1.get other = streams.get other) ∧
    Stream.Leaves files (streams.get output)
      ((streams.print files output text).1.get output, (streams.print files output text).2) := by
  obtain ⟨stdin, stdout, stderr, rsInput⟩ := streams
  cases output with
  | stdout =>
    refine ⟨rfl, rfl, ?_, (Stream.leaves_put files stdout text).trans (Stream.leaves_flush _ _)⟩
    intro other hne
    cases other with
    | stdout => exact absurd rfl hne
    | stderr => rfl
  | stderr =>
    refine ⟨rfl, rfl, ?_, (Stream.leaves_put files stderr text).trans (Stream.leaves_flush _ _)⟩
    intro other hne
    cases other with
    | stdout => rfl
    | stderr => exact absurd rfl hne

namespace Session

variable {s s' : Session}

/-- Printing leaves what is outside alone. -/
theorem outside_print (s : Session) (output : Output) (text : String) :
    (s.print output text).outside = s.outside := by
  obtain ⟨hstdin, hrs, hother, hleaves⟩ := s.streams.print_leaves s.files output text
  have hinput : (s.print output text).streams.stdin = s.streams.stdin := hstdin
  have hsource : (s.print output text).streams.rsInput = s.streams.rsInput := hrs
  have hget : ∀ other, ((s.print output text).streams.get other).writable
      = (s.streams.get other).writable ∧
      ((s.print output text).streams.get other).target? = (s.streams.get other).target? := by
    intro other
    by_cases hsame : other = output
    · subst hsame
      exact ⟨hleaves.writable, hleaves.target⟩
    · have hkept : (s.print output text).streams.get other = s.streams.get other :=
        hother other hsame
      rw [hkept]
      exact ⟨rfl, rfl⟩
  refine outside_congr ?_ (fun other => (hget other).1) (fun other => (hget other).2)
    fun place hfree => hleaves.contents place (hfree output)
  show (s.print output text).streams.rsInput.map (fun _ => (s.print output text).streams.stdin)
    = s.streams.rsInput.map fun _ => s.streams.stdin
  rw [hinput, hsource]

/-- No elementary change reaches what is outside. -/
theorem Changes.outside_eq {permits : Permits} (h : s.Changes permits s') :
    s'.outside = s.outside :=
  h.part_eq outside fun {s s'} hchange => by
    cases hchange with
    | printed output text => exact outside_print s output text
    | read source => exact outside_read s source
    | setProp hset =>
      obtain ⟨p, -, -, rfl⟩ := eq_of_setProp hset
      rfl
    | _ => rfl

end Session

/-! ## Programs -/

namespace Interpreter

variable {s s' : Session} {t u : Interpreter}

/-- Nothing that a step does reaches what is outside. -/
theorem Follows.outside_eq (h : Follows s s') : s'.outside = s.outside := by
  cases h with
  | same => rfl
  | counted => rfl
  | begun depth active => rfl
  | invoked hinvoke => exact (Action.changes_of_invoke hinvoke).outside_eq
  | failed hinvoke => exact (Action.changes_of_invoke_error hinvoke).1.outside_eq

/-- What is outside is the same in all states that steps lead to. -/
theorem Reaches.outside_eq (h : t.Reaches u) : u.session.outside = t.session.outside := by
  induction h with
  | refl => rfl
  | next _ hstep ih => exact (goesOn_of_step hstep).follows.outside_eq.trans ih

/-- A program leaves what is outside as it was, however it ends. -/
theorem outside_evaluate (fuel : Nat) (t : Interpreter) (text : String) :
    (t.evaluate fuel text).2.session.outside = t.session.outside := by
  obtain ⟨s, hs, hsession⟩ := session_of_evaluate fuel t text
  rw [hs]
  show s.outside = t.session.outside
  rcases hsession with rfl | ⟨v, hv, hfollows⟩
  · rfl
  · exact hfollows.outside_eq.trans hv.outside_eq

end Interpreter

end TextMacro
