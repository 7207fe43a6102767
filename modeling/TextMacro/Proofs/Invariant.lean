import TextMacro.Proofs.Changes

/-!
# The session stays well formed

Every elementary change keeps the session well formed, so that it is so in every state that any
programs lead to, whether they fail or not (`reachable_dict_wellFormed`). In such states no builtin
but those that read a stream or a file, and no expansion, meets bytes that are no unit.
-/

namespace TextMacro

/-- The session is well formed, whatever has happened. -/
theorem Session.invariant_wellFormed : Session.Invariant Session.WellFormed where
  start _ _ _ _ := ⟨Dictionary.wellFormed_initial, MetaChars.distinct_initial⟩
  change hchange hs := hchange.wellFormed hs
  counted hs := hs
  surroundings _ _ _ _ _ _ hs := hs

namespace Interpreter

variable {t u : Interpreter}

/-- The session is well formed in all states that steps lead to. -/
theorem Reaches.wellFormed (h : t.Reaches u) (ht : t.session.WellFormed) : u.session.WellFormed :=
  Session.invariant_wellFormed.reaches h ht

/-- The session is well formed between programs. -/
theorem Reachable.wellFormed (h : t.Reachable) : t.session.WellFormed :=
  Session.invariant_wellFormed.reachable h

/-- The dictionary is well formed whatever programs have been evaluated, and at every step of the
next one: every entry stands under its own name, and the text of every defined string is a sequence
of units, with its cursor between two of them and its segment marks among those given out. So only
a builtin that reads a stream or a file can meet bytes that are no unit: no other builtin does, no
defined string fails to be expanded, and no other call raises such an error. -/
theorem reachable_dict_wellFormed {t : Interpreter} (h : t.Reachable) :
    t.session.dict.WellFormed ∧
      ∀ text u, (t.load text).Reaches u →
        u.session.dict.WellFormed ∧
        (∀ code f offset s', Builtin.perform code f u.session = .error (.badUnit offset) s' →
          code.reads = true) ∧
        (∀ name function body f token, u.session.dict.function? name = some function →
          function.meaning = .defined body →
          ∃ used text, body.expand f token = (used, .ok text)) ∧
        ∀ depth f offset s', Action.invoke depth f u.session = .error (.badUnit offset) s' →
          u.session.dict.reads f.name = true := by
  refine ⟨h.wellFormed.1, fun text u hu => ?_⟩
  have hsession : u.session.WellFormed := hu.wellFormed h.wellFormed
  refine ⟨hsession.1, ?_, ?_, ?_⟩
  · intro code f offset s' hperform
    have hleaves := (code.within_perform f u.session).leaves
    rw [hperform] at hleaves
    exact hleaves.2.reads_of_malformed hsession rfl
  · intro name function body f token hfunction hmeaning
    exact ((hsession.1.function? hfunction).2 body hmeaning).expand f token
  · intro depth f offset s' hinvoke
    rw [← Dictionary.reads_permits]
    exact (Action.changes_of_invoke_error hinvoke).2.reads_of_malformed hsession rfl

/-- An interpreter that has segmented a string and read a part of it. -/
theorem reachable_dict_wellFormed_segmented :
    fresh.Reachable ∧
      (fresh.evaluate 100 "#<ds;a;x,y>#<ss;a;y>#<cc;a>").2.session.dict.WellFormed :=
  ⟨reachable_fresh, (reachable_dict_wellFormed (.evaluate 100 _ reachable_fresh)).1⟩

end Interpreter

end TextMacro
