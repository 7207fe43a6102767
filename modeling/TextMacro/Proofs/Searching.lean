import Mathlib.Order.Bounds.Basic
import TextMacro.Proofs.Codec
import TextMacro.Proofs.Parameters

/-!
# Searching for a text

A search compares bytes, and knows nothing of units. In bytes that are units it nevertheless finds a
text only where whole characters spell it: no byte of a mark and no later byte of a character begins
a character, so that an occurrence begins at a boundary, and the units from there on are its
characters (`Splits.occurs_iff`). The search is therefore one through the decoded units
(`find_units`).

Both searches are said to end at the least place where the text stands, the one among the places in
the bytes (`find_eq_some_iff`), the other among those in the units (`searchUnits_eq_some_iff`).
-/

namespace TextMacro.TextUnit

variable {b needle : ByteArray} {text : String} {start hit : Nat} {units : List TextUnit}

/-- Some units are the characters of a text, one after another, with the units in front of them
taking up `pos` bytes. -/
def SpelledAt (units : List TextUnit) (text : String) (pos : Nat) : Prop :=
  ∃ before after, units = before ++ (text.toList.map char ++ after) ∧ pos = (encodeAll before).size

/-- The place, counted in bytes, of the first units at or behind `start` that are the characters of
a text that is not empty. -/
def searchUnits (text : String) (start : Nat) : List TextUnit → Option Nat
  | [] => none
  | u :: rest =>
    if start = 0 ∧ text.toList.map char <+: u :: rest then some 0
    else (searchUnits text (start - u.width) rest).map (u.width + ·)

/-! ## Searching in bytes -/

/-- A search ends at the least place where the needle stands. -/
theorem find_eq_some_iff (hne : 0 < needle.size) : find b needle start = some hit ↔
    IsLeast {pos | start ≤ pos ∧ b.extract pos (pos + needle.size) = needle} hit := by
  have hleast : ∀ hit, find b needle start = some hit →
      IsLeast {pos | start ≤ pos ∧ b.extract pos (pos + needle.size) = needle} hit := by
    intro hit hfind
    have hocc := occursAt_of_findFrom ((find_eq_findFrom hne b start).symm.trans hfind)
    refine ⟨⟨(find_bounds hfind).2.1, hocc⟩, ?_⟩
    rintro pos ⟨hle, hocc⟩
    by_contra hlt
    refine not_occurs_of_find hne hle (fun hit' hfind' => ?_) hocc
    rw [hfind, Option.some.injEq] at hfind'
    omega
  refine ⟨hleast hit, fun h => ?_⟩
  cases hfind : find b needle start with
  | none =>
    refine absurd h.1.2 (not_occurs_of_find hne h.1.1 fun hit' hfind' => ?_)
    rw [hfind] at hfind'
    cases hfind'
  | some hit' => rw [(hleast hit' hfind).unique h]

/-! ## Searching in units -/

/-- If a text does not stand at the first unit, or that is before the start, it stands where it does
behind that unit. -/
theorem spelledAt_cons {u : TextUnit} {rest : List TextUnit} {pos : Nat}
    (h : ¬ (start = 0 ∧ text.toList.map char <+: u :: rest)) :
    start ≤ pos ∧ SpelledAt (u :: rest) text pos ↔
      ∃ behind, pos = u.width + behind ∧ start - u.width ≤ behind ∧ SpelledAt rest text behind := by
  constructor
  · rintro ⟨hle, before, after, hunits, rfl⟩
    cases before with
    | nil =>
      rw [encodeAll_nil, ByteArray.size_empty, Nat.le_zero] at hle
      exact absurd ⟨hle, after, hunits.symm⟩ h
    | cons v before =>
      obtain ⟨rfl, rfl⟩ := List.cons.inj hunits
      rw [encodeAll_cons, ByteArray.size_append, size_encode] at hle ⊢
      exact ⟨_, rfl, by omega, before, after, rfl, rfl⟩
  · rintro ⟨_, rfl, hle, before, after, rfl, rfl⟩
    refine ⟨by omega, u :: before, after, rfl, ?_⟩
    rw [encodeAll_cons, ByteArray.size_append, size_encode]

/-- A search through units ends at the least place where the text stands. -/
theorem searchUnits_eq_some_iff (hne : text ≠ "") : searchUnits text start units = some hit ↔
    IsLeast {pos | start ≤ pos ∧ SpelledAt units text pos} hit := by
  induction units generalizing start hit with
  | nil =>
    have hnone : ∀ pos, ¬ SpelledAt [] text pos := by
      rintro pos ⟨before, after, hunits, -⟩
      simp [hne] at hunits
    simp only [searchUnits, reduceCtorEq, false_iff]
    exact fun h => hnone hit h.1.2
  | cons u rest ih =>
    unfold searchUnits
    split
    · -- The text stands at the first unit, and nowhere before it.
      rename_i hfirst
      obtain ⟨rfl, after, hafter⟩ := hfirst
      have hleast : IsLeast {pos | 0 ≤ pos ∧ SpelledAt (u :: rest) text pos} 0 :=
        ⟨⟨Nat.le_refl 0, [], after, hafter.symm, rfl⟩, fun pos _ => Nat.zero_le pos⟩
      rw [Option.some.injEq]
      exact ⟨fun h => h ▸ hleast, fun h => hleast.unique h⟩
    · -- It stands where it does behind the first unit, which is that much further on.
      rename_i hmiss
      rw [Option.map_eq_some_iff]
      constructor
      · rintro ⟨behind, hfound, rfl⟩
        obtain ⟨hin, hleast⟩ := ih.mp hfound
        refine ⟨(spelledAt_cons hmiss).mpr ⟨behind, rfl, hin⟩, fun pos hpos => ?_⟩
        obtain ⟨behind', rfl, hin'⟩ := (spelledAt_cons hmiss).mp hpos
        exact Nat.add_le_add_left (hleast hin') u.width
      · rintro ⟨hin, hleast⟩
        obtain ⟨behind, rfl, hbehind⟩ := (spelledAt_cons hmiss).mp hin
        refine ⟨behind, ih.mpr ⟨hbehind, fun pos hpos => ?_⟩, rfl⟩
        exact Nat.le_of_add_le_add_left (hleast ((spelledAt_cons hmiss).mpr ⟨pos, rfl, hpos⟩))

/-! ## The two searches -/

/-- In bytes that are units, a text stands where its characters are units. -/
theorem Splits.occurs_iff {pos : Nat} (h : Splits b 0 [] units) (hne : 0 < text.toUTF8.size) :
    b.extract pos (pos + text.toUTF8.size) = text.toUTF8 ↔ SpelledAt units text pos := by
  constructor
  · intro hocc
    obtain ⟨before, after, hunits, hpos⟩ := h.of_occurrence hne (Nat.zero_le pos) hocc
    exact ⟨before, after, hunits, by simpa using hpos⟩
  · rintro ⟨before, after, rfl, rfl⟩
    have hbehind := h.skip
    rw [Nat.zero_add] at hbehind
    rw [toUTF8_eq_encodeAll text]
    exact hbehind.extract_mid

/-- A search never cuts a unit. In bytes that are units, in which a text that is not empty is looked
for from anywhere on, it ends at the least place where the bytes of the text stand; this place and
the one behind the text are boundaries, and between them are the characters of the text and no mark.
It finds nothing exactly if there are no such characters, so that it is the same as a search through
the decoded units. -/
theorem find_units (hb : validate b = .ok ()) (text : String) (hne : text ≠ "") (start : Nat) :
    (∀ hit, find b text.toUTF8 start = some hit →
      IsLeast {pos | start ≤ pos ∧ b.extract pos (pos + text.toUTF8.size) = text.toUTF8} hit ∧
      Boundary b hit ∧ Boundary b (hit + text.toUTF8.size) ∧
      SpelledAt (decodeFrom b 0).1 text hit) ∧
    (find b text.toUTF8 start = none ↔
      ∀ pos, start ≤ pos → ¬ SpelledAt (decodeFrom b 0).1 text pos) ∧
    find b text.toUTF8 start = searchUnits text start (decodeFrom b 0).1 := by
  obtain ⟨units, hunits⟩ := splits_of_validate hb
  have hsize : 0 < text.toUTF8.size := by
    rw [toUTF8_eq_encodeAll]
    exact size_encodeAll_pos (by simpa using hne)
  rw [hunits.decodeFrom_eq]
  dsimp only
  -- Both searches end at the least of the same places.
  have hsame : find b text.toUTF8 start = searchUnits text start units := by
    refine Option.ext fun hit => ?_
    rw [find_eq_some_iff hsize, searchUnits_eq_some_iff hne]
    simp only [hunits.occurs_iff hsize]
  refine ⟨?_, ?_, hsame⟩
  · intro hit hfind
    have hleast := (find_eq_some_iff hsize).mp hfind
    obtain ⟨before, after, rfl, rfl⟩ := (hunits.occurs_iff hsize).mp hleast.1.2
    have hfirst := hunits.skip
    have hlast := hfirst.skip
    rw [← toUTF8_eq_encodeAll text] at hlast
    rw [Nat.zero_add] at hfirst hlast
    exact ⟨hleast, hfirst.boundary, hlast.boundary, before, after, rfl, rfl⟩
  · constructor
    · intro hfind pos hle hspelled
      refine not_occurs_of_find hsize hle (fun hit hhit => ?_)
        ((hunits.occurs_iff hsize).mpr hspelled)
      rw [hfind] at hhit
      cases hhit
    · intro hnone
      refine Option.eq_none_iff_forall_ne_some.mpr fun hit hfind => ?_
      have hleast := (find_eq_some_iff hsize).mp hfind
      exact hnone hit hleast.1.1 ((hunits.occurs_iff hsize).mp hleast.1.2)

/-- Characters of several bytes among marks: a text that a mark interrupts first, and one that only
stands before the start, which is inside a character. -/
theorem find_units_marked :
    let units := [char 'é', segment 0, char 'a', creation, char 'a', char '→', creation]
    find (encodeAll units) "a→".toUTF8 1 = some 7 ∧ Boundary (encodeAll units) 7 ∧
      find (encodeAll units) "é".toUTF8 1 = none := by
  intro units
  have hb : validate (encodeAll units) = .ok () := validate_eq_ok_iff.mpr ⟨units, rfl⟩
  obtain ⟨hfound, -, hsearch⟩ := find_units hb "a→" (by decide) 1
  obtain ⟨-, -, hsearch'⟩ := find_units hb "é" (by decide) 1
  rw [decodeFrom_encodeAll] at hsearch hsearch'
  have hhit : searchUnits "a→" 1 units = some 7 ∧ searchUnits "é" 1 units = none := by
    decide
  rw [hhit.1] at hsearch
  rw [hhit.2] at hsearch'
  exact ⟨hsearch, (hfound 7 hsearch).2.1, hsearch'⟩

end TextMacro.TextUnit
