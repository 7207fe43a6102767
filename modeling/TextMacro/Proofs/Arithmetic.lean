import Mathlib.Algebra.BigOperators.Group.List.Basic
import Mathlib.Algebra.Order.Group.Unbundled.Int
import Mathlib.Data.Int.Basic
import Mathlib.Data.List.Infix
import TextMacro.Proofs.Numerals
import TextMacro.Proofs.Runs

/-!
# Arithmetic

The builtins for numbers are exact or fail (`arithmetic_exact`). A builtin that combines its
arguments goes through them from left to right and checks every step, so it succeeds exactly if all
the results on the way are in the range (`combine_of_inRange`, `combine_of_not_inRange`), whatever
the last one is. The arguments are read before the first step, so that one that is no number is
reported before an overflow (`combineAll_of_refused`). A quotient without its fraction is outside the
range in one case only (`inRange_tdiv_iff`).
-/

namespace TextMacro

open Decimal

namespace Builtins

/-! ## Combining numbers -/

section Combine

variable {op : Int → Int → Int} {first : Int} {rest : List Int}

/-- With all results in the range, the last is what the numbers come to. -/
theorem foldlM_of_inRange (h : ∀ p, p <+: rest → InRange (p.foldl op first)) :
    rest.foldlM (fun total n => checked (op total n)) first = .ok (rest.foldl op first) := by
  induction rest generalizing first with
  | nil => rfl
  | cons n rest ih =>
    have hnext : InRange (op first n) := h [n] (by simp)
    rw [List.foldlM_cons, checked_of_inRange hnext]
    exact ih fun p hp => h (n :: p) (List.cons_prefix_cons.mpr ⟨rfl, hp⟩)

/-- The first result outside the range ends the calculation. -/
theorem foldlM_of_not_inRange (hfirst : InRange first)
    (h : ¬ ∀ p, p <+: rest → InRange (p.foldl op first)) :
    rest.foldlM (fun total n => checked (op total n)) first = .error .overflow := by
  induction rest generalizing first with
  | nil =>
    refine absurd (fun p hp => ?_) h
    rw [List.prefix_nil.mp hp]
    exact hfirst
  | cons n rest ih =>
    rw [List.foldlM_cons]
    by_cases hnext : InRange (op first n)
    · rw [checked_of_inRange hnext]
      refine ih hnext fun hall => h fun p hp => ?_
      rcases List.prefix_cons_iff.mp hp with rfl | ⟨p', rfl, hp'⟩
      · exact hfirst
      · exact hall p' hp'
    · rw [checked_of_not_inRange hnext]
      rfl

/-- What numbers come to when they are combined from left to right. `total` is told by its values
for single numbers and by how two numbers in front are combined. -/
structure Totals (op : Int → Int → Int) (total : List Int → Int) : Prop where
  nil : InRange (total [])
  single : ∀ n, total [n] = n
  combine : ∀ m n rest, total (m :: n :: rest) = total (op m n :: rest)

/-- A sum is built up by adding. -/
theorem totals_sum : Totals (· + ·) List.sum where
  nil := by decide
  single n := by simp
  combine m n rest := by simp [add_assoc]

/-- A product is built up by multiplying. -/
theorem totals_prod : Totals (· * ·) List.prod where
  nil := by decide
  single n := by simp
  combine m n rest := by simp [mul_assoc]

variable {total : List Int → Int} {values : List Int}

/-- Combining from the first number on yields the total of all. -/
theorem Totals.foldl_eq (ht : Totals op total) (first : Int) (rest : List Int) :
    rest.foldl op first = total (first :: rest) := by
  induction rest generalizing first with
  | nil => exact (ht.single first).symm
  | cons n rest ih => rw [List.foldl_cons, ih, ht.combine]

/-- The results on the way are the totals of the parts at the front. -/
theorem Totals.inRange_iff (ht : Totals op total) :
    (∀ p, p <+: first :: rest → InRange (total p)) ↔
      ∀ p, p <+: rest → InRange (p.foldl op first) := by
  constructor
  · intro h p hp
    rw [ht.foldl_eq]
    exact h (first :: p) (List.cons_prefix_cons.mpr ⟨rfl, hp⟩)
  · intro h p hp
    rcases List.prefix_cons_iff.mp hp with rfl | ⟨p', rfl, hp'⟩
    · exact ht.nil
    · rw [← ht.foldl_eq]
      exact h p' hp'

/-- Numbers are combined exactly if all totals on the way are in the range. -/
theorem combine_of_inRange (ht : Totals op total) (hne : values ≠ [])
    (h : ∀ p, p <+: values → InRange (total p)) : combine op values = .ok (total values) := by
  cases values with
  | nil => exact absurd rfl hne
  | cons first rest =>
    rw [ht.inRange_iff] at h
    rw [← ht.foldl_eq]
    exact foldlM_of_inRange h

/-- Numbers are not combined if a total on the way is outside the range. -/
theorem combine_of_not_inRange (ht : Totals op total) (hvalues : ∀ n ∈ values, InRange n)
    (h : ¬ ∀ p, p <+: values → InRange (total p)) : combine op values = .error .overflow := by
  cases values with
  | nil =>
    refine absurd (fun p hp => ?_) h
    rw [List.prefix_nil.mp hp]
    exact ht.nil
  | cons first rest =>
    rw [ht.inRange_iff] at h
    exact foldlM_of_not_inRange (hvalues first List.mem_cons_self) h

end Combine

/-! ## Reading the arguments -/

variable {f : Frame} {s : Session} {a b : Int}

/-- A text stands for a number in the range. -/
def Stands (text : String) (n : Int) : Prop := Denotes text n ∧ InRange n

/-- A text that stands for a number is read as that number. -/
theorem Stands.read_eq {text : String} {n : Int} (h : Stands text n) : read text = .ok n :=
  read_eq_ok_iff.mpr h

/-- Arguments that stand for numbers are all read. -/
theorem mapM_read_of_stands {texts : List String} {values : List Int}
    (h : List.Forall₂ Stands texts values) : texts.mapM read = .ok values := by
  induction h with
  | nil => rfl
  | cons hfirst _ ih =>
    rw [List.mapM_cons, hfirst.read_eq, ih]
    rfl

/-- The first argument that is no number is reported. -/
theorem mapM_read_of_refused {before after : List String} {text : String} {e : Error}
    (hbefore : ∀ t ∈ before, ∃ n, Stands t n) (h : read text = .error e) :
    (before ++ text :: after).mapM read = .error e := by
  induction before with
  | nil =>
    rw [List.nil_append, List.mapM_cons, h]
    rfl
  | cons first before ih =>
    obtain ⟨n, hn⟩ := hbefore first List.mem_cons_self
    rw [List.cons_append, List.mapM_cons, hn.read_eq,
      ih fun t ht => hbefore t (List.mem_cons_of_mem first ht)]
    rfl

/-- Arguments that stand for numbers are combined. -/
theorem combineAll_of_stands (op : Int → Int → Int) {values : List Int}
    (h : List.Forall₂ Stands f.rest values) : combineAll op f = combine op values := by
  unfold combineAll operands
  rw [mapM_read_of_stands h]
  rfl

/-- The first argument that is no number is reported before anything is combined. -/
theorem combineAll_of_refused (op : Int → Int → Int) {before after : List String} {text : String}
    {e : Error} (hrest : f.rest = before ++ text :: after)
    (hbefore : ∀ t ∈ before, ∃ n, Stands t n) (h : read text = .error e) :
    combineAll op f = .error e := by
  unfold combineAll operands
  rw [hrest, mapM_read_of_refused hbefore h]
  rfl

/-- Two texts that stand for numbers are read as a pair of operands. -/
theorem operandPair_of_stands (ha : Stands (f.arg 1) a) (hb : Stands (f.arg 2) b) :
    operandPair f = .ok (a, b) := by
  unfold operandPair
  rw [ha.read_eq, hb.read_eq]
  rfl

/-! ## Dividing -/

/-- Of the quotients of numbers in the range only one is outside. -/
theorem inRange_tdiv_iff (ha : InRange a) (hb : b ≠ 0) :
    InRange (a.tdiv b) ↔ ¬ (a = -2 ^ 63 ∧ b = -1) := by
  have hquotient : (a.tdiv b).natAbs = a.natAbs / b.natAbs := Int.natAbs_tdiv a b
  have hle : a.natAbs / b.natAbs ≤ a.natAbs := Nat.div_le_self _ _
  unfold InRange at ha ⊢
  by_cases hone : b.natAbs = 1
  · -- The quotient by one or minus one is the number or its negation.
    rcases Int.natAbs_eq_iff.mp hone with rfl | rfl
    · rw [Nat.cast_one, Int.tdiv_one]
      omega
    · rw [Nat.cast_one, Int.tdiv_neg, Int.tdiv_one]
      omega
  · have hhalf : a.natAbs / b.natAbs ≤ a.natAbs / 2 := Nat.div_le_div_left (by omega) (by decide)
    omega

/-- The remainder is smaller than the divisor and has the sign of the number that is divided. -/
theorem tmod_spec (hb : b ≠ 0) :
    a = a.tdiv b * b + a.tmod b ∧ |a.tmod b| < |b| ∧ (a.tmod b = 0 ∨ (a.tmod b).sign = a.sign) := by
  refine ⟨(Int.tdiv_mul_add_tmod a b).symm, ?_, ?_⟩
  · rw [Int.abs_eq_natAbs, Int.abs_eq_natAbs, Int.natAbs_tmod]
    exact_mod_cast Nat.mod_lt _ (Int.natAbs_pos.mpr hb)
  · rw [Int.sign_tmod]
    by_cases hdvd : b ∣ a
    · exact .inl (Int.tmod_eq_zero_of_dvd hdvd)
    · exact .inr (if_neg hdvd)

/-- A part of what dividing gives fails where dividing does. -/
theorem map_eq_error_iff {α β ε : Type} {g : α → β} {result : Except ε α} {e : ε} :
    g <$> result = .error e ↔ result = .error e := by
  cases result with
  | ok x => exact iff_of_false (by rintro ⟨⟩) (by simp)
  | error e' =>
    constructor
    · intro h
      cases h
      rfl
    · intro h
      cases h
      rfl

/-- Numbers in the range are divided unless the divisor is zero or the quotient is outside. -/
theorem quotient_of_stands (ha : Stands (f.arg 1) a) (hb : Stands (f.arg 2) b) :
    quotient f = if b = 0 then .error .divideByZero
      else if a = -2 ^ 63 ∧ b = -1 then .error .overflow else .ok (a.tdiv b, a.tmod b) := by
  unfold quotient
  rw [operandPair_of_stands ha hb]
  show (if b = 0 then _ else _) = _
  by_cases hzero : b = 0
  · rw [if_pos hzero, if_pos hzero]
  · rw [if_neg hzero, if_neg hzero]
    by_cases hout : a = -2 ^ 63 ∧ b = -1
    · have hbeyond := mt (inRange_tdiv_iff ha.2 hzero).mp (not_not_intro hout)
      rw [if_pos hout, checked_of_not_inRange hbeyond]
      rfl
    · rw [if_neg hout, checked_of_inRange ((inRange_tdiv_iff ha.2 hzero).mpr hout)]
      rfl

end Builtins

/-! ## What the builtins come to -/

open Builtins

namespace Builtin

/-- A builtin leaves the session as it is and yields the text of a number, which reads back as the
number. -/
def Yields (code : Builtin) (f : Frame) (s : Session) (n : Int) : Prop :=
  code.perform f s = .ok (render n) s ∧ read (render n) = .ok n

/-- A builtin leaves the session as it is and fails. -/
def Fails (code : Builtin) (f : Frame) (s : Session) (e : Error) : Prop :=
  code.perform f s = .error e s

variable {code : Builtin} {f : Frame} {s : Session} {result : Except Error Int}

/-- A builtin for numbers yields a number exactly if its calculation gives it, and it is in the
range. -/
theorem yields_iff (hcode : code.perform f = yieldNumber result) {n : Int} :
    code.Yields f s n ↔ result = .ok n ∧ InRange n := by
  unfold Yields
  rw [hcode, read_render_eq_ok_iff]
  refine and_congr_left fun hn => ?_
  cases result with
  | error e => exact iff_of_false (by rintro ⟨⟩) (by simp)
  | ok m =>
    constructor
    · intro h
      have htext : render m = render n := (EStateM.Result.ok.inj h).1
      have hback : read (render n) = .ok n := read_render_eq_ok_iff.mpr hn
      rw [← htext, read_render, checked_eq_ok_iff] at hback
      rw [hback.1]
    · intro h
      cases h
      rfl

/-- A builtin for numbers fails exactly if its calculation does. -/
theorem fails_iff (hcode : code.perform f = yieldNumber result) {e : Error} :
    code.Fails f s e ↔ result = .error e := by
  unfold Fails
  rw [hcode]
  cases result with
  | error e' =>
    constructor
    · intro h
      cases h
      rfl
    · intro h
      cases h
      rfl
  | ok m => exact iff_of_false (by rintro ⟨⟩) (by simp)

/-- A checked result is yielded or is an overflow. -/
theorem yields_checked_iff {n : Int} (hcode : code.perform f = yieldNumber (checked n)) :
    (code.Yields f s n ↔ InRange n) ∧ (code.Fails f s .overflow ↔ ¬ InRange n) := by
  rw [yields_iff hcode, fails_iff hcode, checked_eq_ok_iff, checked_eq_error_iff]
  exact ⟨⟨And.right, fun h => ⟨⟨rfl, h⟩, h⟩⟩, ⟨And.right, fun h => ⟨rfl, h⟩⟩⟩

/-- A builtin that combines its arguments yields their total exactly if all totals on the way are in
the range, and otherwise there is an overflow. -/
theorem yields_total_iff {op : Int → Int → Int} {total : List Int → Int} {values : List Int}
    (ht : Totals op total) (hcode : code.perform f = yieldNumber (combineAll op f))
    (hne : values ≠ []) (hvalues : List.Forall₂ Stands f.rest values) :
    (code.Yields f s (total values) ↔ ∀ p, p <+: values → InRange (total p)) ∧
      (code.Fails f s .overflow ↔ ¬ ∀ p, p <+: values → InRange (total p)) := by
  rw [yields_iff hcode, fails_iff hcode, combineAll_of_stands op hvalues]
  by_cases h : ∀ p, p <+: values → InRange (total p)
  · rw [combine_of_inRange ht hne h]
    exact ⟨iff_of_true ⟨rfl, h values (List.prefix_refl values)⟩ h,
      iff_of_false (by simp) (not_not_intro h)⟩
  · have hrange : ∀ n ∈ values, InRange n := by
      have hboth : List.Forall₂ (fun n text => InRange n ∧ Denotes text n) values f.rest :=
        hvalues.flip.imp fun _ _ => And.symm
      exact ((List.forall₂_and_left _ _).mp hboth).1
    rw [combine_of_not_inRange ht hrange h]
    exact ⟨iff_of_false (by simp) h, iff_of_true rfl h⟩

variable {a b : Int}

/-- A difference is yielded if it is in the range, and is an overflow otherwise. -/
theorem difference_of_stands (ha : Stands (f.arg 1) a) (hb : Stands (f.arg 2) b) :
    (subtract.Yields f s (a - b) ↔ InRange (a - b)) ∧
      (subtract.Fails f s .overflow ↔ ¬ InRange (a - b)) := by
  refine yields_checked_iff (congrArg yieldNumber ?_)
  unfold Builtins.subtract
  rw [operandPair_of_stands ha hb]
  rfl

/-- The quotient and the remainder fail where dividing does. -/
theorem fails_quotient_iff (hcode : code ∈ [divide, remainder]) {e : Error} :
    code.Fails f s e ↔ quotient f = .error e := by
  rcases List.mem_pair.mp hcode with rfl | rfl
  · exact (fails_iff rfl).trans map_eq_error_iff
  · exact (fails_iff rfl).trans map_eq_error_iff

/-- Dividing fails for the divisor zero and for the one quotient outside the range. -/
theorem undivided_of_stands (ha : Stands (f.arg 1) a) (hb : Stands (f.arg 2) b)
    (hcode : code ∈ [divide, remainder]) :
    (code.Fails f s .divideByZero ↔ b = 0) ∧
      (code.Fails f s .overflow ↔ a = -2 ^ 63 ∧ b = -1) := by
  rw [fails_quotient_iff hcode, fails_quotient_iff hcode, quotient_of_stands ha hb]
  by_cases hzero : b = 0
  · rw [if_pos hzero]
    subst hzero
    exact ⟨iff_of_true rfl rfl, iff_of_false (by simp) fun h => absurd h.2 (by decide)⟩
  · rw [if_neg hzero]
    by_cases hout : a = -2 ^ 63 ∧ b = -1
    · rw [if_pos hout]
      exact ⟨iff_of_false (by simp) hzero, iff_of_true rfl hout⟩
    · rw [if_neg hout]
      exact ⟨iff_of_false (by simp) hzero, iff_of_false (by simp) hout⟩

/-- In all other cases dividing yields the quotient without its fraction, and what is left. -/
theorem divided_of_stands (ha : Stands (f.arg 1) a) (hb : Stands (f.arg 2) b) (hzero : b ≠ 0)
    (hout : ¬ (a = -2 ^ 63 ∧ b = -1)) :
    divide.Yields f s (a.tdiv b) ∧ remainder.Yields f s (a.tmod b) := by
  have hquotient := quotient_of_stands ha hb
  rw [if_neg hzero, if_neg hout] at hquotient
  constructor
  · refine (yields_iff rfl).mpr ⟨?_, (inRange_tdiv_iff ha.2 hzero).mpr hout⟩
    unfold Builtins.divide
    rw [hquotient]
    rfl
  · refine (yields_iff rfl).mpr ⟨?_, ?_⟩
    · unfold Builtins.remainder
      rw [hquotient]
      rfl
    -- What is left is smaller than the divisor, which is in the range.
    · obtain ⟨-, hsmall, -⟩ := tmod_spec (a := a) hzero
      have hrange := hb.2
      unfold InRange at hrange ⊢
      rw [Int.abs_eq_natAbs, Int.abs_eq_natAbs] at hsmall
      omega

/-- The absolute value is outside the range for the least number only. -/
theorem absolute_of_stands (ha : Stands (f.arg 1) a) :
    (absolute.Yields f s |a| ↔ a ≠ -2 ^ 63) ∧ (absolute.Fails f s .overflow ↔ a = -2 ^ 63) := by
  have hrange : InRange |a| ↔ a ≠ -2 ^ 63 := by
    have hin := ha.2
    unfold InRange at hin ⊢
    rw [Int.abs_eq_natAbs]
    omega
  have hcode : Builtin.absolute.perform f = yieldNumber (checked |a|) := by
    refine congrArg yieldNumber ?_
    unfold Builtins.absolute
    rw [ha.read_eq, Int.abs_eq_natAbs]
    rfl
  obtain ⟨hyields, hfails⟩ := yields_checked_iff (s := s) hcode
  exact ⟨hyields.trans hrange, hfails.trans (by rw [hrange, not_not])⟩

/-- What the builtins for numbers come to in a call. -/
structure Calculates (f : Frame) (s : Session) : Prop where
  /-- The sum is yielded exactly if the sums of all parts at the front of the list are in the
  range. -/
  sum : ∀ values, values ≠ [] → List.Forall₂ Stands f.rest values →
    (add.Yields f s values.sum ↔ ∀ p, p <+: values → InRange p.sum) ∧
      (add.Fails f s .overflow ↔ ¬ ∀ p, p <+: values → InRange p.sum)
  /-- The product is yielded exactly if the products of all parts at the front are in the range. -/
  product : ∀ values, values ≠ [] → List.Forall₂ Stands f.rest values →
    (multiply.Yields f s values.prod ↔ ∀ p, p <+: values → InRange p.prod) ∧
      (multiply.Fails f s .overflow ↔ ¬ ∀ p, p <+: values → InRange p.prod)
  /-- The first argument that is no number in the range is reported, whatever those before it come
  to. -/
  refused : ∀ before text after e, f.rest = before ++ text :: after →
    (∀ t ∈ before, ∃ n, Stands t n) → read text = .error e →
    add.Fails f s e ∧ multiply.Fails f s e
  difference : ∀ a b, Stands (f.arg 1) a → Stands (f.arg 2) b →
    (subtract.Yields f s (a - b) ↔ InRange (a - b)) ∧
      (subtract.Fails f s .overflow ↔ ¬ InRange (a - b))
  /-- Dividing fails in two cases, each for the quotient and for the remainder. -/
  undivided : ∀ a b, Stands (f.arg 1) a → Stands (f.arg 2) b → ∀ code ∈ [divide, remainder],
    (code.Fails f s .divideByZero ↔ b = 0) ∧ (code.Fails f s .overflow ↔ a = -2 ^ 63 ∧ b = -1)
  /-- In all others the number is the divisor times the quotient and the remainder, which is smaller
  than the divisor and has the sign of the number. -/
  divided : ∀ a b, Stands (f.arg 1) a → Stands (f.arg 2) b → b ≠ 0 → ¬ (a = -2 ^ 63 ∧ b = -1) →
    ∃ q r, divide.Yields f s q ∧ remainder.Yields f s r ∧
      a = q * b + r ∧ |r| < |b| ∧ (r = 0 ∨ r.sign = a.sign)
  absolute : ∀ a, Stands (f.arg 1) a →
    (absolute.Yields f s |a| ↔ a ≠ -2 ^ 63) ∧ (absolute.Fails f s .overflow ↔ a = -2 ^ 63)

/-- The builtins for numbers are exact or report why not, in every call and every session: what they
yield is the text of the number asked for, which reads back as this number, and they fail exactly
where the number, or one on the way to it, is outside the range of 64 bits or where the divisor is
zero. Arguments are read before anything is calculated. -/
theorem arithmetic_exact (f : Frame) (s : Session) : Calculates f s where
  sum _ hne hvalues := yields_total_iff totals_sum rfl hne hvalues
  product _ hne hvalues := yields_total_iff totals_prod rfl hne hvalues
  refused _ _ _ _ hrest hbefore hread :=
    ⟨(fails_iff rfl).mpr (combineAll_of_refused _ hrest hbefore hread),
      (fails_iff rfl).mpr (combineAll_of_refused _ hrest hbefore hread)⟩
  difference _ _ ha hb := difference_of_stands ha hb
  undivided _ _ ha hb _ hcode := undivided_of_stands ha hb hcode
  divided a b ha hb hzero hout := by
    obtain ⟨hquotient, hremainder⟩ := divided_of_stands (s := s) ha hb hzero hout
    exact ⟨a.tdiv b, a.tmod b, hquotient, hremainder, tmod_spec hzero⟩
  absolute _ ha := absolute_of_stands ha

/-- What a text is read as it stands for, in the range. -/
theorem stands_of_read {text : String} {n : Int} (h : read text = .ok n) : Stands text n :=
  read_eq_ok_iff.mp h

/-- The greatest number and one are too much, also when one is taken away afterwards; the other way
round they are not. -/
theorem arithmetic_exact_order :
    add.Fails ⟨["ad", "9223372036854775807", "1", "-1"], true⟩ Interpreter.fresh.session .overflow ∧
      add.Yields ⟨["ad", "9223372036854775807", "-1", "1"], true⟩ Interpreter.fresh.session
        9223372036854775807 := by
  have hgreatest : Stands "9223372036854775807" 9223372036854775807 :=
    stands_of_read (by decide +kernel)
  have hone : Stands "1" 1 := stands_of_read (by decide +kernel)
  have hminus : Stands "-1" (-1) := stands_of_read (by decide +kernel)
  constructor
  · obtain ⟨-, hfails⟩ := (arithmetic_exact ⟨["ad", "9223372036854775807", "1", "-1"], true⟩
      Interpreter.fresh.session).sum _ (by simp) (.cons hgreatest (.cons hone (.cons hminus .nil)))
    refine hfails.mpr fun h => ?_
    exact absurd (h [9223372036854775807, 1] (by decide)) (by decide)
  · obtain ⟨hyields, -⟩ := (arithmetic_exact ⟨["ad", "9223372036854775807", "-1", "1"], true⟩
      Interpreter.fresh.session).sum _ (by simp) (.cons hgreatest (.cons hminus (.cons hone .nil)))
    refine hyields.mpr fun p hp => ?_
    rw [← List.mem_inits] at hp
    revert p
    decide

end Builtin

end TextMacro
