import Mathlib.Data.List.Induction
import Mathlib.Data.Nat.Digits.Defs
import TextMacro.Text.Decimal

/-!
# Numerals

A numeral is a sign, if there is one, and one digit or more; it stands for the sum of its digits
times the powers of ten. Reading a text as a number is decided by whether it is the text of a
numeral, and of which: a numeral is read as the number that it stands for, checked against the range
(`Decimal.read_text`), and any other text is refused (`Decimal.read_of_not_numeral`). How a number
is written is one of its numerals, so it reads back as the number (`Decimal.read_render`).
-/

namespace TextMacro

/-- A sign in front of a number. -/
inductive Sign where
  | plus
  | minus
  deriving DecidableEq, Repr

/-- The character of a sign. -/
def Sign.char : Sign → Char
  | plus => '+'
  | minus => '-'

/-- A decimal number as it may be written. -/
structure Numeral where
  sign : Option Sign
  /-- The digits, the one of the highest power first. -/
  digits : List (Fin 10)
  digits_ne_nil : digits ≠ []

namespace Numeral

/-- The characters of digits. -/
def digitChars (digits : List (Fin 10)) : List Char := digits.map fun d : Fin 10 => Nat.digitChar d

/-- The number that digits stand for. -/
def magnitude (digits : List (Fin 10)) : Nat := Nat.ofDigits 10 (digits.reverse.map Fin.val)

/-- The text of a numeral. -/
def text (n : Numeral) : String :=
  String.ofList (n.sign.toList.map Sign.char ++ digitChars n.digits)

/-- The number that a numeral stands for. -/
def value (n : Numeral) : Int :=
  if n.sign = some .minus then -(magnitude n.digits : Int) else magnitude n.digits

/-! ## Digits -/

/-- A digit is one of ten characters. -/
theorem isDigit_iff {c : Char} : c.isDigit = true ↔ ∃ d : Fin 10, Nat.digitChar d = c := by
  constructor
  · intro h
    obtain ⟨hge, hle⟩ := Char.isDigit_iff_toNat.mp h
    have hchars : ∀ n : Fin 58, 48 ≤ n.val → ∃ d : Fin 10, Nat.digitChar d = Char.ofNat n := by
      decide
    have hlt : c.toNat < 58 := Nat.lt_succ_of_le hle
    obtain ⟨d, hd⟩ := hchars ⟨c.toNat, hlt⟩ hge
    exact ⟨d, hd.trans (Char.ofNat_toNat c)⟩
  · rintro ⟨d, rfl⟩
    revert d
    decide

/-- Characters that are digits are those of a list of digits. -/
theorem exists_digits {cs : List Char} (h : ∀ c ∈ cs, c.isDigit = true) :
    ∃ digits, digitChars digits = cs := by
  induction cs with
  | nil => exact ⟨[], rfl⟩
  | cons c cs ih =>
    obtain ⟨digits, rfl⟩ := ih fun d hd => h d (List.mem_cons_of_mem c hd)
    obtain ⟨d, rfl⟩ := isDigit_iff.mp (h c List.mem_cons_self)
    exact ⟨d :: digits, rfl⟩

/-- Going through the characters of digits from left to right gives the number that they stand
for. -/
theorem ofDigitChars_digitChars (digits : List (Fin 10)) :
    Nat.ofDigitChars 10 (digitChars digits) 0 = magnitude digits := by
  induction digits using List.reverseRecOn with
  | nil => rfl
  | append_singleton digits d ih =>
    unfold digitChars magnitude at ih ⊢
    rw [List.map_append, List.map_singleton, Nat.ofDigitChars_append,
      Nat.ofDigitChars_cons_digitChar_of_lt_ten d.isLt, Nat.ofDigitChars_nil, ih,
      List.reverse_append, List.reverse_singleton, List.singleton_append, List.map_cons,
      Nat.ofDigits_cons, Nat.add_comm]

end Numeral

/-! ## Reading -/

namespace Decimal

open Numeral

/-- The numbers of 64 bits, with a sign. -/
def InRange (n : Int) : Prop := -2 ^ 63 ≤ n ∧ n < 2 ^ 63

/-- Whether a number is in the range can be computed. -/
instance (n : Int) : Decidable (InRange n) := inferInstanceAs (Decidable (_ ∧ _))

/-- The numbers that fit are those in the range. -/
theorem fits_iff {n : Int} : fits n = true ↔ InRange n := by
  unfold fits minValue maxValue InRange
  rw [Bool.and_eq_true, decide_eq_true_eq, decide_eq_true_eq]
  omega

/-- A number in the range is let through. -/
theorem checked_of_inRange {n : Int} (h : InRange n) : checked n = .ok n :=
  if_pos (fits_iff.mpr h)

/-- A number outside the range overflows. -/
theorem checked_of_not_inRange {n : Int} (h : ¬ InRange n) : checked n = .error .overflow :=
  if_neg (mt fits_iff.mp h)

/-- Only numbers in the range are let through, as they are. -/
theorem checked_eq_ok_iff {n m : Int} : checked n = .ok m ↔ n = m ∧ InRange m := by
  by_cases h : InRange n
  · rw [checked_of_inRange h, Except.ok.injEq]
    exact ⟨fun heq => ⟨heq, heq ▸ h⟩, And.left⟩
  · rw [checked_of_not_inRange h]
    refine iff_of_false (by simp) ?_
    rintro ⟨rfl, hrange⟩
    exact h hrange

/-- Only numbers outside the range are refused, and with an overflow. -/
theorem checked_eq_error_iff {n : Int} {e : Error} :
    checked n = .error e ↔ e = .overflow ∧ ¬ InRange n := by
  by_cases h : InRange n
  · rw [checked_of_inRange h]
    simp [h]
  · rw [checked_of_not_inRange h]
    simp [h, eq_comm]

/-- Digits are read as the number that they stand for. -/
theorem magnitude?_digitChars {digits : List (Fin 10)} (h : digits ≠ []) :
    magnitude? (digitChars digits) = some (magnitude digits) := by
  have hsome : (digitChars digits).isEmpty = false := by simpa [digitChars] using h
  have hall : (digitChars digits).all Char.isDigit = true := by
    rw [List.all_eq_true]
    intro c hc
    obtain ⟨d, -, rfl⟩ := List.mem_map.mp hc
    exact isDigit_iff.mpr ⟨d, rfl⟩
  unfold magnitude?
  rw [hsome, hall, if_neg (by simp)]
  exact congrArg some (ofDigitChars_digitChars digits)

/-- What is read as digits is one digit or more. -/
theorem eq_digitChars_of_magnitude? {cs : List Char} {n : Nat} (h : magnitude? cs = some n) :
    ∃ digits, digits ≠ [] ∧ digitChars digits = cs := by
  unfold magnitude? at h
  split at h
  · simp at h
  · rename_i hdigits
    obtain ⟨hsome, hall⟩ : cs ≠ [] ∧ ∀ c ∈ cs, c.isDigit = true := by simpa using hdigits
    obtain ⟨digits, rfl⟩ := exists_digits hall
    exact ⟨digits, fun hnil => hsome (by rw [hnil]; rfl), rfl⟩

/-- A digit in front is no sign. -/
theorem splitSign_digitChars (digits : List (Fin 10)) :
    splitSign (digitChars digits) = (false, digitChars digits) := by
  have hsigns : ∀ d : Fin 10, Nat.digitChar d ≠ '-' ∧ Nat.digitChar d ≠ '+' := by decide
  cases digits with
  | nil => rfl
  | cons d digits =>
    obtain ⟨hminus, hplus⟩ := hsigns d
    unfold splitSign digitChars
    rw [List.map_cons]
    split
    · rename_i heq
      exact absurd (List.cons.inj heq).1 hminus
    · rename_i heq
      exact absurd (List.cons.inj heq).1 hplus
    · rfl

/-- The sign of a numeral is split off. -/
theorem splitSign_text (n : Numeral) :
    splitSign n.text.toList = (decide (n.sign = some .minus), digitChars n.digits) := by
  obtain ⟨sign, digits, hdigits⟩ := n
  unfold text
  rw [String.toList_ofList]
  cases sign with
  | none => exact splitSign_digitChars digits
  | some sign =>
    cases sign with
    | plus => rfl
    | minus => rfl

/-- What is split off is a sign, or nothing is. -/
theorem eq_of_splitSign {cs digits : List Char} {minus : Bool}
    (h : splitSign cs = (minus, digits)) :
    ∃ sign : Option Sign, sign.toList.map Sign.char ++ digits = cs := by
  unfold splitSign at h
  split at h
  · obtain ⟨-, rfl⟩ := Prod.mk.inj h
    exact ⟨some .minus, rfl⟩
  · obtain ⟨-, rfl⟩ := Prod.mk.inj h
    exact ⟨some .plus, rfl⟩
  · obtain ⟨-, rfl⟩ := Prod.mk.inj h
    exact ⟨none, rfl⟩

/-- A numeral is read as the number that it stands for, if this fits. -/
theorem read_text (n : Numeral) : read n.text = checked n.value := by
  unfold read
  rw [splitSign_text]
  dsimp only
  rw [magnitude?_digitChars n.digits_ne_nil]
  unfold value
  simp only [decide_eq_true_eq]

/-- A text that is no numeral is refused. -/
theorem read_of_not_numeral {text : String} (h : ∀ n : Numeral, n.text ≠ text) :
    read text = .error (.notDecimal text) := by
  unfold read
  cases hsplit : splitSign text.toList with
  | mk minus digits =>
    dsimp only
    cases hmagnitude : magnitude? digits with
    | none => rfl
    | some value =>
      -- A sign and digits would make a numeral.
      obtain ⟨ds, hne, rfl⟩ := eq_digitChars_of_magnitude? hmagnitude
      obtain ⟨sign, hsign⟩ := eq_of_splitSign hsplit
      refine absurd ?_ (h ⟨sign, ds, hne⟩)
      unfold Numeral.text
      dsimp only
      rw [hsign, String.ofList_toList]

/-- Every text is a numeral or refused. -/
theorem numeral_or_refused (text : String) :
    (∃ n : Numeral, n.text = text) ∨
      (∀ n : Numeral, n.text ≠ text) ∧ read text = .error (.notDecimal text) := by
  by_cases h : ∃ n : Numeral, n.text = text
  · exact .inl h
  · have hnot : ∀ n : Numeral, n.text ≠ text := fun n hn => h ⟨n, hn⟩
    exact .inr ⟨hnot, read_of_not_numeral hnot⟩

/-- A text stands for a number if it is the text of a numeral that does. -/
def Denotes (text : String) (n : Int) : Prop :=
  ∃ numeral : Numeral, numeral.text = text ∧ numeral.value = n

/-- A number is read off the texts that stand for it, if it is in the range. -/
theorem read_eq_ok_iff {text : String} {n : Int} :
    read text = .ok n ↔ Denotes text n ∧ InRange n := by
  constructor
  · intro h
    rcases numeral_or_refused text with ⟨numeral, rfl⟩ | ⟨-, hrefused⟩
    · rw [read_text, checked_eq_ok_iff] at h
      exact ⟨⟨numeral, rfl, h.1⟩, h.2⟩
    · simp [hrefused] at h
  · rintro ⟨⟨numeral, rfl, rfl⟩, hrange⟩
    rw [read_text, checked_eq_ok_iff]
    exact ⟨rfl, hrange⟩

/-- A number outside the range is an overflow. -/
theorem read_eq_overflow_iff {text : String} :
    read text = .error .overflow ↔ ∃ n, Denotes text n ∧ ¬ InRange n := by
  constructor
  · intro h
    rcases numeral_or_refused text with ⟨numeral, rfl⟩ | ⟨-, hrefused⟩
    · rw [read_text, checked_eq_error_iff] at h
      exact ⟨numeral.value, ⟨numeral, rfl, rfl⟩, h.2⟩
    · simp [hrefused] at h
  · rintro ⟨n, ⟨numeral, rfl, rfl⟩, hrange⟩
    rw [read_text, checked_eq_error_iff]
    exact ⟨rfl, hrange⟩

/-- A text that stands for no number is refused. -/
theorem read_eq_notDecimal_iff {text : String} :
    read text = .error (.notDecimal text) ↔ ∀ n, ¬ Denotes text n := by
  constructor
  · rintro h n ⟨numeral, rfl, rfl⟩
    rw [read_text, checked_eq_error_iff] at h
    simp at h
  · intro h
    exact read_of_not_numeral fun numeral htext => h numeral.value ⟨numeral, htext, rfl⟩

/-! ## Counts -/

/-- A count is a number that is not negative. -/
theorem readCount_of_ok {text : String} {n : Int} (h : read text = .ok n) :
    readCount text = if n < 0 then .error (.negative text) else .ok n.toNat := by
  unfold readCount
  rw [h]
  rfl

/-- What is refused as a number is refused as a count. -/
theorem readCount_of_error {text : String} {e : Error} (h : read text = .error e) :
    readCount text = .error e := by
  unfold readCount
  rw [h]
  rfl

/-- A count is a number that is not negative. -/
theorem readCount_eq_ok_iff {text : String} {n : Nat} :
    readCount text = .ok n ↔ read text = .ok (n : Int) := by
  cases h : read text with
  | ok m =>
    rw [readCount_of_ok h, Except.ok.injEq]
    split
    · rename_i hneg
      refine iff_of_false (by simp) ?_
      omega
    · rw [Except.ok.injEq]
      omega
  | error e =>
    rw [readCount_of_error h]
    simp

/-- What is no count is no number, or a negative one. -/
theorem readCount_eq_error_iff {text : String} {e : Error} :
    readCount text = .error e ↔
      read text = .error e ∨ (e = .negative text ∧ ∃ n, read text = .ok n ∧ n < 0) := by
  cases h : read text with
  | ok m =>
    rw [readCount_of_ok h]
    split
    · rename_i hneg
      simp [hneg, eq_comm]
    · rename_i hpos
      simp [hpos]
  | error e' =>
    rw [readCount_of_error h]
    simp

/-! ## Writing -/

/-- The digits of a number are read as the number. -/
theorem magnitude?_toDigits (n : Nat) : magnitude? (Nat.toDigits 10 n) = some n := by
  have hdigits : ∀ c ∈ Nat.toDigits 10 n, c.isDigit = true := fun c hc =>
    Nat.isDigit_of_mem_toDigits (by decide) (by decide) hc
  unfold magnitude?
  rw [if_neg (by simpa using hdigits)]
  exact congrArg some Nat.ofDigitChars_ten_toDigits

/-- The digits of a number have no sign in front. -/
theorem splitSign_toDigits (n : Nat) :
    splitSign (Nat.toDigits 10 n) = (false, Nat.toDigits 10 n) := by
  obtain ⟨digits, hdigits⟩ := exists_digits fun c hc =>
    Nat.isDigit_of_mem_toDigits (b := 10) (n := n) (c := c) (by decide) (by decide) hc
  rw [← hdigits]
  exact splitSign_digitChars digits

/-- A number is read off its text, if it is in the range. -/
theorem read_render (n : Int) : read (render n) = checked n := by
  unfold read render Int.repr
  cases n with
  | ofNat n =>
    dsimp only
    rw [Nat.toList_repr, splitSign_toDigits]
    dsimp only
    rw [magnitude?_toDigits]
    rfl
  | negSucc n =>
    have hminus : splitSign ("-" ++ Nat.repr (n + 1)).toList = (true, Nat.toDigits 10 (n + 1)) := by
      rw [String.toList_append, Nat.toList_repr]
      rfl
    dsimp only
    rw [hminus]
    dsimp only
    rw [magnitude?_toDigits]
    rfl

/-- A number in the range is read off its text. -/
theorem read_render_eq_ok_iff {n : Int} : read (render n) = .ok n ↔ InRange n := by
  rw [read_render, checked_eq_ok_iff]
  exact and_iff_right rfl

/-- What is read as a number. A text is read as `n` exactly if it is an optional sign and digits
that stand for `n`, which has to be a number of 64 bits; it is an overflow if it has this form and
the number is not one of them, and refused as no decimal otherwise. The text of a number of 64 bits
is read as the number. A count is read exactly where a number is that is not negative; a negative
one is refused as such, and what is no number for the same reason as there. -/
theorem accepts_numerals (text : String) :
    (∀ n, read text = .ok n ↔ Denotes text n ∧ -2 ^ 63 ≤ n ∧ n < 2 ^ 63) ∧
    (read text = .error .overflow ↔ ∃ n, Denotes text n ∧ ¬ (-2 ^ 63 ≤ n ∧ n < 2 ^ 63)) ∧
    (read text = .error (.notDecimal text) ↔ ∀ n, ¬ Denotes text n) ∧
    (∀ n, read (render n) = .ok n ↔ -2 ^ 63 ≤ n ∧ n < 2 ^ 63) ∧
    (∀ n : Nat, readCount text = .ok n ↔ read text = .ok (n : Int)) ∧
    (∀ e, readCount text = .error e ↔
      read text = .error e ∨ (e = .negative text ∧ ∃ n, read text = .ok n ∧ n < 0)) := by
  refine ⟨fun n => read_eq_ok_iff, read_eq_overflow_iff, read_eq_notDecimal_iff,
    fun n => read_render_eq_ok_iff, fun n => ?_, fun e => ?_⟩
  · exact readCount_eq_ok_iff
  · exact readCount_eq_error_iff

/-- The lower bound is reached, with zeros in front or without, and not passed. -/
example : read "-0009223372036854775808" = .ok (-2 ^ 63) ∧
    read "9223372036854775808" = .error .overflow ∧ readCount "-0" = .ok 0 := by
  decide +kernel

end Decimal

end TextMacro
