/-
`std::stoull` with the default base ten: skip blanks, read an optional sign,
read digits up to the first other character, and wrap a negated value modulo
`2 ^ 64`.
-/
import Mathlib.Algebra.Group.Nat.Defs
import Mathlib.Data.List.TakeWhile

namespace Stoull

/-- The two exceptions of `std::stoull`. -/
inductive Failure where
  | invalidArgument
  | outOfRange
deriving Repr, DecidableEq

/-- `isspace` in the "C" locale. -/
def isBlank (c : Char) : Bool :=
  c = ' ' || (9 ≤ c.toNat && c.toNat ≤ 13)

/-- Whether there is a minus sign, and the text after the sign if any. -/
def splitSign : List Char → Bool × List Char
  | '-' :: rest => (true, rest)
  | '+' :: rest => (false, rest)
  | text => (false, text)

def stoull (text : List Char) : Except Failure Nat :=
  let (negative, rest) := splitSign (text.dropWhile isBlank)
  let digits := rest.takeWhile Char.isDigit
  let magnitude := Nat.ofDigitChars 10 digits 0
  if digits = [] then .error .invalidArgument
  else if 2 ^ 64 ≤ magnitude then .error .outOfRange
  else if negative then .ok ((2 ^ 64 - magnitude) % 2 ^ 64)
  else .ok magnitude

/-- A decimal numeral: digits only, at least one. -/
def IsNumeral (text : List Char) : Prop :=
  text ≠ [] ∧ ∀ c ∈ text, c.isDigit = true

instance (text : List Char) : Decidable (IsNumeral text) :=
  decidable_of_iff (text ≠ [] ∧ text.all Char.isDigit = true)
    (and_congr_right' List.all_eq_true)

/-- The value of a decimal numeral. -/
def numeralValue (text : List Char) : Nat :=
  Nat.ofDigitChars 10 text 0

theorem isBlank_of_isDigit {c : Char} (hdigit : c.isDigit = true) :
    isBlank c = false := by
  have hrange : 48 ≤ c.toNat ∧ c.toNat ≤ 57 := by
    simpa [Char.isDigit, UInt32.le_iff_toNat_le] using hdigit
  have hspace : c ≠ ' ' := by
    rintro rfl
    simp at hrange
  simp only [isBlank, hspace, decide_false, Bool.false_or, Bool.and_eq_false_iff,
    decide_eq_false_iff_not]
  omega

theorem splitSign_of_isNumeral {text : List Char} (hnum : IsNumeral text) :
    splitSign text = (false, text) := by
  obtain ⟨hne, hall⟩ := hnum
  unfold splitSign
  split
  · simp at hall
  · simp at hall
  · rfl

theorem dropWhile_isBlank_of_isNumeral {text : List Char}
    (hnum : IsNumeral text) : text.dropWhile isBlank = text := by
  obtain ⟨hne, hall⟩ := hnum
  cases text with
  | nil => contradiction
  | cons c rest => simp [isBlank_of_isDigit (hall c List.mem_cons_self)]

/-- On a numeral the whole text is read. -/
theorem stoull_of_isNumeral {text : List Char} (hnum : IsNumeral text) :
    stoull text =
      if 2 ^ 64 ≤ numeralValue text then .error .outOfRange
      else .ok (numeralValue text) := by
  have htake : text.takeWhile Char.isDigit = text :=
    List.takeWhile_eq_self_iff.mpr hnum.2
  unfold stoull
  rw [dropWhile_isBlank_of_isNumeral hnum, splitSign_of_isNumeral hnum]
  simp only [htake, hnum.1, ↓reduceIte, Bool.false_eq_true]
  rfl

theorem stoull_lt {text : List Char} {value : Nat}
    (hvalue : stoull text = .ok value) : value < 2 ^ 64 := by
  unfold stoull at hvalue
  rcases splitSign (text.dropWhile isBlank) with ⟨negative, rest⟩
  dsimp only at hvalue
  split_ifs at hvalue with hempty hrange hnegative
  · cases hvalue
    exact Nat.mod_lt _ (by decide)
  · cases hvalue
    omega

/-- The decimal rendering of a number. -/
def numeral (n : Nat) : List Char :=
  Nat.toDigits 10 n

theorem numeral_isNumeral (n : Nat) : IsNumeral (numeral n) :=
  ⟨Nat.toDigits_ne_nil, fun _ hc =>
    Nat.isDigit_of_mem_toDigits (by decide) (by decide) hc⟩

@[simp] theorem numeralValue_numeral (n : Nat) :
    numeralValue (numeral n) = n :=
  Nat.ofDigitChars_ten_toDigits

/-- Reading a rendered 64-bit number gives it back. -/
theorem stoull_numeral {n : Nat} (hn : n < 2 ^ 64) :
    stoull (numeral n) = .ok n := by
  rw [stoull_of_isNumeral (numeral_isNumeral n), numeralValue_numeral,
    if_neg (by omega)]

end Stoull
