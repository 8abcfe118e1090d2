import CValues.Floating.Arithmetic
import Mathlib.Algebra.Order.Field.Rat

/-!
# Patterns as exact numbers

A floating pattern has three fields: a sign, an exponent that is stored with a bias, and a fraction.
`FloatFormat.number` reads them as the standard for floating arithmetic does. The fraction is the
part of a significand behind a leading one, or behind a leading zero if the exponent field is zero;
the last exponent is that of the infinities and of what is no number.

Everywhere else a finite pattern is counted in quanta. `number_eq_read` says that this is the same
number, for zeros of both signs and numbers without a leading one as for all others.
-/

namespace CValues

/-- What a floating pattern stands for, zero with its sign. -/
inductive Number where
  | nan
  | infinite (negative : Bool)
  | finite (negative : Bool) (size : ℚ)

/-- An integer as a number; zero is not negative. -/
def Number.ofInt (x : ℤ) : Number := .finite (decide (x < 0)) x.natAbs

/-- The number for a count of quanta. -/
def Reading.number (scale : ℕ) : Reading → Number
  | nan => .nan
  | infinite negative => .infinite negative
  | finite negative quanta => .finite negative (quanta / 2 ^ scale)

theorem cast_pow2 (n : ℕ) : (pow2 n : ℚ) = 2 ^ n := Nat.cast_pow 2 n

namespace FloatFormat

variable (f : FloatFormat)

/-! ## The fields of a pattern -/

/-- The number of bits of the exponent. -/
def exponentBits : FloatFormat → ℕ
  | single => 8
  | double => 11

/-- What the stored exponent is greater by. -/
def bias : FloatFormat → ℕ
  | single => 127
  | double => 1023

/-- The exponent as it is stored. -/
def exponent (p : f.Pattern) : ℕ := p.toNat / pow2 f.fractionBits % pow2 f.exponentBits

/-- The fraction, in units of its last bit. -/
def fraction (p : f.Pattern) : ℕ := p.toNat % pow2 f.fractionBits

/-- The number that the fields stand for. -/
def number (p : f.Pattern) : Number :=
  let significand : ℚ := f.fraction p / 2 ^ f.fractionBits
  if f.exponent p = pow2 f.exponentBits - 1 then
    if f.fraction p = 0 then .infinite (f.isNegative p) else .nan
  else if f.exponent p = 0 then
    .finite (f.isNegative p) (2 ^ (1 - f.bias : ℤ) * significand)
  else .finite (f.isNegative p) (2 ^ (f.exponent p - f.bias : ℤ) * (1 + significand))

/-! ## The fields in a magnitude -/

private theorem signBit_eq : f.signBit = pow2 f.fractionBits * pow2 f.exponentBits := by
  cases f <;> decide

theorem infinity_eq : f.infinity = (pow2 f.exponentBits - 1) * pow2 f.fractionBits := by
  cases f <;> decide

private theorem magnitude_eq (p : f.Pattern) :
    f.magnitude p = f.exponent p * pow2 f.fractionBits + f.fraction p := by
  rw [magnitude, signBit_eq, Nat.mod_mul, Nat.add_comm, Nat.mul_comm, exponent, fraction]

private theorem fraction_lt (p : f.Pattern) : f.fraction p < pow2 f.fractionBits :=
  Nat.mod_lt _ (pow2_pos _)

private theorem exponent_lt (p : f.Pattern) : f.exponent p < pow2 f.exponentBits :=
  Nat.mod_lt _ (pow2_pos _)

private theorem magnitude_of_exponent_eq {p : f.Pattern}
    (he : f.exponent p = pow2 f.exponentBits - 1) : f.magnitude p = f.infinity + f.fraction p := by
  rw [magnitude_eq, infinity_eq, he]

private theorem magnitude_lt_infinity {p : f.Pattern}
    (he : f.exponent p ≠ pow2 f.exponentBits - 1) : f.magnitude p < f.infinity := by
  have hlt := f.exponent_lt p
  have hnext : f.exponent p + 1 ≤ pow2 f.exponentBits - 1 := by omega
  calc f.magnitude p = f.exponent p * pow2 f.fractionBits + f.fraction p := f.magnitude_eq p
    _ < f.exponent p * pow2 f.fractionBits + pow2 f.fractionBits :=
      Nat.add_lt_add_left (f.fraction_lt p) _
    _ = (f.exponent p + 1) * pow2 f.fractionBits := (Nat.succ_mul _ _).symm
    _ ≤ (pow2 f.exponentBits - 1) * pow2 f.fractionBits := Nat.mul_le_mul_right _ hnext
    _ = f.infinity := f.infinity_eq.symm

/-! ## Numbers in quanta -/

/-- A quantum is the last bit of the fraction at the least exponent. -/
theorem two_pow_scale : (2 : ℚ) ^ f.scale * 2 = 2 ^ f.bias * 2 ^ f.fractionBits := by
  rw [← pow_succ, ← pow_add]
  cases f <;> rfl

private theorem quanta_of_exponent_zero (r : ℕ) :
    (r : ℚ) / 2 ^ f.scale = 2 ^ (1 - f.bias : ℤ) * (r / 2 ^ f.fractionBits) := by
  rw [zpow_sub₀ two_ne_zero, zpow_one, zpow_natCast]
  calc (r : ℚ) / 2 ^ f.scale = r * 2 / (2 ^ f.scale * 2) :=
        (mul_div_mul_right _ _ two_ne_zero).symm
    _ = 2 * r / (2 ^ f.bias * 2 ^ f.fractionBits) := by rw [two_pow_scale, mul_comm (r : ℚ)]
    _ = 2 / 2 ^ f.bias * (r / 2 ^ f.fractionBits) := (div_mul_div_comm _ _ _ _).symm

private theorem quanta_of_exponent_succ (e r : ℕ) :
    (((pow2 f.fractionBits + r) * pow2 e : ℕ) : ℚ) / 2 ^ f.scale
      = 2 ^ ((e + 1 : ℕ) - f.bias : ℤ) * (1 + r / 2 ^ f.fractionBits) := by
  have hleading : (1 : ℚ) + r / 2 ^ f.fractionBits
      = (2 ^ f.fractionBits + r) / 2 ^ f.fractionBits := by
    rw [add_div, div_self (pow_ne_zero _ two_ne_zero)]
  rw [zpow_sub₀ two_ne_zero, zpow_natCast, zpow_natCast, Nat.cast_mul, Nat.cast_add, cast_pow2,
    cast_pow2, pow_succ, hleading]
  calc ((2 : ℚ) ^ f.fractionBits + r) * 2 ^ e / 2 ^ f.scale
      = (2 ^ f.fractionBits + r) * 2 ^ e * 2 / (2 ^ f.scale * 2) :=
        (mul_div_mul_right _ _ two_ne_zero).symm
    _ = 2 ^ e * 2 * (2 ^ f.fractionBits + r) / (2 ^ f.bias * 2 ^ f.fractionBits) := by
        rw [two_pow_scale, mul_assoc, mul_comm]
    _ = 2 ^ e * 2 / 2 ^ f.bias * ((2 ^ f.fractionBits + r) / 2 ^ f.fractionBits) :=
        (div_mul_div_comm _ _ _ _).symm

/-- The fields of a pattern stand for the number that its quanta count. -/
theorem number_eq_read (p : f.Pattern) : f.number p = (f.read p).number f.scale := by
  by_cases he : f.exponent p = pow2 f.exponentBits - 1
  · have hm := f.magnitude_of_exponent_eq he
    by_cases hr : f.fraction p = 0
    · simp [number, read, isNaN, he, hm, hr, Reading.number]
    · simp [number, read, isNaN, he, hm, hr, Reading.number, Nat.pos_of_ne_zero hr]
  · have hm := f.magnitude_lt_infinity he
    have hread : f.read p = .finite (f.isNegative p) (f.quanta (f.magnitude p)) := by
      rw [read, isNaN, decide_eq_false (Nat.not_lt.mpr hm.le), if_neg Bool.false_ne_true,
        if_neg hm.ne]
    rw [hread, Reading.number, magnitude_eq, quanta_fields f (f.fraction_lt p), number, if_neg he]
    rcases Nat.eq_zero_or_eq_succ_pred (f.exponent p) with hzero | hsucc
    · rw [if_pos hzero, if_pos hzero, quanta_of_exponent_zero]
    · rw [hsucc, if_neg (Nat.succ_ne_zero _), if_neg (Nat.succ_ne_zero _), Nat.succ_sub_one,
        quanta_of_exponent_succ]

end FloatFormat

end CValues
