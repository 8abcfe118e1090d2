import CValues.Power

/-!
# Floating formats

The two binary interchange formats, read without any floating arithmetic. The bits of a pattern
below its sign bit form its *magnitude*, and the magnitudes of one format are ordered as the numbers
they stand for. Every finite number of a format is a whole number of *quanta*, the quantum being its
least positive number; so a finite number is a sign and a natural number, and exact arithmetic on
numbers is arithmetic on integers.

Rounding goes the other way: `FloatFormat.roundMagnitude` takes a ratio of natural numbers, counted
in quanta, to the magnitude nearest to it. The magnitude of a rounded number is its significand plus
one fraction's worth for each halving of precision, and a significand that rounds up to the next
power of two lands on the right magnitude by itself.
-/

namespace CValues

/-- The quotient rounded to the nearest natural number, a tie going to the even one. -/
def roundDiv (numerator denominator : Nat) : Nat :=
  let quotient := numerator / denominator
  match compare (2 * (numerator % denominator)) denominator with
  | .lt => quotient
  | .eq => quotient + quotient % 2
  | .gt => quotient + 1

/-- A floating format. -/
inductive FloatFormat where
  | single
  | double
  deriving DecidableEq, Repr

namespace FloatFormat

/-- The number of bits of a pattern. -/
def bits : FloatFormat → Nat
  | single => 32
  | double => 64

/-- The number of bytes of a pattern. -/
def bytes (f : FloatFormat) : Nat := f.bits / 8

/-- The number of stored bits of the significand. -/
def fractionBits : FloatFormat → Nat
  | single => 23
  | double => 52

/-- The quantum is two to the power of minus this. -/
def scale : FloatFormat → Nat
  | single => 149
  | double => 1074

/-- A bit pattern of the format. -/
abbrev Pattern (f : FloatFormat) : Type := BitVec f.bits

/-- The pattern with only the sign bit set. -/
def signBit (f : FloatFormat) : Nat := pow2 (f.bits - 1)

/-- The magnitude of the infinities: the magnitudes below it are finite numbers, those above it are
no numbers. -/
def infinity (f : FloatFormat) : Nat := f.signBit - pow2 f.fractionBits

variable (f : FloatFormat)

/-- The bits below the sign bit. -/
def magnitude (p : f.Pattern) : Nat := p.toNat % f.signBit

/-- The sign bit is set. -/
def isNegative (p : f.Pattern) : Bool := p.msb

/-- The pattern with a sign and a magnitude. -/
def ofMagnitude (negative : Bool) (magnitude : Nat) : f.Pattern :=
  BitVec.ofNat f.bits (if negative then f.signBit + magnitude else magnitude)

/-- The pattern stands for no number. -/
def isNaN (p : f.Pattern) : Bool := decide (f.infinity < f.magnitude p)

/-- The pattern stands for zero, with either sign. -/
def isZero (p : f.Pattern) : Bool := decide (f.magnitude p = 0)

/-! ## Numbers as quanta -/

/-- The number of quanta in a finite magnitude. The leading bit of the significand is stored only by
way of the exponent, and only above the least exponent. -/
def quanta (magnitude : Nat) : Nat :=
  let exponent := magnitude / pow2 f.fractionBits
  let fraction := magnitude % pow2 f.fractionBits
  if exponent = 0 then fraction else (pow2 f.fractionBits + fraction) * pow2 (exponent - 1)

theorem quanta_fields {exponent fraction : Nat} (hfraction : fraction < pow2 f.fractionBits) :
    f.quanta (exponent * pow2 f.fractionBits + fraction)
      = if exponent = 0 then fraction
        else (pow2 f.fractionBits + fraction) * pow2 (exponent - 1) := by
  have hdiv : (exponent * pow2 f.fractionBits + fraction) / pow2 f.fractionBits = exponent := by
    rw [Nat.add_comm, Nat.add_mul_div_right _ _ (pow2_pos _), Nat.div_eq_of_lt hfraction,
      Nat.zero_add]
  rw [quanta, hdiv, Nat.mul_add_mod_self_right, Nat.mod_eq_of_lt hfraction]

end FloatFormat

/-- What a pattern stands for. -/
inductive Reading where
  /-- No number. -/
  | nan
  /-- An infinity. -/
  | infinite (negative : Bool)
  /-- A number with a sign, which zero has too, in quanta of its format. -/
  | finite (negative : Bool) (quanta : Nat)
  deriving DecidableEq, Repr

namespace FloatFormat

variable (f : FloatFormat)

/-- What a pattern stands for. -/
def read (p : f.Pattern) : Reading :=
  if f.isNaN p then .nan
  else if f.magnitude p = f.infinity then .infinite (f.isNegative p)
  else .finite (f.isNegative p) (f.quanta (f.magnitude p))

/-! ## Rounding -/

/-- The magnitude nearest to a ratio of quanta, a tie going to the even magnitude; the infinite one
if no finite magnitude is near enough. -/
def roundMagnitude (numerator denominator : Nat) : Nat :=
  let halvings := (numerator / denominator).log2 - f.fractionBits
  let significand := roundDiv numerator (denominator * pow2 halvings)
  min (halvings * pow2 f.fractionBits + significand) f.infinity

/-- The pattern with a sign that is nearest to a ratio of quanta. -/
def round (negative : Bool) (numerator denominator : Nat) : f.Pattern :=
  f.ofMagnitude negative (f.roundMagnitude numerator denominator)

end FloatFormat

end CValues
