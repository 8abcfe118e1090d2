import CValues.Power

/-!
# The accumulator

Arithmetic on machine integers is carried out in a signed accumulator of 128 bits, wide enough for
every operand of every width and signedness. Sums, differences and products wrap around there, which
leaves the low 64 bits exact; a floating number that does not fit is clamped to the nearer end.
-/

namespace CValues.Accumulator

/-- The number of bits. -/
def bits : Nat := 128

/-- The least integer it holds. -/
def least : Int := -(pow2 127 : Int)

/-- The greatest integer it holds. -/
def greatest : Int := (pow2 127 : Int) - 1

/-- What is left in the accumulator of a result that may not fit. -/
def wrap (x : Int) : Int := x.bmod (pow2 bits)

/-- The integer of the accumulator that is nearest to `x`. -/
def clamp (x : Int) : Int := if x < least then least else if greatest < x then greatest else x

/-- The result of an operation on the bits of both operands in two's complement. -/
def bitwise (op : BitVec bits → BitVec bits → BitVec bits) (x y : Int) : Int :=
  (op (BitVec.ofInt bits x) (BitVec.ofInt bits y)).toInt

/-- Wrapping around changes no residue modulo a power of two that the accumulator covers. -/
theorem wrap_emod {n : Nat} (hn : n ≤ bits) (x : Int) : wrap x % pow2 n = x % pow2 n := by
  have hdvd : (pow2 n : Int) ∣ pow2 bits := Int.natCast_dvd_natCast.mpr (pow2_dvd hn)
  rw [← Int.emod_emod_of_dvd (wrap x) hdvd, wrap, Int.bmod_emod, Int.emod_emod_of_dvd x hdvd]

end CValues.Accumulator
