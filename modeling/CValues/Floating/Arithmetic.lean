import CValues.Accumulator
import CValues.Floating.Format

/-!
# Floating arithmetic

Each operation computes the exact result as a ratio of quanta and rounds it once. Zero has a sign:
an exact zero sum is negative only if both operands are, a zero product or quotient takes the sign
of its operands.

An operand that is no number is the result, made quiet; of two such operands it is the first. An
operation on numbers that has no result, such as the difference of two infinities, gives the quiet
pattern with the sign bit set.
-/

namespace CValues.FloatFormat

variable (f : FloatFormat)

/-! ## Patterns that are no numbers -/

/-- The bit of a pattern that is no number which tells that it is quiet. -/
def quietBit : Nat := pow2 (f.fractionBits - 1)

/-- The same payload, quiet. -/
def quiet (p : f.Pattern) : f.Pattern := p ||| BitVec.ofNat f.bits f.quietBit

/-- The result of an operation that has none. -/
def noResult : f.Pattern := f.ofMagnitude true (f.infinity + f.quietBit)

/-! ## The four operations -/

/-- The same pattern with the other sign. -/
def negate (p : f.Pattern) : f.Pattern := p ^^^ BitVec.ofNat f.bits f.signBit

/-- An infinity. -/
def infinite (negative : Bool) : f.Pattern := f.ofMagnitude negative f.infinity

/-- A zero. -/
def zero (negative : Bool) : f.Pattern := f.ofMagnitude negative 0

/-- The number of quanta with its sign. -/
def signedQuanta (negative : Bool) (quanta : Nat) : Int := if negative then -quanta else quanta

/-- The sum of two finite numbers. -/
def addFinite (s : Bool) (m : Nat) (t : Bool) (n : Nat) : f.Pattern :=
  let total := signedQuanta s m + signedQuanta t n
  if total = 0 then f.zero (s && t) else f.round (decide (total < 0)) total.natAbs 1

/-- The sum. -/
def add (p q : f.Pattern) : f.Pattern :=
  match f.read p, f.read q with
  | .nan, _ => f.quiet p
  | _, .nan => f.quiet q
  | .infinite s, .infinite t => if s = t then p else f.noResult
  | .infinite _, .finite _ _ => p
  | .finite _ _, .infinite _ => q
  | .finite s m, .finite t n => f.addFinite s m t n

/-- The difference. -/
def sub (p q : f.Pattern) : f.Pattern :=
  if f.isNaN q then f.add p q else f.add p (f.negate q)

/-- The product. -/
def mul (p q : f.Pattern) : f.Pattern :=
  match f.read p, f.read q with
  | .nan, _ => f.quiet p
  | _, .nan => f.quiet q
  | .infinite s, .infinite t => f.infinite (s != t)
  | .infinite s, .finite t n => if n = 0 then f.noResult else f.infinite (s != t)
  | .finite s m, .infinite t => if m = 0 then f.noResult else f.infinite (s != t)
  | .finite s m, .finite t n => f.round (s != t) (m * n) (pow2 f.scale)

/-- The quotient. -/
def div (p q : f.Pattern) : f.Pattern :=
  match f.read p, f.read q with
  | .nan, _ => f.quiet p
  | _, .nan => f.quiet q
  | .infinite _, .infinite _ => f.noResult
  | .infinite s, .finite t _ => f.infinite (s != t)
  | .finite s _, .infinite t => f.zero (s != t)
  | .finite s m, .finite t n =>
    if n = 0 then (if m = 0 then f.noResult else f.infinite (s != t))
    else f.round (s != t) (m * pow2 f.scale) n

/-! ## Order -/

/-- An integer that orders the numbers of the format: the magnitude with its sign. The two zeros
have the same. -/
def orderKey (p : f.Pattern) : Int :=
  if f.isNegative p then -(f.magnitude p : Int) else f.magnitude p

/-- How two patterns compare, if both are numbers. -/
def order (p q : f.Pattern) : Option Ordering :=
  if f.isNaN p || f.isNaN q then none else some (compare (f.orderKey p) (f.orderKey q))

/-! ## Conversions -/

/-- The number nearest to an integer, a tie going to the even significand. -/
def ofInt (n : Int) : f.Pattern := f.round (decide (n < 0)) (n.natAbs * pow2 f.scale) 1

/-- The integer part of a number, as far as the accumulator holds it; zero for no number. -/
def toInt (p : f.Pattern) : Int :=
  match f.read p with
  | .nan => 0
  | .infinite negative => if negative then Accumulator.least else Accumulator.greatest
  | .finite negative quanta => Accumulator.clamp (signedQuanta negative (quanta / pow2 f.scale))

/-- The number of the format `g` nearest to a number of the format `f`. What is no number keeps its
sign and the leading bits of its payload, and becomes quiet. -/
def convert (g : FloatFormat) (p : f.Pattern) : g.Pattern :=
  match f.read p with
  | .nan =>
    let payload := f.magnitude p % pow2 f.fractionBits * pow2 g.fractionBits / pow2 f.fractionBits
    g.quiet (g.ofMagnitude (f.isNegative p) (g.infinity + payload))
  | .infinite negative => g.infinite negative
  | .finite negative quanta => g.round negative (quanta * pow2 g.scale) (pow2 f.scale)

/-- The same number in the wider format. -/
def widen : (f : FloatFormat) → f.Pattern → double.Pattern
  | double, p => p
  | single, p => single.convert double p

end CValues.FloatFormat
