import CValues.Floating.Format

/-!
# Shortest decimals

The reals that round to one magnitude of the double format form an interval: it reaches halfway to
the magnitudes on either side, and its ends belong to it exactly if the magnitude is even. Of the
decimals in the interval we want one with the fewest digits, and of those the nearest.

A decimal with few digits is a multiple of a large power of ten. The search therefore goes through
the powers of ten from the largest down and looks, for each, at the two multiples next to the
number. The first power with a multiple in the interval has the fewest digits, since a shorter
decimal would be a multiple of a larger power. All comparisons are between natural numbers.
-/

namespace CValues.Decimal

/-- The number `digits · 10 ^ exponent`. -/
structure Dec where
  /-- The significant digits. -/
  digits : Nat
  /-- The power of ten of the last digit. -/
  exponent : Int
  deriving DecidableEq, Repr

/-- How a decimal compares with `n` halves of a quantum of the double format. -/
def compareHalfQuanta (d : Dec) (n : Nat) : Ordering :=
  compare (d.digits * Nat.pow 10 d.exponent.toNat * pow2 (FloatFormat.double.scale + 1))
    (n * Nat.pow 10 (-d.exponent).toNat)

/-- The decimal rounds to the magnitude: it lies between the midpoints to the neighbours, or on one
of them if the magnitude is even. -/
def readsBack (magnitude : Nat) (d : Dec) : Bool :=
  let quanta := FloatFormat.double.quanta
  let low := compareHalfQuanta d (quanta (magnitude - 1) + quanta magnitude)
  let high := compareHalfQuanta d (quanta magnitude + quanta (magnitude + 1))
  let even := magnitude % 2 == 0
  (low == .gt || (even && low == .eq)) && (high == .lt || (even && high == .eq))

/-- The greatest multiple of a power of ten that does not exceed the magnitude's number. -/
def multipleBelow (magnitude : Nat) (exponent : Int) : Nat :=
  FloatFormat.double.quanta magnitude * Nat.pow 10 (-exponent).toNat
    / (Nat.pow 10 exponent.toNat * pow2 FloatFormat.double.scale)

/-- The nearer of the two multiples of a power of ten next to the number, among those that round to
the magnitude. Of two that are equally near it is the upper one. -/
def candidate? (magnitude : Nat) (exponent : Int) : Option Dec :=
  let digits := multipleBelow magnitude exponent
  let below : Dec := ⟨digits, exponent⟩
  let above : Dec := ⟨digits + 1, exponent⟩
  match readsBack magnitude below, readsBack magnitude above with
  | false, false => none
  | true, false => some below
  | false, true => some above
  | true, true =>
    -- Twice the midpoint of the two multiples against twice the number, in half quanta.
    match compareHalfQuanta ⟨2 * digits + 1, exponent⟩
        (4 * FloatFormat.double.quanta magnitude) with
    | .gt => some below
    | _ => some above

/-- The powers of ten from one above every finite number down to one below the quantum, where each
interval holds a multiple. -/
def exponents : List Int := (List.range 634).map fun (i : Nat) ↦ 309 - (i : Int)

/-- The exact value of a magnitude as a decimal. -/
def exact (magnitude : Nat) : Dec :=
  ⟨FloatFormat.double.quanta magnitude * Nat.pow 5 FloatFormat.double.scale,
    -(FloatFormat.double.scale : Int)⟩

/-- The decimal with the fewest digits that rounds to a positive finite magnitude, and the nearest of
those. -/
def shortest (magnitude : Nat) : Dec :=
  (exponents.findSome? (candidate? magnitude)).getD (exact magnitude)

end CValues.Decimal
