import CValues.Accumulator
import CValues.Width

/-!
# Patterns as residues

The pattern of an integer depends on its residue alone. So it does not matter whether integers are
reduced before an operation or only at the end, as long as the operation respects residues: sums,
differences, products, shifts to the left, and everything done bit by bit. Quotients, remainders and
shifts to the right do not; there the operation on the integers that two patterns stand for is the
operation of the machine on the patterns.
-/

namespace CValues

@[simp] theorem Width.truncate_read (w : Width) (s : Signedness) (p : BitVec w.bits) :
    w.truncate (s.read p) = p := by
  cases s with
  | signed => exact BitVec.ofInt_toInt
  | unsigned =>
    rw [truncate, Signedness.read, BitVec.ofInt_natCast, BitVec.ofNat_toNat, BitVec.setWidth_eq]

theorem Signedness.read_inj {n : Nat} {s : Signedness} {p q : BitVec n} :
    s.read p = s.read q ↔ p = q := by
  refine ⟨fun h ↦ ?_, fun h ↦ h ▸ rfl⟩
  cases s with
  | signed => exact BitVec.eq_of_toInt_eq h
  | unsigned => exact BitVec.eq_of_toNat_eq (Int.ofNat_inj.mp h)

@[simp] theorem Signedness.read_zero (n : Nat) (s : Signedness) : s.read (0#n) = 0 := by
  cases s with
  | signed => exact BitVec.toInt_zero
  | unsigned => rfl

theorem Signedness.read_eq_zero_iff {n : Nat} {s : Signedness} {p : BitVec n} :
    s.read p = 0 ↔ p = 0#n := by
  rw [← s.read_zero n, read_inj]

namespace Width

theorem bits_pos (w : Width) : 0 < w.bits := by cases w <;> decide

private theorem bits_le_accumulator (w : Width) : w.bits ≤ Accumulator.bits := by cases w <;> decide

/-! ## Operations that respect residues -/

theorem truncate_congr {w : Width} {x y : Int} (h : x % pow2 w.bits = y % pow2 w.bits) :
    w.truncate x = w.truncate y := by
  refine BitVec.eq_of_toNat_eq (Int.ofNat_inj.mp ?_)
  rw [toNat_truncate, toNat_truncate, h]

theorem toNat_truncate_of_lt {w : Width} {n : Nat} (hn : n < pow2 w.bits) :
    (w.truncate n).toNat = n := by
  rw [truncate, BitVec.ofInt_natCast, BitVec.toNat_ofNat]
  exact Nat.mod_eq_of_lt hn

/-- A pattern stands for an integer of the residue it was made from. -/
theorem read_truncate_emod (w : Width) (s : Signedness) (x : Int) :
    s.read (w.truncate x) % pow2 w.bits = x % pow2 w.bits := by
  rw [← toNat_truncate, truncate_read, toNat_truncate]

/-- A pattern cut in two steps is cut as in one. -/
theorem truncate_read_truncate {v w : Width} (hvw : v.bits ≤ w.bits) (s : Signedness) (x : Int) :
    v.truncate (s.read (w.truncate x)) = v.truncate x := by
  have hdvd : (pow2 v.bits : Int) ∣ pow2 w.bits := Int.natCast_dvd_natCast.mpr (pow2_dvd hvw)
  refine truncate_congr ?_
  rw [← Int.emod_emod_of_dvd (s.read (w.truncate x)) hdvd, read_truncate_emod,
    Int.emod_emod_of_dvd x hdvd]

@[simp] theorem truncate_wrap (w : Width) (x : Int) :
    w.truncate (Accumulator.wrap x) = w.truncate x :=
  truncate_congr (Accumulator.wrap_emod w.bits_le_accumulator x)

theorem truncate_add (w : Width) (x y : Int) :
    w.truncate (x + y) = w.truncate x + w.truncate y := BitVec.ofInt_add x y

theorem truncate_neg (w : Width) (x : Int) : w.truncate (-x) = -w.truncate x := BitVec.ofInt_neg

theorem truncate_sub (w : Width) (x y : Int) :
    w.truncate (x - y) = w.truncate x - w.truncate y := by
  rw [Int.sub_eq_add_neg, truncate_add, truncate_neg, BitVec.sub_eq_add_neg]

theorem truncate_mul (w : Width) (x y : Int) :
    w.truncate (x * y) = w.truncate x * w.truncate y := BitVec.ofInt_mul x y

theorem truncate_shiftLeft (w : Width) (x : Int) (count : Nat) :
    w.truncate (x <<< count) = w.truncate x <<< count := by
  rw [Int.shiftLeft_eq', truncate_mul, BitVec.shiftLeft_eq_mul_twoPow]
  refine congrArg _ (BitVec.eq_of_toNat_eq ?_)
  rw [truncate, BitVec.ofInt_natCast, BitVec.toNat_ofNat, BitVec.toNat_twoPow]

/-- The accumulator's bits of an integer end with its pattern. -/
theorem setWidth_ofInt_accumulator (w : Width) (x : Int) :
    (BitVec.ofInt Accumulator.bits x).setWidth w.bits = w.truncate x := by
  rw [← BitVec.signExtend_eq_setWidth_of_le _ w.bits_le_accumulator, BitVec.signExtend,
    BitVec.toInt_ofInt]
  exact w.truncate_wrap x

/-- An operation that works on each bit for itself works on the last bits alone. -/
theorem truncate_bitwise (w : Width)
    (op : BitVec Accumulator.bits → BitVec Accumulator.bits → BitVec Accumulator.bits)
    (op' : BitVec w.bits → BitVec w.bits → BitVec w.bits)
    (hop : ∀ p q, (op p q).setWidth w.bits = op' (p.setWidth w.bits) (q.setWidth w.bits))
    (x y : Int) :
    w.truncate (Accumulator.bitwise op x y) = op' (w.truncate x) (w.truncate y) := by
  -- the accumulator reads its result as signed, which is a sign extension seen from the width
  rw [Accumulator.bitwise, truncate, ← BitVec.signExtend,
    BitVec.signExtend_eq_setWidth_of_le _ w.bits_le_accumulator, hop, setWidth_ofInt_accumulator,
    setWidth_ofInt_accumulator]

end Width

/-! ## Operations on what the patterns stand for -/

namespace Signedness

variable {n : Nat}

/-- The quotient of two patterns, rounded toward zero. -/
def quotient (x y : BitVec n) : Signedness → BitVec n
  | signed => x.sdiv y
  | unsigned => x.udiv y

/-- The remainder that belongs to the quotient. -/
def remainder (x y : BitVec n) : Signedness → BitVec n
  | signed => x.srem y
  | unsigned => x.umod y

/-- A shift to the right that fills up with the sign, or with zeros where there is none. -/
def shiftRight (x : BitVec n) (count : Nat) : Signedness → BitVec n
  | signed => x.sshiftRight count
  | unsigned => x.ushiftRight count

end Signedness

namespace Width

variable {w : Width}

theorem truncate_tdiv_read (s : Signedness) (x y : BitVec w.bits) :
    w.truncate ((s.read x).tdiv (s.read y)) = s.quotient x y := by
  cases s with
  | signed =>
    refine BitVec.eq_of_toInt_eq ?_
    rw [truncate, BitVec.toInt_ofInt]
    exact (BitVec.toInt_sdiv x y).symm
  | unsigned =>
    change w.truncate ((x.toNat : Int).tdiv y.toNat) = x / y
    rw [← Int.ofNat_tdiv, BitVec.udiv_def]
    exact BitVec.ofInt_natCast _ _

theorem truncate_tmod_read (s : Signedness) (x y : BitVec w.bits) :
    w.truncate ((s.read x).tmod (s.read y)) = s.remainder x y := by
  cases s with
  | signed =>
    change w.truncate (x.toInt.tmod y.toInt) = x.srem y
    rw [← BitVec.toInt_srem]
    exact w.truncate_read .signed _
  | unsigned =>
    change w.truncate ((x.toNat : Int).tmod y.toNat) = x % y
    rw [← Int.ofNat_tmod, BitVec.umod_def]
    exact BitVec.ofInt_natCast _ _

theorem truncate_shiftRight_read (s : Signedness) (x : BitVec w.bits) (count : Nat) :
    w.truncate (s.read x >>> count) = s.shiftRight x count := by
  cases s with
  | signed => rfl
  | unsigned =>
    change w.truncate ((x.toNat : Int) >>> count) = x >>> count
    rw [← Int.natCast_shiftRight, truncate, BitVec.ofInt_natCast, ← BitVec.toNat_ushiftRight,
      BitVec.ofNat_toNat, BitVec.setWidth_eq]

end Width

end CValues
