import CValues.Proofs.Integer.CommonType
import CValues.Word
import Mathlib.Data.Set.Function

/-!
# Wraparound

Truncation and sign extension as arithmetic. Truncation takes an integer to its residue and respects
sums, differences and products; sign extension picks the one integer of the signed range with the
residue of a pattern. So the signed range and the patterns are two names for the same residues, and
reading a value of the one as a value of the other is a bijection.

A machine has only words of 64 bits for this. It truncates by a mask and extends by shifting the
sign to the top of the word and back; at the full width the mask is all ones and the shifts are by
nothing. Both come to the same as the arithmetic.
-/

namespace CValues.Width

variable {w : Width} {x : Int}

/-! ## Ranges -/

/-- The integers that patterns stand for with a sign. -/
def signedRange (w : Width) : Set Int :=
  {x | -(pow2 (w.bits - 1) : Int) ≤ x ∧ x < pow2 (w.bits - 1)}

/-- The numbers that patterns stand for without a sign. -/
def unsignedRange (w : Width) : Set Nat := {n | n < pow2 w.bits}

private theorem read_mem_signedRange (p : BitVec w.bits) :
    Signedness.signed.read p ∈ w.signedRange :=
  ⟨IntType.least_le_read ⟨w, .signed⟩ p,
    Int.lt_of_le_sub_one (IntType.read_le_greatest ⟨w, .signed⟩ p)⟩

private theorem read_truncate_of_mem_signedRange (hx : x ∈ w.signedRange) :
    Signedness.signed.read (w.truncate x) = x :=
  IntType.read_truncate (t := ⟨w, .signed⟩) hx.1 (Int.le_sub_one_of_lt hx.2)

private theorem pow2_bits (w : Width) : pow2 w.bits = 2 * pow2 (w.bits - 1) := by
  rw [Nat.mul_comm, ← pow2_succ, Nat.sub_add_cancel w.bits_pos]

/-! ## Sign extension -/

theorem signExtend_eq_read (w : Width) (n : Nat) :
    w.signExtend n = Signedness.signed.read (w.truncate n) := by
  rw [signExtend, truncate, BitVec.ofInt_natCast]
  rfl

theorem signExtend_mem_signedRange (w : Width) (n : Nat) : w.signExtend n ∈ w.signedRange := by
  rw [signExtend_eq_read]
  exact read_mem_signedRange _

theorem signExtend_emod (w : Width) (n : Nat) :
    w.signExtend n % pow2 w.bits = (n : Int) % pow2 w.bits := by
  rw [signExtend_eq_read, read_truncate_emod]

/-- Sign extension gives the only integer of the signed range with the residue. -/
theorem eq_signExtend_iff {n : Nat} :
    x = w.signExtend n ↔ x ∈ w.signedRange ∧ x % pow2 w.bits = (n : Int) % pow2 w.bits := by
  constructor
  · rintro rfl
    exact ⟨w.signExtend_mem_signedRange n, w.signExtend_emod n⟩
  · rintro ⟨hrange, hresidue⟩
    rw [signExtend_eq_read, ← truncate_congr hresidue, read_truncate_of_mem_signedRange hrange]

/-! ## Reinterpretation -/

/-- Reading again with a sign undoes reading without one, and the other way round. -/
theorem asSigned_invOn (w : Width) :
    Set.InvOn w.asSigned (fun x ↦ (w.asUnsigned x).toNat) w.signedRange w.unsignedRange := by
  constructor
  · intro x hx
    have hresidue : x % pow2 w.bits = ((w.truncate x).toNat : Int) % pow2 w.bits := by
      rw [toNat_truncate, Int.emod_emod]
    rw [asSigned_eq_signExtend]
    exact (eq_signExtend_iff.mpr ⟨hx, hresidue⟩).symm
  · intro n hn
    change (w.truncate (w.asSigned n)).toNat = n
    rw [asSigned_eq_signExtend, truncate_congr (w.signExtend_emod n), toNat_truncate_of_lt hn]

private theorem toNat_asUnsigned_of_neg (hx : x ∈ w.signedRange) (hneg : x < 0) :
    ((w.asUnsigned x).toNat : Int) = pow2 w.bits + x := by
  have hpow : (pow2 w.bits : Int) = 2 * pow2 (w.bits - 1) := congrArg Nat.cast w.pow2_bits
  have hleast := hx.1
  rw [asUnsigned, toNat_truncate, ← Int.add_emod_left, Int.emod_eq_of_lt]
  all_goals omega

/-! ## Words -/

theorem bits_le_word (w : Width) : w.bits ≤ 64 := by cases w <;> decide

theorem toNat_maskedWord (w : Width) (x : Int) :
    (w.maskedWord x).toNat = (w.truncate x).toNat := by
  have hword : ((BitVec.ofInt Accumulator.bits x).setWidth 64).toNat = (w64.truncate x).toNat :=
    congrArg BitVec.toNat (setWidth_ofInt_accumulator w64 x)
  have hmask : (BitVec.ofNat 64 w.mask).toNat = pow2 w.bits - 1 := by cases w <;> decide
  have hlow : (w.maskedWord x).toNat = (w64.truncate x).toNat % pow2 w.bits := by
    rw [maskedWord, BitVec.toNat_and, hword, hmask]
    exact Nat.and_two_pow_sub_one_eq_mod _ _
  have hdvd : (pow2 w.bits : Int) ∣ pow2 w64.bits :=
    Int.natCast_dvd_natCast.mpr (pow2_dvd w.bits_le_word)
  refine Int.ofNat_inj.mp ?_
  rw [hlow, Int.natCast_emod, toNat_truncate, toNat_truncate, Int.emod_emod_of_dvd x hdvd]

/-- Shifted to the top of a word, a pattern stands for the shifted integer of the signed range. -/
theorem bmod_pow2_mul {k : Nat} (hk : k + w.bits = 64) (n : Nat) :
    (pow2 k * n : Int).bmod (pow2 64) = pow2 k * w.signExtend n := by
  have hword : (pow2 64 : Int) = pow2 k * pow2 w.bits := by
    rw [← Int.natCast_mul, ← pow2_add, hk]
  have hpos : (0 : Int) < pow2 k := Int.natCast_pos.mpr (pow2_pos k)
  have hresidue : (pow2 k * n : Int) % pow2 64 = pow2 k * w.signExtend n % pow2 64 := by
    rw [hword, Int.mul_emod_mul_of_pos _ _ hpos, Int.mul_emod_mul_of_pos _ _ hpos,
      signExtend_emod]
  have hhalf : (pow2 64 : Int) = 2 * (pow2 k * pow2 (w.bits - 1)) := by
    rw [hword, pow2_bits, Int.natCast_mul, Int.mul_left_comm]
    rfl
  obtain ⟨hleast, hgreatest⟩ := w.signExtend_mem_signedRange n
  have hleast := Int.mul_le_mul_of_nonneg_left hleast (Int.le_of_lt hpos)
  have hgreatest := Int.mul_lt_mul_of_pos_left hgreatest hpos
  rw [Int.mul_neg] at hleast
  -- equal residues have equal balanced ones, and the right side is balanced already
  rw [← Int.emod_bmod, hresidue, Int.emod_bmod]
  apply Int.bmod_eq_of_le_mul_two <;> omega

theorem toInt_shiftedWord (w : Width) (word : BitVec 64) :
    (w.shiftedWord word).toInt = w.signExtend word.toNat := by
  have hk : 64 - w.bits + w.bits = 64 := Nat.sub_add_cancel w.bits_le_word
  rw [shiftedWord]
  generalize 64 - w.bits = k at hk
  have hup : (word <<< k).toInt = pow2 k * w.signExtend word.toNat := by
    rw [← bmod_pow2_mul hk, BitVec.toInt_shiftLeft, Nat.shiftLeft_eq, Nat.mul_comm]
    rfl
  have hne : (pow2 k : Int) ≠ 0 := Int.natCast_ne_zero.mpr (pow2_pos k).ne'
  rw [BitVec.toInt_sshiftRight, hup, Int.shiftRight_eq_div_pow]
  exact Int.mul_ediv_cancel_left _ hne

/-- **Wraparound.** Truncation gives the residue, by a mask on a word, and commutes with sums,
differences and products, also with those that have wrapped around in the accumulator. Sign
extension gives the one integer of the signed range that is congruent to the word, whatever its high
bits are, by two shifts. Reading a signed value without its sign and reading a pattern with a sign
are inverse bijections between the two ranges, and a negative value reads as two to the width more
than it is. -/
theorem wraparound_arithmetic (w : Width) :
    (∀ x, ((w.truncate x).toNat : Int) = x % pow2 w.bits ∧
      (w.truncate x).toNat = (w.maskedWord x).toNat ∧
      w.truncate (Accumulator.wrap x) = w.truncate x) ∧
    (∀ x y, w.truncate (x + y) = w.truncate x + w.truncate y ∧
      w.truncate (x - y) = w.truncate x - w.truncate y ∧
      w.truncate (x * y) = w.truncate x * w.truncate y) ∧
    (∀ (word : BitVec 64) (x : Int),
      (x = w.signExtend word.toNat ↔
        x ∈ w.signedRange ∧ x % pow2 w.bits = (word.toNat : Int) % pow2 w.bits) ∧
      w.signExtend word.toNat = (w.shiftedWord word).toInt) ∧
    Set.InvOn w.asSigned (fun x ↦ (w.asUnsigned x).toNat) w.signedRange w.unsignedRange ∧
    Set.BijOn (fun x ↦ (w.asUnsigned x).toNat) w.signedRange w.unsignedRange ∧
    Set.BijOn w.asSigned w.unsignedRange w.signedRange ∧
    ∀ x ∈ w.signedRange, x < 0 → ((w.asUnsigned x).toNat : Int) = pow2 w.bits + x := by
  have hunsigned : Set.MapsTo (fun x ↦ (w.asUnsigned x).toNat) w.signedRange w.unsignedRange :=
    fun x _ ↦ (w.asUnsigned x).isLt
  have hsigned : Set.MapsTo w.asSigned w.unsignedRange w.signedRange := by
    intro n _
    rw [asSigned_eq_signExtend]
    exact w.signExtend_mem_signedRange n
  have hinverse := w.asSigned_invOn
  exact ⟨fun x ↦ ⟨w.toNat_truncate x, (w.toNat_maskedWord x).symm, w.truncate_wrap x⟩,
    fun x y ↦ ⟨w.truncate_add x y, w.truncate_sub x y, w.truncate_mul x y⟩,
    fun word x ↦ ⟨eq_signExtend_iff, (w.toInt_shiftedWord word).symm⟩, hinverse,
    hinverse.bijOn hunsigned hsigned, hinverse.symm.bijOn hsigned hunsigned,
    fun x ↦ toNat_asUnsigned_of_neg⟩

/-- The least integer of 64 bits reads as the pattern of the top bit alone, which reads back as it.
Of the word `0xFFFF8000` the low 16 bits are the least integer of 16 bits. -/
theorem wraparound_arithmetic_least :
    (-9223372036854775808 ∈ w64.signedRange ∧
      (w64.asUnsigned (-9223372036854775808)).toNat = 9223372036854775808 ∧
      w64.asSigned 9223372036854775808 = -9223372036854775808) ∧
    w16.signExtend (0xFFFF8000#64).toNat = -32768 ∧
      (w16.shiftedWord 0xFFFF8000#64).toInt = -32768 := by
  obtain ⟨-, -, -, hinverse, -, -, hneg⟩ := wraparound_arithmetic w64
  have hleast : -9223372036854775808 ∈ w64.signedRange := ⟨by decide, by decide⟩
  have hsum := hneg _ hleast (by decide)
  have hpattern : (w64.asUnsigned (-9223372036854775808)).toNat = 9223372036854775808 :=
    Int.ofNat_inj.mp (hsum.trans (by decide))
  have hback : w64.asSigned (w64.asUnsigned (-9223372036854775808)).toNat
      = -9223372036854775808 := hinverse.1 hleast
  rw [hpattern] at hback
  obtain ⟨-, -, hextends, -⟩ := wraparound_arithmetic w16
  obtain ⟨hunique, hshifts⟩ := hextends 0xFFFF8000#64 (-32768)
  have hword := hunique.mpr ⟨⟨by decide, by decide⟩, by decide⟩
  exact ⟨⟨hleast, hpattern, hback⟩, hword.symm, (hword.trans hshifts).symm⟩

end CValues.Width
