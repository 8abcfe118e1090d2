import CValues.Proofs.Floating.Exactness

/-!
# Reading a `float` as a `double`

A machine that has read a `float` as a `double` can forget where it came from: whether it is a
number and whether it is zero, its integer part, and how it compares to another `float` are those of
the `double`. For numbers this is exactness, and for what is no number the quiet bit takes care that
it stays none.
-/

namespace CValues.FloatFormat

variable {f g : FloatFormat}

/-! ## What is no number -/

private theorem magnitude_quiet (p : f.Pattern) :
    f.magnitude (f.quiet p) = f.magnitude p ||| f.quietBit := by
  have hsign : f.signBit = 2 ^ (f.bits - 1) := rfl
  have hsmall : f.quietBit < f.signBit := by cases f <;> decide
  have hbits : f.quietBit < 2 ^ f.bits := by cases f <;> decide
  rw [magnitude, magnitude, quiet, BitVec.toNat_or, BitVec.toNat_ofNat, Nat.mod_eq_of_lt hbits,
    hsign, Nat.or_mod_two_pow, ← hsign, Nat.mod_eq_of_lt hsmall]

private theorem isNaN_quiet {p : f.Pattern} (hp : f.infinity ≤ f.magnitude p) :
    f.isNaN (f.quiet p) = true := by
  rw [isNaN, magnitude_quiet, decide_eq_true_iff]
  refine Nat.lt_of_le_of_ne (hp.trans Nat.left_le_or) fun heq ↦ ?_
  -- the quiet bit lies below those of the infinite magnitude
  have hclear : f.infinity.testBit (f.fractionBits - 1) = false := by cases f <;> decide
  have hset : f.quietBit.testBit (f.fractionBits - 1) = true := Nat.testBit_two_pow_self
  rw [heq, Nat.testBit_or, hset, Bool.or_true] at hclear
  cases hclear

private theorem isNaN_convert {p : f.Pattern} (hp : f.isNaN p = true) (g : FloatFormat) :
    g.isNaN (f.convert g p) = true := by
  have hpayload : f.magnitude p % pow2 f.fractionBits * pow2 g.fractionBits / pow2 f.fractionBits
      < pow2 g.fractionBits := by
    refine Nat.div_lt_of_lt_mul ?_
    exact Nat.mul_lt_mul_of_pos_right (Nat.mod_lt _ (pow2_pos _)) (pow2_pos _)
  have hroom : g.infinity + pow2 g.fractionBits = g.signBit := by cases g <;> decide
  rw [convert, read, if_pos hp]
  refine isNaN_quiet ?_
  rw [magnitude_ofMagnitude (by omega)]
  exact Nat.le_add_right _ _

/-! ## Numbers -/

/-- The magnitudes of a `float` and of the `double` for it. -/
private inductive SameMagnitude : ℕ → ℕ → Prop
  | infinite : SameMagnitude single.infinity double.infinity
  | finite {m n : ℕ} (hm : m < single.infinity) (hn : n < double.infinity)
      (hquanta : double.quanta n = single.quanta m * pow2 925) : SameMagnitude m n

private theorem SameMagnitude.lt_iff {m n m' n' : ℕ} (h : SameMagnitude m n)
    (h' : SameMagnitude m' n') : n < n' ↔ m < m' := by
  cases h with
  | infinite => cases h' with
    | infinite => exact iff_of_false (Nat.lt_irrefl _) (Nat.lt_irrefl _)
    | finite hm' hn' => exact iff_of_false hn'.le.not_gt hm'.le.not_gt
  | finite hm hn hquanta => cases h' with
    | infinite => exact iff_of_true hn hm
    | finite hm' hn' hquanta' =>
      rw [← double.quanta_strictMono.lt_iff_lt, hquanta, hquanta',
        Nat.mul_lt_mul_right (pow2_pos 925), single.quanta_strictMono.lt_iff_lt]

private theorem Widened.exists_sameMagnitude {p : single.Pattern} {q : double.Pattern}
    (h : Widened p q) :
    ∃ negative m n, SameMagnitude m n ∧ single.orderKey p = signedQuanta negative m ∧
      double.orderKey q = signedQuanta negative n := by
  have hkey {f : FloatFormat} {negative : Bool} {m : ℕ} (hm : m ≤ f.infinity) :
      f.orderKey (f.ofMagnitude negative m) = signedQuanta negative m := by
    have hsign := hm.trans_lt f.infinity_lt_signBit
    rw [orderKey, isNegative_ofMagnitude hsign, magnitude_ofMagnitude hsign, signedQuanta]
  cases h with
  | infinite negative => exact ⟨negative, _, _, .infinite, hkey le_rfl, hkey le_rfl⟩
  | finite negative hm hn hquanta =>
    exact ⟨negative, _, _, .finite hm hn hquanta, hkey hm.le, hkey hn.le⟩

private theorem Widened.isNaN_eq_false {p : single.Pattern} {q : double.Pattern}
    (h : Widened p q) : double.isNaN q = false := by
  cases h with
  | infinite =>
    rw [isNaN, FloatFormat.infinite, magnitude_ofMagnitude double.infinity_lt_signBit]
    exact decide_eq_false (Nat.lt_irrefl _)
  | finite negative hm hn =>
    rw [isNaN, magnitude_ofMagnitude (hn.trans double.infinity_lt_signBit)]
    exact decide_eq_false hn.le.not_gt

private theorem compare_congr {a b c d : ℤ} (hlt : a < b ↔ c < d) (hgt : b < a ↔ d < c) :
    compare a b = compare c d := by
  rcases lt_trichotomy a b with h | rfl | h
  · rw [compare_lt_iff_lt.mpr h, compare_lt_iff_lt.mpr (hlt.mp h)]
  · obtain rfl : c = d := by omega
    rw [compare_eq_iff_eq.mpr rfl, compare_eq_iff_eq.mpr rfl]
  · rw [compare_gt_iff_gt.mpr h, compare_gt_iff_gt.mpr (hgt.mp h)]

private theorem Widened.compare_orderKey {p p' : single.Pattern} {q q' : double.Pattern}
    (h : Widened p q) (h' : Widened p' q') :
    compare (double.orderKey q) (double.orderKey q')
      = compare (single.orderKey p) (single.orderKey p') := by
  obtain ⟨s, m, n, hmn, hp, hq⟩ := h.exists_sameMagnitude
  obtain ⟨s', m', n', hmn', hp', hq'⟩ := h'.exists_sameMagnitude
  have hzero : SameMagnitude 0 0 := by
    refine .finite (by decide) (by decide) ?_
    rw [quanta_eq_zero_iff.mpr rfl, quanta_eq_zero_iff.mpr rfl, Nat.zero_mul]
  have hlt := hmn.lt_iff hmn'
  have hgt := hmn'.lt_iff hmn
  have hpos := hzero.lt_iff hmn
  have hpos' := hzero.lt_iff hmn'
  rw [hp, hp', hq, hq']
  -- with the signs known, the order of the keys is that of the magnitudes and of zero
  cases s <;> cases s' <;>
    simp only [signedQuanta, if_true, Bool.false_eq_true, if_false] <;>
    apply compare_congr <;> omega

/-! ## The readings of a `double` -/

private theorem isNaN_widen (p : f.Pattern) : double.isNaN (f.widen p) = f.isNaN p := by
  cases f with
  | double => rfl
  | single =>
    cases hp : single.isNaN p with
    | true => exact isNaN_convert hp double
    | false => exact (widened_convert hp).isNaN_eq_false

theorem isZero_widen (p : f.Pattern) : double.isZero (f.widen p) = f.isZero p := by
  cases f with
  | double => rfl
  | single =>
    cases hp : single.isNaN p with
    | false => exact (widened_convert hp).isZero_eq
    | true =>
      have hwide := isNaN_widen p
      rw [hp, isNaN, decide_eq_true_iff] at hwide
      rw [isNaN, decide_eq_true_iff] at hp
      rw [isZero, isZero, decide_eq_false (Nat.ne_zero_of_lt hwide),
        decide_eq_false (Nat.ne_zero_of_lt hp)]

theorem toInt_widen (p : f.Pattern) : double.toInt (f.widen p) = f.toInt p := by
  cases f with
  | double => rfl
  | single =>
    cases hp : single.isNaN p with
    | false => exact (widened_convert hp).toInt_eq
    | true =>
      have hwide := isNaN_widen p
      rw [hp] at hwide
      rw [toInt, toInt, read, read, if_pos hwide, if_pos hp]

theorem order_widen (p q : f.Pattern) :
    double.order (f.widen p) (f.widen q) = f.order p q := by
  rw [order, order, isNaN_widen, isNaN_widen]
  cases f with
  | double => rfl
  | single =>
    cases hp : single.isNaN p <;> cases hq : single.isNaN q
    · exact congrArg some ((widened_convert hp).compare_orderKey (widened_convert hq))
    all_goals rfl

end CValues.FloatFormat
