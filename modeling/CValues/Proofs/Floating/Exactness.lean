import CValues.Proofs.Floating.Number
import CValues.Proofs.Floating.Rounding
import CValues.Proofs.Logic.Derived

/-!
# Exact conversions of floating numbers

Rounding changes nothing where there is nothing to round: the magnitude nearest to a number of the
format is its own, whatever the denominator the number is written with. So a conversion is exact if
the new format has the number, and a count of quanta is a number of the format if it is a
significand of no more bits than the format has, shifted up.

Integers of no more bits than a significand are such counts in both formats, and so is every `float`
in the format of `double`, where the least of them has a leading one. What is converted exactly can
be converted back, and it is the same number to every further conversion.
-/

namespace CValues

namespace FloatFormat

variable {f : FloatFormat} {m c : ℕ} {negative : Bool}

/-! ## Counts of quanta that the format has -/

theorem quanta_eq_zero_iff : f.quanta m = 0 ↔ m = 0 := by
  have hzero : f.quanta 0 = 0 := by cases f <;> rfl
  rw [← f.quanta_strictMono.injective.eq_iff (a := m) (b := 0), hzero]

/-- A short significand is shifted up until it is full or has no precision to give away. -/
theorem exists_isSignificand_of_le (hc : c ≤ pow2 (f.fractionBits + 1)) (j : ℕ) :
    ∃ h s, f.IsSignificand h s ∧ s * pow2 h = c * pow2 j ∧ h ≤ j := by
  induction j generalizing c with
  | zero => exact ⟨0, c, ⟨hc, .inl rfl⟩, rfl, Nat.le_refl 0⟩
  | succ j ih =>
    rcases Nat.lt_or_ge c (pow2 f.fractionBits) with hshort | hfull
    · have hdouble : c * 2 ≤ pow2 (f.fractionBits + 1) := Nat.mul_le_mul_right 2 hshort.le
      obtain ⟨h, s, hs, hquanta, hle⟩ := ih hdouble
      refine ⟨h, s, hs, ?_, Nat.le_succ_of_le hle⟩
      rw [hquanta, pow2_succ, Nat.mul_assoc, Nat.mul_comm 2]
    · exact ⟨j + 1, c, ⟨hc, .inr hfull⟩, rfl, Nat.le_refl _⟩

/-- So it is some magnitude, and not one that is much further up. -/
theorem exists_quanta_eq (hc : c ≤ pow2 (f.fractionBits + 1)) (j : ℕ) :
    ∃ m, f.quanta m = c * pow2 j ∧ m < (j + 3) * pow2 f.fractionBits := by
  obtain ⟨h, s, hs, hquanta, hle⟩ := exists_isSignificand_of_le hc j
  refine ⟨_, hs.quanta_eq.trans hquanta, ?_⟩
  have hlong := hs.le
  have hpos := pow2_pos f.fractionBits
  have hhalvings := Nat.mul_le_mul_right (pow2 f.fractionBits) hle
  rw [pow2_succ] at hlong
  rw [Nat.add_mul]
  omega

/-! ## Signs and magnitudes -/

private theorem two_pow_bits (f : FloatFormat) : 2 ^ f.bits = f.signBit + f.signBit := by
  cases f <;> decide

theorem infinity_lt_signBit (f : FloatFormat) : f.infinity < f.signBit := by
  cases f <;> decide

private theorem toNat_ofMagnitude (hm : m < f.signBit) :
    (f.ofMagnitude negative m).toNat = if negative then f.signBit + m else m := by
  rw [ofMagnitude, BitVec.toNat_ofNat, two_pow_bits]
  refine Nat.mod_eq_of_lt ?_
  split <;> omega

theorem magnitude_ofMagnitude (hm : m < f.signBit) :
    f.magnitude (f.ofMagnitude negative m) = m := by
  rw [magnitude, toNat_ofMagnitude hm]
  split
  · rw [Nat.add_mod_left, Nat.mod_eq_of_lt hm]
  · exact Nat.mod_eq_of_lt hm

private theorem isNegative_iff (p : f.Pattern) : f.isNegative p = true ↔ f.signBit ≤ p.toNat := by
  rw [isNegative, BitVec.msb_eq_decide, decide_eq_true_iff]
  rfl

theorem isNegative_ofMagnitude (hm : m < f.signBit) :
    f.isNegative (f.ofMagnitude negative m) = negative := by
  rw [Bool.eq_iff_iff, isNegative_iff, toNat_ofMagnitude hm]
  cases negative with
  | false => exact iff_of_false (Nat.not_le.mpr hm) Bool.false_ne_true
  | true => exact iff_of_true (Nat.le_add_right _ _) rfl

private theorem ofMagnitude_magnitude (p : f.Pattern) :
    f.ofMagnitude (f.isNegative p) (f.magnitude p) = p := by
  have hlt : p.toNat < f.signBit + f.signBit := f.two_pow_bits ▸ p.isLt
  have hm : f.magnitude p < f.signBit := Nat.mod_lt _ (pow2_pos _)
  refine BitVec.eq_of_toNat_eq ?_
  rw [toNat_ofMagnitude hm, magnitude]
  by_cases hsign : f.signBit ≤ p.toNat
  · rw [if_pos ((isNegative_iff p).mpr hsign), Nat.mod_eq_sub_mod hsign, Nat.mod_eq_of_lt]
    all_goals omega
  · rw [if_neg (mt (isNegative_iff p).mp hsign), Nat.mod_eq_of_lt (Nat.not_le.mp hsign)]

private theorem read_ofMagnitude (hm : m < f.infinity) :
    f.read (f.ofMagnitude negative m) = .finite negative (f.quanta m) := by
  have hsign := Nat.lt_trans hm f.infinity_lt_signBit
  rw [read, isNaN, magnitude_ofMagnitude hsign, isNegative_ofMagnitude hsign,
    decide_eq_false (Nat.not_lt.mpr hm.le), if_neg Bool.false_ne_true, if_neg hm.ne]

private theorem read_infinite : f.read (f.infinite negative) = .infinite negative := by
  rw [infinite, read, isNaN, magnitude_ofMagnitude f.infinity_lt_signBit,
    isNegative_ofMagnitude f.infinity_lt_signBit, decide_eq_false (Nat.lt_irrefl _),
    if_neg Bool.false_ne_true, if_pos rfl]

/-- A pattern that stands for a number is an infinity or has a finite magnitude. -/
theorem infinite_or_finite {p : f.Pattern} (hp : f.isNaN p = false) :
    (∃ negative, p = f.infinite negative) ∨
      ∃ negative m, m < f.infinity ∧ p = f.ofMagnitude negative m := by
  have hle : f.magnitude p ≤ f.infinity := Nat.not_lt.mp (of_decide_eq_false hp)
  rcases Nat.lt_or_eq_of_le hle with hlt | heq
  · exact .inr ⟨_, _, hlt, (ofMagnitude_magnitude p).symm⟩
  · exact .inl ⟨f.isNegative p, by rw [infinite, ← heq, ofMagnitude_magnitude]⟩

/-- The quanta of a magnitude are rounded to the pattern with that magnitude. -/
theorem round_quanta (hm : m < f.infinity) {d : ℕ} (hd : 0 < d) :
    f.round negative (f.quanta m * d) d = f.ofMagnitude negative m := by
  rw [round, roundMagnitude_quanta hm.le hd]

/-! ## Integers -/

/-- The number of bits of a significand, the leading one included. -/
def precision : FloatFormat → ℕ
  | single => 24
  | double => 53

/-- An integer of no more bits than a significand is rounded to itself. -/
theorem read_ofInt {x : ℤ} (hx : x.natAbs ≤ pow2 f.precision) :
    f.read (f.ofInt x) = .finite (decide (x < 0)) (x.natAbs * pow2 f.scale) := by
  have hprecision : f.precision = f.fractionBits + 1 := by cases f <;> rfl
  have hroom : (f.scale + 3) * pow2 f.fractionBits ≤ f.infinity := by cases f <;> decide
  obtain ⟨m, hquanta, hm⟩ := exists_quanta_eq (hprecision ▸ hx) f.scale
  have hfinite : m < f.infinity := Nat.lt_of_lt_of_le hm hroom
  rw [ofInt, ← hquanta, ← Nat.mul_one (f.quanta m), round_quanta hfinite Nat.one_pos,
    read_ofMagnitude hfinite, Nat.mul_one]

theorem number_ofInt {x : ℤ} (hx : x.natAbs ≤ pow2 f.precision) :
    f.number (f.ofInt x) = .ofInt x := by
  rw [number_eq_read, read_ofInt hx, Reading.number, Number.ofInt, Nat.cast_mul, cast_pow2,
    mul_div_cancel_right₀ _ (pow_ne_zero _ two_ne_zero)]

theorem toInt_ofInt {x : ℤ} (hx : x.natAbs ≤ pow2 f.precision) : f.toInt (f.ofInt x) = x := by
  have hsigned : signedQuanta (decide (x < 0)) x.natAbs = x := by
    rw [signedQuanta]
    by_cases hneg : x < 0
    · rw [if_pos (decide_eq_true hneg)]
      omega
    · rw [if_neg (mt of_decide_eq_true hneg)]
      omega
  have haccumulator : pow2 f.precision < pow2 127 := by cases f <;> decide
  have hclamp : Accumulator.clamp x = x := by
    rw [Accumulator.clamp, Accumulator.least, Accumulator.greatest, if_neg, if_neg]
    all_goals omega
  simp only [toInt, read_ofInt hx]
  rw [Nat.mul_div_cancel _ (pow2_pos _), hsigned, hclamp]

/-! ## From `float` to `double` -/

/-- The `double` stands for the same number as the `float`: both are the same infinity, or one has
2⁹²⁵ quanta for each quantum of the other. -/
inductive Widened : single.Pattern → double.Pattern → Prop
  | infinite (negative : Bool) : Widened (single.infinite negative) (double.infinite negative)
  | finite (negative : Bool) {m n : ℕ} (hm : m < single.infinity) (hn : n < double.infinity)
      (hquanta : double.quanta n = single.quanta m * pow2 925) :
      Widened (single.ofMagnitude negative m) (double.ofMagnitude negative n)

private theorem pow2_scale_double : pow2 double.scale = pow2 925 * pow2 single.scale := by
  have hscale : double.scale = 925 + single.scale := rfl
  rw [hscale, pow2_add]

/-- Every finite `float` is a finite `double`. -/
theorem exists_quanta_double (hm : m < single.infinity) :
    ∃ n, n < double.infinity ∧ double.quanta n = single.quanta m * pow2 925 := by
  obtain ⟨h, s, hs, -, rfl⟩ := single.exists_isSignificand m
  have hlong : s ≤ pow2 (double.fractionBits + 1) :=
    hs.le.trans (Nat.pow_le_pow_right Nat.two_pos (by decide))
  have hhalvings : h < 255 := by
    refine Nat.lt_of_not_le fun hle ↦ Nat.not_le.mpr hm ?_
    calc single.infinity = 255 * pow2 single.fractionBits := single.infinity_eq
      _ ≤ h * pow2 single.fractionBits := Nat.mul_le_mul_right _ hle
      _ ≤ h * pow2 single.fractionBits + s := Nat.le_add_right _ _
  obtain ⟨n, hquanta, hn⟩ := exists_quanta_eq hlong (h + 925)
  refine ⟨n, hn.trans_le ?_, ?_⟩
  · calc (h + 925 + 3) * pow2 double.fractionBits ≤ 2047 * pow2 double.fractionBits :=
          Nat.mul_le_mul_right _ (by omega)
      _ = double.infinity := double.infinity_eq.symm
  · rw [hquanta, hs.quanta_eq, pow2_add, Nat.mul_assoc]

theorem widened_convert {p : single.Pattern} (hp : single.isNaN p = false) :
    Widened p (single.convert double p) := by
  rcases infinite_or_finite hp with ⟨negative, rfl⟩ | ⟨negative, m, hm, rfl⟩
  · rw [convert, read_infinite]
    exact .infinite negative
  · obtain ⟨n, hn, hquanta⟩ := exists_quanta_double hm
    rw [convert, read_ofMagnitude hm]
    dsimp only
    rw [pow2_scale_double, ← Nat.mul_assoc, ← hquanta, round_quanta hn (pow2_pos _)]
    exact .finite negative hm hn hquanta

namespace Widened

variable {p : single.Pattern} {q : double.Pattern}

theorem convert_eq (h : Widened p q) : double.convert single q = p := by
  cases h with
  | infinite negative => rw [convert, read_infinite]
  | finite negative hm hn hquanta =>
    rw [convert, read_ofMagnitude hn]
    dsimp only
    rw [hquanta, Nat.mul_assoc, ← pow2_scale_double, round_quanta hm (pow2_pos _)]

theorem number_eq (h : Widened p q) : double.number q = single.number p := by
  rw [number_eq_read, number_eq_read]
  cases h with
  | infinite negative => rw [read_infinite, read_infinite, Reading.number, Reading.number]
  | finite negative hm hn hquanta =>
    rw [read_ofMagnitude hm, read_ofMagnitude hn, Reading.number, Reading.number, hquanta,
      ← cast_pow2, ← cast_pow2, pow2_scale_double, Nat.mul_comm (pow2 925), Nat.cast_mul,
      Nat.cast_mul, mul_div_mul_right]
    exact Nat.cast_ne_zero.mpr (pow2_pos 925).ne'

theorem toInt_eq (h : Widened p q) : double.toInt q = single.toInt p := by
  cases h with
  | infinite negative => simp only [toInt, read_infinite]
  | finite negative hm hn hquanta =>
    simp only [toInt, read_ofMagnitude hm, read_ofMagnitude hn]
    rw [hquanta, pow2_scale_double, Nat.mul_comm (pow2 925),
      Nat.mul_div_mul_right _ _ (pow2_pos 925)]

theorem isZero_eq (h : Widened p q) : double.isZero q = single.isZero p := by
  cases h with
  | infinite negative =>
    simp only [isZero, FloatFormat.infinite, magnitude_ofMagnitude (infinity_lt_signBit _)]
    decide
  | @finite negative m n hm hn hquanta =>
    have hzero : n = 0 ↔ m = 0 := by
      rw [← quanta_eq_zero_iff (f := double), hquanta, Nat.mul_eq_zero,
        or_iff_left (pow2_pos 925).ne', quanta_eq_zero_iff]
    rw [isZero, isZero, magnitude_ofMagnitude (hn.trans double.infinity_lt_signBit),
      magnitude_ofMagnitude (hm.trans single.infinity_lt_signBit), decide_eq_decide.mpr hzero]

end Widened

end FloatFormat

/-- An integer type or `_Bool` takes the same value from a `float` and from the `double` for it. -/
theorem result_convert_of_widened {p : FloatFormat.single.Pattern}
    {q : FloatFormat.double.Pattern} (h : FloatFormat.Widened p q) (target : Target)
    (kind later : ConversionKind) {t : CType} (ht : t.isInteger = true) :
    (convert target later (.float .double q) t).result
      = (convert target kind (.float .single p) t).result := by
  cases t with
  | bool =>
    rw [result_convert_bool, result_convert_bool, Value.isZero, Value.isZero, h.isZero_eq]
  | int w s => exact congrArg (fun x ↦ Except.ok (Value.ofInt w s x)) h.toInt_eq
  | void | float | pointer | array => cases ht

/-- **Exact conversions.** An integer of no more bits than a significand becomes exactly that number
in a floating type, and comes back. A `float` that is a number becomes exactly that number as a
`double`, comes back with every bit, and gives the same value on the way to an integer type or to
`_Bool` whether it goes through `double` or not. -/
theorem exact_floating_round_trips (target : Target) (kind later : ConversionKind) :
    (∀ f w s (p : BitVec w.bits), (s.read p).natAbs ≤ pow2 f.precision →
      ∃ q, (convert target kind (.int w s p) (.float f)).result = .ok (.float f q) ∧
        f.number q = .ofInt (s.read p) ∧
        (convert target later (.float f q) (.int w s)).result = .ok (.int w s p)) ∧
      ∀ p : FloatFormat.single.Pattern, FloatFormat.single.isNaN p = false →
        ∃ q, (convert target kind (.float .single p) (.float .double)).result
            = .ok (.float .double q) ∧
          FloatFormat.double.number q = FloatFormat.single.number p ∧
          (convert target later (.float .double q) (.float .single)).result
            = .ok (.float .single p) ∧
          ∀ t, t.isInteger = true → (convert target later (.float .double q) t).result
            = (convert target kind (.float .single p) t).result := by
  refine ⟨fun f w s p hp ↦ ⟨_, rfl, FloatFormat.number_ofInt hp, ?_⟩, fun p hp ↦ ?_⟩
  · change Except.ok (Value.int w s (w.truncate (f.toInt (f.ofInt (s.read p))))) = _
    rw [FloatFormat.toInt_ofInt hp, Width.truncate_read]
  · have hwidened := FloatFormat.widened_convert hp
    refine ⟨_, rfl, hwidened.number_eq, ?_,
      fun t ht ↦ result_convert_of_widened hwidened target kind later ht⟩
    exact congrArg (fun p ↦ Except.ok (Value.float .single p)) hwidened.convert_eq

/-- The negative of two to the power of 53 is a `double` and comes back. The least `float` below
zero has no leading one, and is a `double` with one; it comes back and is true as a `_Bool`. The
infinite `float` becomes the same byte with and without the way through `double`. -/
theorem exact_floating_round_trips_extremes :
    let power := Value.int .w64 .signed (-0x20000000000000)
    let least : FloatFormat.single.Pattern := 0x80000001
    let infinite : FloatFormat.single.Pattern := 0x7F800000
    (Signedness.signed.read (-0x20000000000000 : BitVec 64)).natAbs
        ≤ pow2 FloatFormat.double.precision ∧
      (convert {} .implicit power (.float .double)).result
        = .ok (.float .double 0xC340000000000000) ∧
      (convert {} .explicit (.float .double 0xC340000000000000) power.type).result = .ok power ∧
      FloatFormat.single.isNaN least = false ∧
      (convert {} .implicit (.float .single least) (.float .double)).result
        = .ok (.float .double 0xB6A0000000000000) ∧
      FloatFormat.double.number 0xB6A0000000000000 = FloatFormat.single.number least ∧
      (convert {} .explicit (.float .double 0xB6A0000000000000) (.float .single)).result
        = .ok (.float .single least) ∧
      (convert {} .explicit (.float .double 0xB6A0000000000000) .bool).result
        = (convert {} .implicit (.float .single least) .bool).result ∧
      FloatFormat.single.isNaN infinite = false ∧
      (convert {} .explicit (.float .double 0x7FF0000000000000) (.int .w8 .signed)).result
        = (convert {} .implicit (.float .single infinite) (.int .w8 .signed)).result := by
  intro power least infinite
  obtain ⟨hintegers, hfloats⟩ := exact_floating_round_trips {} .implicit .explicit
  have hpower : (Signedness.signed.read (-0x20000000000000 : BitVec 64)).natAbs
      ≤ pow2 FloatFormat.double.precision := by decide
  have hleast : FloatFormat.single.isNaN least = false := by decide
  have hinfinite : FloatFormat.single.isNaN infinite = false := by decide
  have hdouble : (convert {} .implicit power (.float .double)).result
      = .ok (.float .double 0xC340000000000000) :=
    congrArg (fun q ↦ Except.ok (Value.float .double q)) (by decide +kernel)
  obtain ⟨q, hq, -, hback⟩ := hintegers .double .w64 .signed (-0x20000000000000) hpower
  cases hdouble.symm.trans hq
  obtain ⟨r, hr, hnumber, hsame, hcut⟩ := hfloats least hleast
  obtain rfl : 0xB6A0000000000000 = r := by cases hr; decide +kernel
  obtain ⟨u, hu, -, -, hbyte⟩ := hfloats infinite hinfinite
  obtain rfl : 0x7FF0000000000000 = u := by cases hu; decide +kernel
  exact ⟨hpower, hdouble, hback, hleast, hr, hnumber, hsame, hcut .bool rfl, hinfinite,
    hbyte (.int .w8 .signed) rfl⟩

end CValues
