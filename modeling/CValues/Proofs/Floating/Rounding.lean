import CValues.Floating.Format
import Mathlib.Data.Nat.Dist
import Mathlib.Order.Monotone.Basic

/-!
# Rounding to nearest

A ratio is rounded to the magnitude whose quanta are nearest to it, and of two that are as near as
each other to the even one. Rounding works on one significand: it divides until the quotient has the
bits of the format and rounds this quotient to a whole number. The statements here say why that is
enough. Where precision is halved the same number of times, magnitudes are significands one after
another (`IsSignificand.quanta_eq`); the ratio lies between the first and the last of them, and all
other magnitudes lie beyond these two, because more quanta belong to a larger magnitude.

Rounding takes no notice of the greatest finite magnitude. What is rounded beyond it is infinite.
-/

namespace CValues

/-! ## Whole numbers -/

private theorem div_le_roundDiv (n d : ℕ) : n / d ≤ roundDiv n d := by
  simp only [roundDiv]
  split <;> omega

private theorem roundDiv_le_succ_div (n d : ℕ) : roundDiv n d ≤ n / d + 1 := by
  simp only [roundDiv]
  split <;> omega

/-- The rounded quotient is nearer than every other whole number, or as near as another and even. -/
theorem roundDiv_nearest {d : ℕ} (hd : 0 < d) (n : ℕ) {t : ℕ} (ht : t ≠ roundDiv n d) :
    (roundDiv n d * d).dist n < (t * d).dist n ∨
      (roundDiv n d * d).dist n = (t * d).dist n ∧ roundDiv n d % 2 = 0 := by
  have hn := Nat.div_add_mod' n d
  have hr := Nat.mod_lt n hd
  -- another whole number is at least one denominator below the quotient or above it
  have hbelow : t < n / d → t * d + d ≤ n / d * d := fun hlt ↦ by
    rw [← Nat.add_one_mul]
    exact Nat.mul_le_mul_right d hlt
  have habove : n / d + 1 < t → n / d * d + d + d ≤ t * d := fun hlt ↦ by
    rw [← Nat.add_one_mul, ← Nat.add_one_mul]
    exact Nat.mul_le_mul_right d hlt
  have hsame : t = n / d → t * d = n / d * d := congrArg (· * d)
  have hnext : t = n / d + 1 → t * d = n / d * d + d := by
    rintro rfl
    exact Nat.add_one_mul _ _
  rcases hcompare : compare (2 * (n % d)) d with _ | _ | _
  · have hlt := Nat.compare_eq_lt.mp hcompare
    have hround : roundDiv n d = n / d := by simp only [roundDiv, hcompare]
    rw [hround] at ht ⊢
    simp only [Nat.dist]
    omega
  · have heq := Nat.compare_eq_eq.mp hcompare
    have hround : roundDiv n d = n / d + n / d % 2 := by simp only [roundDiv, hcompare]
    rw [hround] at ht ⊢
    rcases Nat.mod_two_eq_zero_or_one (n / d) with heven | hodd
    · rw [heven, Nat.add_zero] at ht ⊢
      simp only [Nat.dist]
      omega
    · rw [hodd] at ht ⊢
      rw [Nat.add_one_mul]
      simp only [Nat.dist]
      omega
  · have hgt := Nat.compare_eq_gt.mp hcompare
    have hround : roundDiv n d = n / d + 1 := by simp only [roundDiv, hcompare]
    rw [hround] at ht ⊢
    rw [Nat.add_one_mul]
    simp only [Nat.dist]
    omega

private theorem dist_roundDiv_le {d : ℕ} (hd : 0 < d) (n t : ℕ) :
    (roundDiv n d * d).dist n ≤ (t * d).dist n := by
  rcases eq_or_ne t (roundDiv n d) with rfl | ht
  · exact Nat.le_refl _
  · exact (roundDiv_nearest hd n ht).elim Nat.le_of_lt fun htie ↦ htie.1.le

namespace FloatFormat

variable {f : FloatFormat} {h s m n : ℕ}

/-! ## Significands -/

/-- The significand has no more bits than the format, and no fewer if precision has been halved. The
power of two after them counts as one too, which is where a significand may be rounded up to. -/
structure IsSignificand (f : FloatFormat) (halvings significand : ℕ) : Prop where
  /-- The significand is not too long. -/
  le : significand ≤ pow2 (f.fractionBits + 1)
  /-- No bit is given away. -/
  full : halvings = 0 ∨ pow2 f.fractionBits ≤ significand

/-- The magnitude with a significand stands for as many quanta. -/
theorem IsSignificand.quanta_eq (hs : f.IsSignificand h s) :
    f.quanta (h * pow2 f.fractionBits + s) = s * pow2 h := by
  have hle := hs.le
  have hpos := pow2_pos f.fractionBits
  rw [pow2_succ] at hle
  rcases Nat.lt_or_ge s (pow2 f.fractionBits) with hshort | hfull
  · obtain rfl : h = 0 := hs.full.resolve_right (Nat.not_le.mpr hshort)
    rw [quanta_fields f hshort, if_pos rfl, pow2_zero, Nat.mul_one]
  obtain ⟨r, rfl⟩ := Nat.exists_eq_add_of_le hfull
  rw [← Nat.add_assoc, ← Nat.add_one_mul]
  rcases Nat.lt_or_ge r (pow2 f.fractionBits) with hr | hr
  -- the leading bit of a full significand is the next step of the exponent
  · rw [quanta_fields f hr, if_neg (Nat.succ_ne_zero h), Nat.add_one_sub_one]
  -- and the power of two after it is one step more, with nothing in the fraction
  · obtain rfl : r = pow2 f.fractionBits := by omega
    rw [← Nat.add_one_mul, ← Nat.add_zero (_ * _), quanta_fields f hpos,
      if_neg (Nat.succ_ne_zero _), Nat.add_zero, Nat.add_one_sub_one, pow2_succ, ← Nat.mul_two,
      Nat.mul_assoc, Nat.mul_comm 2]

private theorem IsSignificand.quanta_mul (hs : f.IsSignificand h s) (den : ℕ) :
    f.quanta (h * pow2 f.fractionBits + s) * den = s * (den * pow2 h) := by
  rw [hs.quanta_eq, Nat.mul_assoc, Nat.mul_comm den]

private theorem magnitude_mod_two (f : FloatFormat) (h s : ℕ) :
    (h * pow2 f.fractionBits + s) % 2 = s % 2 := by
  have hfraction : 2 ∣ pow2 f.fractionBits := by cases f <;> exact pow2_dvd (m := 1) (by decide)
  have hhalvings := Nat.dvd_mul_left_of_dvd hfraction h
  omega

/-- Every magnitude has a significand, and one that is not the power of two. -/
theorem exists_isSignificand (f : FloatFormat) (m : ℕ) :
    ∃ h s, f.IsSignificand h s ∧ s < pow2 (f.fractionBits + 1) ∧
      h * pow2 f.fractionBits + s = m := by
  have hr : m % pow2 f.fractionBits < pow2 f.fractionBits := Nat.mod_lt _ (pow2_pos _)
  have hfields := Nat.div_add_mod' m (pow2 f.fractionBits)
  rw [pow2_succ]
  rcases he : m / pow2 f.fractionBits with _ | e
  · rw [he, Nat.zero_mul, Nat.zero_add] at hfields
    have hlt : m < pow2 f.fractionBits * 2 := by omega
    exact ⟨0, m, ⟨hlt.le, .inl rfl⟩, hlt, by rw [Nat.zero_mul, Nat.zero_add]⟩
  · have hlt : pow2 f.fractionBits + m % pow2 f.fractionBits < pow2 f.fractionBits * 2 := by omega
    refine ⟨e, _, ⟨hlt.le, .inr (Nat.le_add_right _ _)⟩, hlt, ?_⟩
    rw [← Nat.add_assoc, ← Nat.add_one_mul, ← he, hfields]

/-- The next magnitude has the next significand, so a larger magnitude has more quanta. -/
theorem quanta_strictMono (f : FloatFormat) : StrictMono f.quanta := by
  refine strictMono_nat_of_lt_succ fun m ↦ ?_
  obtain ⟨h, s, hs, hlt, rfl⟩ := f.exists_isSignificand m
  have hnext : f.IsSignificand h (s + 1) := ⟨hlt, hs.full.imp_right Nat.le_succ_of_le⟩
  rw [Nat.add_assoc, hs.quanta_eq, hnext.quanta_eq]
  exact Nat.mul_lt_mul_of_pos_right (Nat.lt_succ_self s) (pow2_pos h)

/-! ## The nearest magnitude -/

/-- No other magnitude is nearer to the ratio, and one that is as near only if this one is even. -/
def IsNearest (f : FloatFormat) (num den m : ℕ) : Prop :=
  ∀ n, n ≠ m → (f.quanta m * den).dist num < (f.quanta n * den).dist num ∨
    (f.quanta m * den).dist num = (f.quanta n * den).dist num ∧ m % 2 = 0

/-- A ratio that is a magnitude is nearest to itself. -/
theorem IsNearest.eq_of_quanta {den : ℕ} (hd : 0 < den)
    (hm : f.IsNearest (f.quanta n * den) den m) : m = n := by
  by_contra hne
  have hnear := hm n (Ne.symm hne)
  rw [Nat.dist_self] at hnear
  rcases hnear with hlt | ⟨heq, -⟩
  · exact Nat.not_lt_zero _ hlt
  · have hquanta := Nat.eq_of_mul_eq_mul_right hd (Nat.eq_of_dist_eq_zero heq)
    exact hne (f.quanta_strictMono.injective hquanta)

/-- With these halvings the ratio lies between the first full significand and the power of two after
the last, or it is too small to be halved. -/
theorem halvings_bounds (f : FloatFormat) (num : ℕ) {den : ℕ} (hd : 0 < den) :
    let halvings := (num / den).log2 - f.fractionBits
    num < pow2 (f.fractionBits + 1) * (den * pow2 halvings) ∧
      (halvings = 0 ∨ pow2 f.fractionBits * (den * pow2 halvings) ≤ num) := by
  intro halvings
  constructor
  · have hquotient : num / den < pow2 (f.fractionBits + 1) * pow2 halvings := by
      rw [← pow2_add]
      exact Nat.lt_log2_self.trans_le (Nat.pow_le_pow_right Nat.two_pos (by omega))
    rw [Nat.mul_left_comm, Nat.mul_comm]
    exact (Nat.div_lt_iff_lt_mul hd).mp hquotient
  · rcases Nat.eq_zero_or_pos halvings with hzero | hpos
    · exact .inl hzero
    · have hlog : f.fractionBits + halvings = (num / den).log2 := by omega
      have hne : num / den ≠ 0 := fun hzero ↦ by
        rw [hzero, Nat.log2_zero] at hlog
        omega
      have hquotient : pow2 f.fractionBits * pow2 halvings ≤ num / den := by
        rw [← pow2_add, hlog]
        exact Nat.log2_self_le hne
      rw [Nat.mul_left_comm, Nat.mul_comm]
      exact .inr ((Nat.le_div_iff_mul_le hd).mp hquotient)

section

variable {num den : ℕ} (hd : 0 < den) (hupper : num < pow2 (f.fractionBits + 1) * (den * pow2 h))
  (hlower : h = 0 ∨ pow2 f.fractionBits * (den * pow2 h) ≤ num)

include hd hupper hlower

private theorem isSignificand_roundDiv : f.IsSignificand h (roundDiv num (den * pow2 h)) := by
  have hunit : 0 < den * pow2 h := Nat.mul_pos hd (pow2_pos h)
  refine ⟨(roundDiv_le_succ_div _ _).trans ((Nat.div_lt_iff_lt_mul hunit).mpr hupper), ?_⟩
  refine hlower.imp_right fun hle ↦ ?_
  exact ((Nat.le_div_iff_mul_le hunit).mpr hle).trans (div_le_roundDiv _ _)

/-- The significand nearest to the ratio is that of the magnitude nearest to it. -/
theorem isNearest_roundDiv :
    f.IsNearest num den (h * pow2 f.fractionBits + roundDiv num (den * pow2 h)) := by
  have hunit : 0 < den * pow2 h := Nat.mul_pos hd (pow2_pos h)
  have hs := isSignificand_roundDiv hd hupper hlower
  intro n hn
  rw [hs.quanta_mul, magnitude_mod_two]
  rcases Nat.lt_or_ge (h * pow2 f.fractionBits + pow2 (f.fractionBits + 1)) n with habove | hle
  -- beyond the last significand
  · have hlast : f.IsSignificand h (pow2 (f.fractionBits + 1)) :=
      ⟨Nat.le_refl _, .inr (Nat.pow_le_pow_right Nat.two_pos (Nat.le_succ _))⟩
    have hfar := Nat.mul_lt_mul_of_pos_right (f.quanta_strictMono habove) hd
    have hnear := dist_roundDiv_le hunit num (pow2 (f.fractionBits + 1))
    rw [hlast.quanta_mul] at hfar
    simp only [Nat.dist] at hnear ⊢
    omega
  by_cases hin : h = 0 ∨ h * pow2 f.fractionBits + pow2 f.fractionBits ≤ n
  -- a significand with the same halvings
  · have hstart : h * pow2 f.fractionBits ≤ n := by
      rcases hin with rfl | hin
      · rw [Nat.zero_mul]
        exact Nat.zero_le n
      · omega
    obtain ⟨t, rfl⟩ := Nat.exists_eq_add_of_le hstart
    have ht : f.IsSignificand h t :=
      ⟨Nat.le_of_add_le_add_left hle, hin.imp_right Nat.le_of_add_le_add_left⟩
    rw [ht.quanta_mul]
    exact roundDiv_nearest hunit num fun heq ↦ hn (by rw [heq])
  -- before the first full significand
  · obtain ⟨hhalved, hbelow⟩ := not_or.mp hin
    have hle := hlower.resolve_left hhalved
    have hfirst : f.IsSignificand h (pow2 f.fractionBits) :=
      ⟨Nat.pow_le_pow_right Nat.two_pos (Nat.le_succ _), .inr (Nat.le_refl _)⟩
    have hfar := Nat.mul_lt_mul_of_pos_right (f.quanta_strictMono (Nat.not_le.mp hbelow)) hd
    have hnear := dist_roundDiv_le hunit num (pow2 f.fractionBits)
    rw [hfirst.quanta_mul] at hfar
    simp only [Nat.dist] at hnear ⊢
    omega

end

/-- **Rounding to nearest, ties to even.** A ratio of quanta is rounded to the magnitude nearest to
it, and to the infinite one if that is beyond all finite magnitudes. -/
theorem roundMagnitude_nearest (f : FloatFormat) (num : ℕ) {den : ℕ} (hd : 0 < den) :
    ∃ m, f.IsNearest num den m ∧ f.roundMagnitude num den = min m f.infinity :=
  have hbounds := f.halvings_bounds num hd
  ⟨_, isNearest_roundDiv hd hbounds.1 hbounds.2, rfl⟩

theorem roundMagnitude_quanta (hm : m ≤ f.infinity) {den : ℕ} (hd : 0 < den) :
    f.roundMagnitude (f.quanta m * den) den = m := by
  obtain ⟨n, hnearest, hround⟩ := f.roundMagnitude_nearest (f.quanta m * den) hd
  rw [hround, hnearest.eq_of_quanta hd, Nat.min_eq_left hm]

end FloatFormat

end CValues
