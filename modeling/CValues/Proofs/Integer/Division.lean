import CValues.Proofs.Integer.Machine

/-!
# Integer division

A quotient is rounded toward zero at the common type of its operands, and the remainder is what is
missing. So the quotient times the divisor plus the remainder is the dividend, each of the three
steps being an operator of its own that finds its common type anew: the operands are already at a
type that the others lead to. There is one quotient that the type does not hold, the least integer
divided by minus one. It is reduced like every other result, and products and sums respect residues,
so the law has no exception.

A conversion to the common type may turn a negative divisor into a large one, but never one that is
not zero into zero. Only a divisor that is zero from the beginning makes a division fail.
-/

namespace CValues

/-! ## Patterns -/

namespace Signedness

/-- The quotient times the divisor, plus the remainder, is the dividend again, even if the quotient
did not fit. -/
theorem quotient_mul_add_remainder {w : Width} (s : Signedness) (x y : BitVec w.bits) :
    s.quotient x y * y + s.remainder x y = x := by
  calc s.quotient x y * y + s.remainder x y
      = w.truncate ((s.read x).tdiv (s.read y)) * w.truncate (s.read y)
          + w.truncate ((s.read x).tmod (s.read y)) := by
        rw [Width.truncate_tdiv_read, Width.truncate_tmod_read, Width.truncate_read]
    _ = w.truncate ((s.read x).tdiv (s.read y) * s.read y + (s.read x).tmod (s.read y)) := by
        rw [Width.truncate_add, Width.truncate_mul]
    _ = x := by rw [Int.tdiv_mul_add_tmod, Width.truncate_read]

theorem read_remainder {n : Nat} (s : Signedness) (x y : BitVec n) :
    s.read (s.remainder x y) = (s.read x).tmod (s.read y) := by
  cases s with
  | signed => exact BitVec.toInt_srem x y
  | unsigned =>
    change ((x % y).toNat : Int) = (x.toNat : Int).tmod y.toNat
    rw [BitVec.toNat_umod, Int.ofNat_tmod]

end Signedness

private theorem tmod_eq_zero_or_sign_eq (x y : Int) : x.tmod y = 0 ∨ (x.tmod y).sign = x.sign := by
  rcases Int.lt_trichotomy x 0 with hneg | rfl | hpos
  · have hnonpos : x.tmod y ≤ 0 := by
      have hflipped := Int.tmod_nonneg y (Int.neg_nonneg_of_nonpos (Int.le_of_lt hneg))
      rw [Int.neg_tmod] at hflipped
      omega
    rcases Int.lt_or_eq_of_le hnonpos with hlt | hzero
    · exact .inr (by rw [Int.sign_eq_neg_one_of_neg hlt, Int.sign_eq_neg_one_of_neg hneg])
    · exact .inl hzero
  · exact .inl (Int.zero_tmod y)
  · rcases Int.lt_or_eq_of_le (Int.tmod_nonneg y (Int.le_of_lt hpos)) with hlt | hzero
    · exact .inr (by rw [Int.sign_eq_one_of_pos hlt, Int.sign_eq_one_of_pos hpos])
    · exact .inl hzero.symm

private theorem natAbs_tmod_lt (x : Int) {y : Int} (hy : y ≠ 0) : (x.tmod y).natAbs < y.natAbs := by
  rw [Int.natAbs_tmod]
  exact Nat.mod_lt _ (Int.natAbs_pos.mpr hy)

private theorem guarded_eq_error_iff {α : Type} {p : Prop} [Decidable p] {e : Error} {a : α} :
    (if p then Except.error e else .ok a) = .error e ↔ p := by
  split <;> simp_all

/-! ## The common type again -/

namespace IntType

private theorem promoted_common (t u : IntType) :
    (t.promoted.common u.promoted).promoted = t.promoted.common u.promoted := by
  obtain ⟨v, s⟩ := t
  obtain ⟨w, s'⟩ := u
  cases v <;> cases s <;> cases w <;> cases s' <;> rfl

private theorem common_self (t : IntType) : t.common t = t := if_pos rfl

/-- The common type has no other common type with one of the operands. -/
theorem common_common_right (t u : IntType) :
    (t.promoted.common u.promoted).common u.promoted = t.promoted.common u.promoted := by
  obtain ⟨v, s⟩ := t
  obtain ⟨w, s'⟩ := u
  cases v <;> cases s <;> cases w <;> cases s' <;> rfl

end IntType

namespace Machine

variable {v w : Value} {a b : IntType} {x y : Int}

/-- An operator other than a shift works on the residues of its operands at the common type. -/
theorem result_binary_of_common {t : IntType} (hx : v.integer? = some x)
    (ha : IntType.ofType? v.type = some a) (hy : w.integer? = some y)
    (hb : IntType.ofType? w.type = some b) (ht : a.promoted.common b.promoted = t) {op : BinaryOp}
    (hop : op.isShift = false) (target : Target) :
    (CValues.binary target op v w).result
      = (operate t.signedness (t.width.truncate x) (t.width.truncate y) 0 op).map t.value := by
  subst ht
  have hworking : workingType op a b = a.promoted.common b.promoted := by
    rw [workingType, hop, if_neg Bool.false_ne_true]
  rw [result_binary hx ha hy hb, hworking, map_value_truncate, ← map_truncate_onIntegers, hop,
    if_neg Bool.false_ne_true, if_neg Bool.false_ne_true]
  rfl

private theorem truncate_common_eq_zero_iff (hy : w.integer? = some y)
    (hb : IntType.ofType? w.type = some b) (a : IntType) :
    let t := a.promoted.common b.promoted
    t.width.truncate y = 0#(t.width.bits) ↔ y = 0 := by
  intro t
  have hreceives : t.Receives b := IntType.common_receives_right a b
  obtain ⟨hleast, hgreatest⟩ := Value.integer?_range hy hb
  rw [← hreceives.taken_eq_zero_iff hleast, ← hreceives.read_truncate hleast hgreatest]
  exact Signedness.read_eq_zero_iff.symm

theorem result_div_rem (hx : v.integer? = some x) (ha : IntType.ofType? v.type = some a)
    (hy : w.integer? = some y) (hb : IntType.ofType? w.type = some b) (target : Target) :
    let t := a.promoted.common b.promoted
    (CValues.binary target .div v w).result
        = (if y = 0 then .error .divisionByZero
          else .ok (t.value (t.signedness.quotient (t.width.truncate x) (t.width.truncate y)))) ∧
      (CValues.binary target .rem v w).result
        = if y = 0 then .error .divisionByZero
          else .ok (t.value
            (t.signedness.remainder (t.width.truncate x) (t.width.truncate y))) := by
  intro t
  have hzero := truncate_common_eq_zero_iff hy hb a
  rw [result_binary_of_common hx ha hy hb rfl rfl, result_binary_of_common hx ha hy hb rfl rfl,
    operate, operate]
  simp only [hzero]
  split <;> exact ⟨rfl, rfl⟩

/-- A value of the common type times the second operand, plus such a value, is computed at the
common type. -/
theorem result_mul_add (hy : w.integer? = some y) (hb : IntType.ofType? w.type = some b)
    (target : Target) (a : IntType) :
    let t := a.promoted.common b.promoted
    ∀ q r, (CValues.binary target .mul (t.value q) w >>= fun product ↦
      CValues.binary target .add product (t.value r)).result
        = .ok (t.value (q * t.width.truncate y + r)) := by
  intro t q r
  have hpromoted : t.promoted = t := IntType.promoted_common a b
  have hright : t.promoted.common b.promoted = t := hpromoted.symm ▸ IntType.common_common_right a b
  have hself : t.promoted.common t.promoted = t := by rw [hpromoted, IntType.common_self]
  have hproduct : (CValues.binary target .mul (t.value q) w).result
      = .ok (t.value (q * t.width.truncate y)) := by
    rw [result_binary_of_common rfl rfl hy hb hright rfl, Width.truncate_read]
    rfl
  refine Traced.result_bind_eq_ok_iff.mpr ⟨_, hproduct, ?_⟩
  rw [result_binary_of_common rfl rfl rfl rfl hself rfl, Width.truncate_read, Width.truncate_read]
  rfl

end Machine

/-- **The law of integer division.** For two integers, the quotient and the remainder fail exactly
if the divisor is zero. Otherwise both are of the common type; the quotient times the divisor, plus
the remainder, computed by the operators themselves, is the dividend at the common type; and the
remainder is less than the divisor there, regardless of signs, and zero or of the sign of the
dividend there. -/
theorem integer_division_law (target : Target) (v w : Value) {x y : Int}
    (hx : v.integer? = some x) (hy : w.integer? = some y) :
    ∃ (t : IntType) (v' w' : Value) (x' y' : Int),
      usualType v.type w.type = .ok (.int t.width t.signedness) ∧
      (convert target .implicit v (.int t.width t.signedness)).result = .ok v' ∧
      (convert target .implicit w (.int t.width t.signedness)).result = .ok w' ∧
      v'.integer? = some x' ∧ w'.integer? = some y' ∧
      ((binary target .div v w).result = .error .divisionByZero ↔ y = 0) ∧
      ((binary target .rem v w).result = .error .divisionByZero ↔ y = 0) ∧
      (y ≠ 0 → ∃ (quotient remainder : Value) (r : Int),
        (binary target .div v w).result = .ok quotient ∧
        (binary target .rem v w).result = .ok remainder ∧
        quotient.type = .int t.width t.signedness ∧ remainder.type = .int t.width t.signedness ∧
        (binary target .mul quotient w >>= fun product ↦
          binary target .add product remainder).result = .ok v' ∧
        remainder.integer? = some r ∧ r.natAbs < y'.natAbs ∧ (r = 0 ∨ r.sign = x'.sign)) := by
  obtain ⟨a, ha⟩ := Value.exists_ofType? hx
  obtain ⟨b, hb⟩ := Value.exists_ofType? hy
  obtain ⟨hdiv, hrem⟩ := Machine.result_div_rem hx ha hy hb target
  refine ⟨a.promoted.common b.promoted, _, _, _, _, IntType.usualType_eq ha hb,
    Value.result_convert_int hx target .implicit _, Value.result_convert_int hy target .implicit _,
    rfl, rfl, ?_, ?_, fun hne ↦ ?_⟩
  · rw [hdiv, guarded_eq_error_iff]
  · rw [hrem, guarded_eq_error_iff]
  · rw [if_neg hne] at hdiv hrem
    refine ⟨_, _, _, hdiv, hrem, rfl, rfl, ?_, rfl, ?_, ?_⟩
    · rw [Machine.result_mul_add hy hb, Signedness.quotient_mul_add_remainder]
    · have hdivisor := mt (Machine.truncate_common_eq_zero_iff hy hb a).mp hne
      rw [Signedness.read_remainder]
      exact natAbs_tmod_lt _ (mt Signedness.read_eq_zero_iff.mp hdivisor)
    · rw [Signedness.read_remainder]
      exact tmod_eq_zero_or_sign_eq _ _

/-- The least `int` divided by minus one is itself, and comes back from the product, which does not
fit either. A `_Bool` that is false is no divisor. -/
theorem integer_division_law_least :
    let least := Value.int .w32 .signed (.intMin 32)
    let minusOne := Value.plainInt (-1)
    least.integer? = some (-2147483648) ∧ minusOne.integer? = some (-1) ∧
      (binary {} .div least minusOne).result = .ok least ∧
      (∃ quotient remainder, (binary {} .div least minusOne).result = .ok quotient ∧
        (binary {} .rem least minusOne).result = .ok remainder ∧
        (binary {} .mul quotient minusOne >>= fun product ↦
          binary {} .add product remainder).result = .ok least) ∧
      (binary {} .rem least (.bool false)).result = .error .divisionByZero := by
  intro least minusOne
  have hleast : least.integer? = some (-2147483648) := by decide
  have hone : minusOne.integer? = some (-1) := by decide
  obtain ⟨⟨width, s⟩, v', w', x', y', htype, hconvert, -, -, -, -, -, hlaw⟩ :=
    integer_division_law {} least minusOne hleast hone
  obtain ⟨quotient, remainder, r, hdiv, hrem, -, -, hsum, -⟩ := hlaw (by decide)
  -- both are `int` already, so the common type is `int` and the dividend is not changed
  cases (show Except.ok (CommonType.int .w32 .signed) = .ok (.int width s) from htype)
  obtain rfl : least = v' := Except.ok.inj hconvert
  obtain ⟨t, u, z, i, j, -, -, -, -, -, -, hzero, -⟩ :=
    integer_division_law {} least (.bool false) hleast rfl
  exact ⟨hleast, hone, rfl, ⟨quotient, remainder, hdiv, hrem, hsum⟩, hzero.mpr rfl⟩

end CValues
