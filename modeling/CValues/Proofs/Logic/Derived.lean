import CValues.Proofs.Comparison.Order
import CValues.Proofs.Expr.StaticType
import CValues.Proofs.Integer.Division

/-!
# Operators by other operators

The operators on one operand and on truth values can be written with those on two. `-v` is `0 - v`,
`~v` is `v ^ -1` and `+v` is `v + 0`; `!v` is `v == 0`, and `&&` and `||` are `&` and `|` of the
outcomes of comparing both operands with zero.

The two sides find their results in different ways. A sign is computed on the promoted operand and
a difference at the common type with `int`, which is the promoted type once more. A truth value is
read off the pattern, or off the magnitude of a floating number, while a comparison converts zero to
the type of its operand. The two agree because only values that count as false are equal to zero, as
`exists_ordered_zero` says.
-/

namespace CValues

/-- Both computations have a value, and it is the same one. Their records may differ. -/
def Traced.Agree {α : Type} (x y : Traced α) : Prop :=
  ∃ a, x.result = .ok a ∧ y.result = .ok a

/-! ## Signs and the complement -/

namespace IntType

private theorem common_int_left (t : IntType) : int.promoted.common t.promoted = t.promoted := by
  obtain ⟨w, s⟩ := t
  cases w <;> cases s <;> rfl

private theorem common_int_right (t : IntType) : t.promoted.common int.promoted = t.promoted := by
  obtain ⟨w, s⟩ := t
  cases w <;> cases s <;> rfl

end IntType

/-- The pattern of the complement differs from the pattern in every bit, as minus one does from
zero. -/
theorem Width.truncate_complement (w : Width) (x : Int) :
    w.truncate (-x - 1) = w.truncate x ^^^ w.truncate (-1) := by
  have hones : w.truncate (-1) = BitVec.allOnes w.bits := by cases w <;> decide
  rw [hones, BitVec.xor_allOnes, BitVec.not_eq_neg_add, truncate_sub, truncate_neg]
  rfl

section Integers

variable {v : Value} {a : IntType} {x : Int}

/-- A sign or a complement is found from the integer itself, at the promoted type. -/
theorem result_unary_integer {op : UnaryOp} (hop : op ≠ .not) (hx : v.integer? = some x)
    (ha : IntType.ofType? v.type = some a) :
    (unary op v).result
      = .ok (a.promoted.value (a.promoted.width.truncate (op.onInteger x))) := by
  -- promotion keeps the integer, since the promoted type represents it
  have hread : a.promoted.read (a.promoted.width.truncate x) = x := by
    obtain ⟨hleast, hgreatest⟩ := Value.integer?_range hx ha
    obtain ⟨hlower, hupper⟩ := a.promoted_represents
    exact IntType.read_truncate (Int.le_trans hlower hleast) (Int.le_trans hgreatest hupper)
  have hoperand : (unary op v).result = .ok (a.promoted.value (a.promoted.width.truncate
      (op.onInteger (a.promoted.read (a.promoted.width.truncate x))))) := by
    cases op with
    | not => exact absurd rfl hop
    | plus | neg | complement =>
      simp only [unary, Value.decay_of_integer hx, Value.promote_eq hx ha, IntType.value]
      rfl
  rw [hoperand, hread]

theorem neg_agrees (hx : v.integer? = some x) (ha : IntType.ofType? v.type = some a)
    (target : Target) : (unary .neg v).Agree (binary target .sub (.plainInt 0) v) := by
  have hzero : (Value.plainInt 0).integer? = some 0 := rfl
  refine ⟨_, result_unary_integer nofun hx ha, ?_⟩
  rw [Machine.result_binary_of_common hzero rfl hx ha a.common_int_left rfl, Machine.operate,
    ← Width.truncate_sub, Int.zero_sub]
  rfl

theorem complement_agrees (hx : v.integer? = some x) (ha : IntType.ofType? v.type = some a)
    (target : Target) : (unary .complement v).Agree (binary target .xor v (.plainInt (-1))) := by
  have hminus : (Value.plainInt (-1)).integer? = some (-1) := rfl
  refine ⟨_, result_unary_integer nofun hx ha, ?_⟩
  rw [Machine.result_binary_of_common hx ha hminus rfl a.common_int_right rfl, Machine.operate,
    ← Width.truncate_complement]
  rfl

theorem plus_agrees (hx : v.integer? = some x) (ha : IntType.ofType? v.type = some a)
    (target : Target) : (unary .plus v).Agree (binary target .add v (.plainInt 0)) := by
  have hzero : (Value.plainInt 0).integer? = some 0 := rfl
  refine ⟨_, result_unary_integer nofun hx ha, ?_⟩
  rw [Machine.result_binary_of_common hx ha hzero rfl a.common_int_right rfl, Machine.operate,
    ← Width.truncate_add, Int.add_zero]
  rfl

end Integers

/-! ## Comparison with zero -/

private theorem FloatFormat.ofInt_zero (f : FloatFormat) : f.ofInt 0 = 0 := by
  change f.round false (0 * pow2 f.scale) 1 = 0
  rw [Nat.zero_mul]
  cases f <;> decide

/-- Of all floating patterns only the two zeros are equal to zero. -/
theorem FloatFormat.holds_order_zero (f : FloatFormat) (p : f.Pattern) :
    CompareOp.eq.holds (f.order p (f.ofInt 0)) = f.isZero p := by
  have hnumber : f.isNaN 0 = false := by cases f <;> decide
  have hkey : f.orderKey 0 = 0 := by cases f <;> decide
  have hmagnitude : f.orderKey p = 0 ↔ f.magnitude p = 0 := by
    rw [orderKey]
    split <;> omega
  rw [Bool.eq_iff_iff, ofInt_zero, order, hnumber, Bool.or_false, isZero, decide_eq_true_iff]
  by_cases hnan : f.isNaN p = true
  -- a pattern that is no number has a larger magnitude than infinity, so it is no zero either
  · have hlarge : f.infinity < f.magnitude p := of_decide_eq_true hnan
    rw [if_pos hnan]
    exact iff_of_false Bool.false_ne_true (by omega)
  · rw [if_neg hnan, CompareOp.holds_compare_iff, CompareOp.Relates, hkey, hmagnitude]

theorem Value.isZero_iff_of_integer? {v : Value} {x : Int} (hx : v.integer? = some x) :
    v.isZero = true ↔ x = 0 := by
  cases v with
  | bool truth =>
    obtain rfl := Option.some.inj hx
    cases truth <;> simp [isZero, bits]
  | int w s p =>
    obtain rfl := Option.some.inj hx
    rw [Signedness.read_eq_zero_iff, isZero, beq_iff_eq, bits]
    · exact BitVec.toNat_inj (y := 0#(w.bits))
    · nofun
  | float | pointer | array => cases hx

section Zero

variable {v : Value}

private theorem exists_ordered_zero_of_integer? {x : Int} (hx : v.integer? = some x)
    (target : Target) (op : CompareOp) :
    ∃ o, Ordered target op v.decay (Value.plainInt 0).decay o ∧
      CompareOp.eq.holds o = v.isZero := by
  obtain ⟨a, ha⟩ := Value.exists_ofType? hx
  refine ⟨_, ordered_integers hx ha (y := 0) rfl rfl target op, ?_⟩
  rw [Bool.eq_iff_iff, CompareOp.holds_compare_iff, CompareOp.Relates,
    IntType.taken_eq_self (.inr (Int.le_refl 0)), Value.isZero_iff_of_integer? hx]
  exact (IntType.common_receives_left a IntType.int).taken_eq_zero_iff
    (Value.integer?_range hx ha).1

/-- Every value can be compared with zero, and those that count as false are the ones equal to
it. -/
theorem exists_ordered_zero (op : CompareOp) (hop : op.isEquality = true) (target : Target)
    (v : Value) :
    ∃ o, Ordered target op v.decay (Value.plainInt 0).decay o ∧
      CompareOp.eq.holds o = v.isZero := by
  have haddress (a : BitVec 64) :
      CompareOp.eq.holds (some (compare a.toNat 0)) = (a.toNat == 0) := by
    rw [Bool.eq_iff_iff, CompareOp.holds_compare_iff, beq_iff_eq]
    rfl
  cases v with
  | bool | int => exact exists_ordered_zero_of_integer? rfl target op
  | float f p =>
    -- only zero is converted: the common type with `int` is that of the operand
    have hcommon : usualType (.float f) .plainInt = .ok (.float f) := by cases f <;> rfl
    have hcompare : compareNumbers (.float f p) (.float f (f.ofInt 0)) = f.order p (f.ofInt 0) := by
      cases f <;> rfl
    refine ⟨f.order p (f.ofInt 0), ?_, f.holds_order_zero p⟩
    rw [← hcompare]
    exact .numbers hcommon (result_convert_self target .implicit rfl) rfl
  | pointer t q a => exact ⟨_, .zeroRight hop rfl, haddress a⟩
  | array t n a => exact ⟨_, .zeroRight hop rfl, haddress a⟩

private theorem result_eq_zero (target : Target) (v : Value) :
    (compareValues target .eq v (.plainInt 0)).result = .ok (outcomeInt v.isZero) := by
  obtain ⟨o, ho, hzero⟩ := exists_ordered_zero .eq rfl target v
  rw [ho.result_compareValues, hzero]

private theorem result_ne_zero (target : Target) (v : Value) :
    (compareValues target .ne v (.plainInt 0)).result = .ok (outcomeInt (!v.isZero)) := by
  obtain ⟨o, ho, hzero⟩ := exists_ordered_zero .ne rfl target v
  rw [ho.result_compareValues, CompareOp.holds_ne, hzero]

end Zero

/-! ## Truth values -/

/-- The operator on bits that does to zeros and ones what the logical operator does to truth
values. -/
def LogicalOp.onBits : LogicalOp → BinaryOp
  | and => .and
  | or => .or

private theorem result_binary_outcomeInt (target : Target) (op : LogicalOp) (a b : Bool) :
    (binary target op.onBits (outcomeInt a) (outcomeInt b)).result
      = .ok (outcomeInt (op.combine a b)) := by
  cases op <;> cases a <;> cases b <;> rfl

theorem result_convert_bool (target : Target) (kind : ConversionKind) (v : Value) :
    (convert target kind v .bool).result = .ok (.bool (!v.isZero)) := by
  cases v <;> rfl

/-- A logical operator is the operator on bits on the outcomes of two comparisons with zero. -/
theorem logical_agrees (target : Target) (op : LogicalOp) (v w : Value) :
    (logical op v w).Agree (do
      let a ← compareValues target .ne v (.plainInt 0)
      let b ← compareValues target .ne w (.plainInt 0)
      binary target op.onBits a b) := by
  refine ⟨_, result_logical op v w, ?_⟩
  refine Traced.result_bind_eq_ok_iff.mpr ⟨_, result_ne_zero target v, ?_⟩
  refine Traced.result_bind_eq_ok_iff.mpr ⟨_, result_ne_zero target w, ?_⟩
  exact result_binary_outcomeInt target op _ _

/-- **Operators by other operators.** For every integer, `_Bool` included, the signs and the
complement have the type and the pattern of `0 - v`, `v ^ -1` and `v + 0`. For every value, `!` is
the comparison with zero, and the value is true as a `_Bool` exactly if it is not equal to zero. The
logical operators are those on bits on the outcomes of both comparisons. -/
theorem operators_by_binary_ones (target : Target) :
    (∀ v : Value, v.type.isInteger = true →
      (unary .neg v).Agree (binary target .sub (.plainInt 0) v) ∧
        (unary .complement v).Agree (binary target .xor v (.plainInt (-1))) ∧
        (unary .plus v).Agree (binary target .add v (.plainInt 0))) ∧
      (∀ v, (unary .not v).Agree (compareValues target .eq v (.plainInt 0))) ∧
      (∀ kind v, ∃ truth, (convert target kind v .bool).result = .ok (.bool truth) ∧
        (truth = true ↔ CompareOp.ne.IsTrue target v (.plainInt 0))) ∧
      ∀ v w,
        (logical .and v w).Agree (do
          let a ← compareValues target .ne v (.plainInt 0)
          let b ← compareValues target .ne w (.plainInt 0)
          binary target .and a b) ∧
        (logical .or v w).Agree (do
          let a ← compareValues target .ne v (.plainInt 0)
          let b ← compareValues target .ne w (.plainInt 0)
          binary target .or a b) := by
  refine ⟨fun v hv ↦ ?_, fun v ↦ ⟨_, result_unary_not v, result_eq_zero target v⟩, fun kind v ↦ ?_,
    fun v w ↦ ⟨logical_agrees target .and v w, logical_agrees target .or v w⟩⟩
  · obtain ⟨a, x, ha, hx⟩ := Value.exists_integer hv
    exact ⟨neg_agrees hx ha target, complement_agrees hx ha target, plus_agrees hx ha target⟩
  · refine ⟨_, result_convert_bool target kind v, ?_⟩
    obtain ⟨o, ho, hzero⟩ := exists_ordered_zero .ne rfl target v
    rw [ho.isTrue_iff, CompareOp.holds_ne, hzero]

/-- The least `int` is its own negative, and zero minus it. The complement of a byte is an `int`. A
pattern that is no number is not equal to zero, and the negative zero is. A null array counts as its
address. -/
theorem operators_by_binary_ones_extremes :
    let least := Value.int .w32 .signed (.intMin 32)
    let byte := Value.int .w8 .unsigned 255
    let nan := Value.float .single 0x7FC00000
    let zero := Value.float .double 0x8000000000000000
    let array := Value.array .plainInt 3 0
    least.type.isInteger = true ∧ byte.type.isInteger = true ∧
      (unary .neg least).result = .ok least ∧
      (binary {} .sub (.plainInt 0) least).result = .ok least ∧
      (binary {} .xor byte (.plainInt (-1))).result = .ok (.plainInt (-256)) ∧
      (compareValues {} .eq nan (.plainInt 0)).result = .ok (.plainInt 0) ∧
      ¬ CompareOp.ne.IsTrue {} zero (.plainInt 0) ∧
      (logical .or zero array).Agree (do
        let a ← compareValues {} .ne zero (.plainInt 0)
        let b ← compareValues {} .ne array (.plainInt 0)
        binary {} .or a b) := by
  intro least byte nan zero array
  obtain ⟨hintegers, hnot, htruth, hlogical⟩ := operators_by_binary_ones {}
  obtain ⟨⟨r, hneg, hsub⟩, -⟩ := hintegers least rfl
  obtain ⟨-, ⟨u, hcomplement, hxor⟩, -⟩ := hintegers byte rfl
  obtain ⟨n, hnan, hequal⟩ := hnot nan
  obtain ⟨truth, hbool, hiff⟩ := htruth .implicit zero
  obtain rfl : least = r := Except.ok.inj hneg
  obtain rfl : Value.plainInt (-256) = u := Except.ok.inj hcomplement
  obtain rfl : Value.plainInt 0 = n := Except.ok.inj hnan
  obtain rfl : false = truth := Value.bool.inj (Except.ok.inj hbool)
  have hzero : ¬ CompareOp.ne.IsTrue {} zero (.plainInt 0) := fun h ↦ nomatch hiff.mpr h
  exact ⟨rfl, rfl, hneg, hsub, hxor, hequal, hzero, (hlogical zero array).2⟩

end CValues
