import CValues.Arithmetic
import CValues.Proofs.Integer.CommonType

/-!
# Arithmetic on the machine

The operators on integers are those of a machine that has them at each width: both patterns are
extended to the type the operator works at, each by its own sign, and one operation on bit vectors
gives the pattern of the result. A shift works at the type of its promoted left operand and every
other operator at the common type.

Values are computed in an accumulator instead, as integers that are reduced at the end. What makes
the two agree is stated once for each operator in `Machine.map_truncate_onIntegers`; that operands
are first converted to the common type, which may change the integer they stand for, does not matter
since their patterns there are the extended ones.
-/

namespace CValues

/-! ## Integer operands -/

namespace Value

/-- The pattern of an integer, extended or cut to some bits: with its sign if its type has one, and
with zeros otherwise. -/
def extended (n : Nat) : Value → BitVec n
  | bool truth => (BitVec.ofBool truth).setWidth n
  | int _ .signed p => p.signExtend n
  | int _ .unsigned p => p.setWidth n
  | v => BitVec.ofNat n v.bits

variable {v : Value} {x : Int}

private theorem extended_eq_truncate (hv : v.integer? = some x) (w : Width) :
    v.extended w.bits = w.truncate x := by
  cases v with
  | bool truth =>
    obtain rfl := Option.some.inj hv
    refine BitVec.eq_of_toNat_eq ?_
    rw [extended, Width.truncate, BitVec.ofInt_natCast, BitVec.toNat_setWidth, BitVec.toNat_ofBool,
      BitVec.toNat_ofNat]
  | int _ s p =>
    obtain rfl := Option.some.inj hv
    cases s with
    | signed => rfl
    | unsigned =>
      rw [extended, Width.truncate, Signedness.read, BitVec.ofInt_natCast, BitVec.ofNat_toNat]
  | float | pointer | array => cases hv

theorem exists_integer (hv : v.type.isInteger = true) :
    ∃ a x, IntType.ofType? v.type = some a ∧ v.integer? = some x := by
  cases v with
  | bool truth => exact ⟨_, _, rfl, rfl⟩
  | int w s p => exact ⟨_, _, rfl, rfl⟩
  | float | pointer | array => cases hv

theorem decay_of_integer (hv : v.integer? = some x) : v.decay = v := by
  refine decay_of_not_array fun t n a harray ↦ ?_
  rw [harray] at hv
  cases hv

private theorem not_isPointer_of_integer (hv : v.integer? = some x) : v.type.isPointer = false := by
  cases v with
  | pointer => cases hv
  | _ => rfl

private theorem not_isFloating_of_integer (hv : v.integer? = some x) :
    v.type.isFloating = false := by
  cases v with
  | float => cases hv
  | _ => rfl

theorem result_convert_int (hv : v.integer? = some x) (target : Target) (kind : ConversionKind)
    (t : IntType) :
    (convert target kind v (.int t.width t.signedness)).result
      = .ok (t.value (t.width.truncate x)) := by
  cases v with
  | bool truth =>
    obtain rfl := Option.some.inj hv
    rfl
  | int w s p =>
    obtain rfl := Option.some.inj hv
    rfl
  | float | pointer | array => cases hv

/-- Promotion takes an integer to its residue at the promoted type. -/
theorem promote_eq (hv : v.integer? = some x) {a : IntType} (ha : IntType.ofType? v.type = some a) :
    v.promote = a.promoted.value (a.promoted.width.truncate x) := by
  cases v with
  | bool truth =>
    obtain rfl := Option.some.inj hv
    obtain rfl := Option.some.inj ha
    rfl
  | int w s p =>
    obtain rfl := Option.some.inj hv
    obtain rfl := Option.some.inj ha
    cases w with
    | w8 => cases s <;> rfl
    | w16 => cases s <;> rfl
    | w32 => cases s <;> exact congrArg (Value.int _ _) (Width.truncate_read _ _ p).symm
    | w64 => cases s <;> exact congrArg (Value.int _ _) (Width.truncate_read _ _ p).symm
  | float | pointer | array => cases hv

/-- Promotion changes no integer. -/
theorem integer?_promote (v : Value) : v.promote.integer? = v.integer? := by
  cases v with
  | bool truth => cases truth <;> rfl
  | int w s p =>
    rw [promote_eq rfl rfl]
    exact congrArg some ((IntType.promoted_represents ⟨w, s⟩).read_truncate_read p)
  | float | pointer | array => rfl

end Value

/-- A width divides two to the power of 32, so the count modulo the width survives its truncation,
also if it is negative. -/
theorem shiftCount_eq (w : Width) (count : Int) :
    shiftCount w count = (count % w.bits).toNat := by
  have hdvd : (w.bits : Int) ∣ pow2 32 := by cases w <;> decide
  have hcount : (shiftCount w count : Int) = count % w.bits := by
    rw [shiftCount, Int.natCast_emod, ← Int.emod_emod_of_dvd count hdvd]
    exact congrArg (· % (w.bits : Int)) (Width.w32.toNat_truncate count)
  rw [← hcount, Int.toNat_natCast]

/-! ## The operations of the machine -/

namespace Machine

/-- The operation of an operator on two patterns of one width. A shift takes its count apart. -/
def operate {n : Nat} (s : Signedness) (x y : BitVec n) (count : Nat) :
    BinaryOp → Except Error (BitVec n)
  | .add => .ok (x + y)
  | .sub => .ok (x - y)
  | .mul => .ok (x * y)
  | .div => if y = 0#n then .error .divisionByZero else .ok (s.quotient x y)
  | .rem => if y = 0#n then .error .divisionByZero else .ok (s.remainder x y)
  | .and => .ok (x &&& y)
  | .or => .ok (x ||| y)
  | .xor => .ok (x ^^^ y)
  | .shl => .ok (x <<< count)
  | .shr => .ok (s.shiftRight x count)

/-- The type that an operator on two integers works at. -/
def workingType (op : BinaryOp) (a b : IntType) : IntType :=
  if op.isShift then a.promoted else a.promoted.common b.promoted

/-- An operator on two integers. -/
def binary (op : BinaryOp) (v w : Value) : Except Error Value :=
  match IntType.ofType? v.type, IntType.ofType? w.type, w.integer? with
  | some a, some b, some y =>
    let t := workingType op a b
    let n := t.width.bits
    (operate t.signedness (v.extended n) (w.extended n) (y % n).toNat op).map t.value
  | _, _, _ => .error (.invalidOperands (.binary op) [v.type, w.type])

/-- A division by a pattern fails if the pattern is zero. -/
theorem map_truncate_guarded {width : Width} {s : Signedness} {r : Int} {y p : BitVec width.bits}
    (hr : width.truncate r = p) :
    (if s.read y = 0 then Except.error .divisionByZero else .ok r).map width.truncate
      = if y = 0#(width.bits) then Except.error Error.divisionByZero else .ok p := by
  by_cases hy : y = 0#(width.bits)
  · rw [if_pos hy, if_pos (Signedness.read_eq_zero_iff.mpr hy)]
    rfl
  · rw [if_neg hy, if_neg (mt Signedness.read_eq_zero_iff.mp hy)]
    exact congrArg Except.ok hr

private theorem truncate_bitwise_read {width : Width} (s : Signedness) (x y : BitVec width.bits)
    (op : BitVec Accumulator.bits → BitVec Accumulator.bits → BitVec Accumulator.bits)
    (op' : BitVec width.bits → BitVec width.bits → BitVec width.bits)
    (hop : ∀ p q, (op p q).setWidth width.bits
      = op' (p.setWidth width.bits) (q.setWidth width.bits)) :
    width.truncate (Accumulator.bitwise op (s.read x) (s.read y)) = op' x y := by
  rw [Width.truncate_bitwise width op op' hop, Width.truncate_read, Width.truncate_read]

/-- What the accumulator has for two patterns, reduced to their width, is the operation on them. -/
theorem map_truncate_onIntegers {width : Width} (s : Signedness) (x y : BitVec width.bits)
    (count : Nat) (op : BinaryOp) :
    (op.onIntegers (s.read x) (if op.isShift then count else s.read y)).map width.truncate
      = operate s x y count op := by
  cases op with
  | add =>
    refine congrArg Except.ok ?_
    change width.truncate (Accumulator.wrap (s.read x + s.read y)) = x + y
    rw [Width.truncate_wrap, Width.truncate_add, Width.truncate_read, Width.truncate_read]
  | sub =>
    refine congrArg Except.ok ?_
    change width.truncate (Accumulator.wrap (s.read x - s.read y)) = x - y
    rw [Width.truncate_wrap, Width.truncate_sub, Width.truncate_read, Width.truncate_read]
  | mul =>
    refine congrArg Except.ok ?_
    change width.truncate (Accumulator.wrap (s.read x * s.read y)) = x * y
    rw [Width.truncate_wrap, Width.truncate_mul, Width.truncate_read, Width.truncate_read]
  | div => exact map_truncate_guarded (Width.truncate_tdiv_read s x y)
  | rem => exact map_truncate_guarded (Width.truncate_tmod_read s x y)
  | and =>
    exact congrArg Except.ok (truncate_bitwise_read s x y _ (· &&& ·) fun _ _ ↦ BitVec.setWidth_and)
  | or =>
    exact congrArg Except.ok (truncate_bitwise_read s x y _ (· ||| ·) fun _ _ ↦ BitVec.setWidth_or)
  | xor =>
    exact congrArg Except.ok (truncate_bitwise_read s x y _ (· ^^^ ·) fun _ _ ↦ BitVec.setWidth_xor)
  | shl =>
    refine congrArg Except.ok ?_
    change width.truncate (Accumulator.wrap (s.read x <<< (count : Int).toNat)) = x <<< count
    rw [Width.truncate_wrap, Int.toNat_natCast, Width.truncate_shiftLeft, Width.truncate_read]
  | shr => exact congrArg Except.ok (Width.truncate_shiftRight_read s x count)

/-! ## Operators on values -/

private theorem result_ofExcept_map {α β : Type} (r : Except Error α) (f : α → β) :
    (Traced.ofExcept r >>= fun x ↦ pure (f x)).result = r.map f := by
  rw [Traced.result_bind, Traced.result_ofExcept]
  cases r <;> rfl

theorem map_value_truncate (t : IntType) (r : Except Error Int) :
    r.map (fun x ↦ t.value (t.width.truncate x)) = (r.map t.width.truncate).map t.value := by
  cases r <;> rfl

section Operators

variable {v w : Value} {a b : IntType} {x y : Int}

/-- A shift takes its left operand at the promoted type. -/
theorem result_shift (hx : v.integer? = some x) (ha : IntType.ofType? v.type = some a)
    (hy : w.integer? = some y) (op : BinaryOp) :
    let t := a.promoted
    (shift op v w).result
      = (op.onIntegers (t.read (t.width.truncate x)) (y % t.width.bits).toNat).map
        fun r ↦ t.value (t.width.truncate r) := by
  intro t
  rw [shift, Value.promote_eq hx ha, Value.integer?_promote, hy, ← shiftCount_eq]
  exact result_ofExcept_map _ _

/-- Every other operator takes its operands at the common type. -/
theorem result_common (hx : v.integer? = some x) (ha : IntType.ofType? v.type = some a)
    (hy : w.integer? = some y) (hb : IntType.ofType? w.type = some b) (target : Target)
    (op : BinaryOp) :
    let t := a.promoted.common b.promoted
    ((do
      let common ← (usualType v.type w.type : Traced CommonType)
      let v ← convert target .implicit v common.toCType
      let w ← convert target .implicit w common.toCType
      onCommonType op v w common) : Traced Value).result
      = (op.onIntegers (t.read (t.width.truncate x)) (t.read (t.width.truncate y))).map
        fun r ↦ t.value (t.width.truncate r) := by
  intro t
  change (Traced.ofExcept (usualType v.type w.type) >>= _).result = _
  rw [Traced.result_bind, Traced.result_ofExcept, IntType.usualType_eq ha hb]
  change (convert target .implicit v (.int t.width t.signedness) >>= _).result = _
  rw [Traced.result_bind, Value.result_convert_int hx]
  change (convert target .implicit w (.int t.width t.signedness) >>= _).result = _
  rw [Traced.result_bind, Value.result_convert_int hy]
  exact result_ofExcept_map _ _

theorem result_binary (hx : v.integer? = some x) (ha : IntType.ofType? v.type = some a)
    (hy : w.integer? = some y) (hb : IntType.ofType? w.type = some b) (target : Target)
    (op : BinaryOp) :
    let t := workingType op a b
    (CValues.binary target op v w).result
      = (op.onIntegers (t.read (t.width.truncate x))
          (if op.isShift then ((y % t.width.bits).toNat : Int)
            else t.read (t.width.truncate y))).map fun r ↦ t.value (t.width.truncate r) := by
  rw [CValues.binary, Value.decay_of_integer hx, Value.decay_of_integer hy,
    Value.not_isPointer_of_integer hx, Value.not_isPointer_of_integer hy, Bool.or_self,
    if_neg Bool.false_ne_true, arithmetic, Value.not_isFloating_of_integer hx,
    Value.not_isFloating_of_integer hy, Bool.or_self, Bool.and_false, if_neg Bool.false_ne_true,
    workingType]
  cases op.isShift with
  | true => exact result_shift hx ha hy op
  | false => exact result_common hx ha hy hb target op

theorem result_binary_eq_machine (hv : v.type.isInteger = true) (hw : w.type.isInteger = true)
    (target : Target) (op : BinaryOp) :
    (CValues.binary target op v w).result = binary op v w := by
  obtain ⟨a, x, ha, hx⟩ := Value.exists_integer hv
  obtain ⟨b, y, hb, hy⟩ := Value.exists_integer hw
  rw [result_binary hx ha hy hb, map_value_truncate, binary, ha, hb, hy]
  dsimp only
  -- the operands at the working type have the extended patterns, whatever integers they were
  rw [Value.extended_eq_truncate hx, Value.extended_eq_truncate hy, ← map_truncate_onIntegers]
  rfl

end Operators

/-- **Arithmetic is that of the machine.** An operator on two integers gives what the machine has
for it at the type it works at, and fails only for a divisor of zero. The least integer of a signed
type divided by minus one is itself again, with no remainder. -/
theorem binary_refines_machine (target : Target) :
    (∀ op v w, v.type.isInteger = true → w.type.isInteger = true →
      (CValues.binary target op v w).result = binary op v w) ∧
    ∀ t : IntType, t.signedness = .signed → IntType.int.rank ≤ t.rank →
      (CValues.binary target .div (t.value (.intMin _)) (t.value (-1))).result
          = .ok (t.value (.intMin _)) ∧
        (CValues.binary target .rem (t.value (.intMin _)) (t.value (-1))).result
          = .ok (t.value 0) := by
  refine ⟨fun op v w hv hw ↦ result_binary_eq_machine hv hw target op, ?_⟩
  rintro ⟨w, s⟩ rfl hrank
  cases w with
  | w8 => exact absurd hrank (by decide)
  | w16 => exact absurd hrank (by decide)
  | w32 => exact ⟨rfl, rfl⟩
  | w64 => exact ⟨rfl, rfl⟩

/-- The square of the greatest integer of 64 bits does not fit into the accumulator, and its last
bits are still exact; a negative count shifts by its residue. -/
theorem binary_refines_machine_product :
    let greatest : Value := .int .w64 .unsigned (.allOnes 64)
    greatest.type.isInteger = true ∧
      (CValues.binary {} .mul greatest greatest).result = .ok (.int .w64 .unsigned 1) ∧
      (CValues.binary {} .shl (.plainInt 1) (.plainInt (-1))).result
        = .ok (.int .w32 .signed (.intMin 32)) := by
  intro greatest
  obtain ⟨hbinary, -⟩ := binary_refines_machine {}
  have hsquare : (BitVec.allOnes 64).setWidth 64 * (BitVec.allOnes 64).setWidth 64 = 1 := by decide
  refine ⟨rfl, ?_, (hbinary .shl (.plainInt 1) (.plainInt (-1)) rfl rfl).trans rfl⟩
  rw [hbinary .mul greatest greatest rfl rfl]
  exact congrArg (Except.ok ∘ IntType.value ⟨.w64, .unsigned⟩) hsquare

end Machine

end CValues
