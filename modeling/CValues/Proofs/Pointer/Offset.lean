import CValues.Heap.Object
import CValues.Proofs.Integer.Residue

/-!
# Moving a pointer

A pointer moved by some elements has the address it would have in unbounded integers, reduced to the
width of an address. The products and sums on the way may leave the accumulator, and the index may
have been cut to 64 bits; neither shows in the residue.

So moves add up as residues do, and a move back undoes a move, as long as the pointer had an address
of the target before. There is no move by an index that is no integer, and none over elements that
have no size or the size zero.
-/

namespace CValues

variable {target : Target} {pointee : CType} {size : Nat}

/-! ## Addresses -/

private theorem addressWidth_bits_le (target : Target) : target.addressWidth.bits ≤ 64 := by
  rw [Target.addressWidth]
  cases target.pointerSize <;> decide

/-- An address of the target fits the 64 bits that a pointer carries. -/
theorem PointerSize.Fits.lt_pow2 {p : PointerSize} {n : Nat} (hfits : p.Fits n) : n < pow2 64 := by
  refine Nat.lt_of_lt_of_le hfits (Nat.pow_le_pow_right Nat.two_pos ?_)
  cases p <;> decide

namespace Target

/-- The address that an integer comes to: its residue modulo two to the width of an address. -/
def addressAt (target : Target) (x : Int) : BitVec 64 :=
  BitVec.ofInt 64 (x % pow2 target.addressWidth.bits)

theorem ofNat_truncate_eq_addressAt (target : Target) (x : Int) :
    BitVec.ofNat 64 (target.addressWidth.truncate x).toNat = target.addressAt x := by
  rw [addressAt, ← Width.toNat_truncate, BitVec.ofInt_natCast]

theorem toNat_addressAt (target : Target) (x : Int) :
    ((target.addressAt x).toNat : Int) = x % pow2 target.addressWidth.bits := by
  have hlt : (target.addressWidth.truncate x).toNat < pow2 64 :=
    Nat.lt_of_lt_of_le (BitVec.isLt _)
      (Nat.pow_le_pow_right Nat.two_pos (addressWidth_bits_le target))
  rw [← ofNat_truncate_eq_addressAt, BitVec.toNat_ofNat, ← Width.toNat_truncate]
  exact congrArg Nat.cast (Nat.mod_eq_of_lt hlt)

theorem addressAt_congr {x y : Int}
    (h : x % pow2 target.addressWidth.bits = y % pow2 target.addressWidth.bits) :
    target.addressAt x = target.addressAt y := by
  rw [addressAt, h, addressAt]

theorem addressAt_toNat {a : BitVec 64} (ha : target.pointerSize.Fits a.toNat) :
    target.addressAt a.toNat = a := by
  refine BitVec.eq_of_toNat_eq (Int.ofNat_inj.mp ?_)
  rw [toNat_addressAt]
  exact Int.emod_eq_of_lt (Int.natCast_nonneg _) (Int.ofNat_lt.mpr ha)

/-- A step from a reduced address leads where it would without the reduction. -/
theorem addressAt_toNat_addressAt_add (target : Target) (x y : Int) :
    target.addressAt ((target.addressAt x).toNat + y) = target.addressAt (x + y) := by
  refine addressAt_congr ?_
  rw [toNat_addressAt, Int.emod_add_emod]

end Target

/-! ## Steps -/

section Steps

variable {op : BinaryOp} {index : Value} {i : Int}

theorem elementSize_of_pos (hsize : pointee.size? target.pointerSize = some size)
    (hpos : 0 < size) : elementSize target op pointee = .ok size := by
  obtain ⟨n, rfl⟩ := Nat.exists_eq_succ_of_ne_zero (Nat.ne_of_gt hpos)
  rw [elementSize, hsize]

private theorem elementSize_of_unsized
    (hsize : ∀ size, pointee.size? target.pointerSize = some size → size = 0) :
    elementSize target op pointee
      = .error (.invalidOperands (.binary op) [.pointerTo pointee]) := by
  rw [elementSize]
  split
  · next n hn => exact absurd (hsize _ hn) (Nat.succ_ne_zero n)
  · rfl

theorem elementSize_cases (target : Target) (op : BinaryOp) (pointee : CType) :
    (∃ size, pointee.size? target.pointerSize = some size ∧ 0 < size ∧
        elementSize target op pointee = .ok size) ∨
      elementSize target op pointee
        = .error (.invalidOperands (.binary op) [.pointerTo pointee]) := by
  by_cases hsized : ∃ size, pointee.size? target.pointerSize = some size ∧ 0 < size
  · obtain ⟨size, hsize, hpos⟩ := hsized
    exact .inl ⟨size, hsize, hpos, elementSize_of_pos hsize hpos⟩
  · refine .inr (elementSize_of_unsized fun size hsize ↦ ?_)
    exact Nat.eq_zero_of_not_pos fun hpos ↦ hsized ⟨size, hsize, hpos⟩

private theorem result_offset (hi : index.integer? = some i)
    (hsize : pointee.size? target.pointerSize = some size) (hpos : 0 < size)
    (operands : List CType) (q : Qualifiers) (a : BitVec 64) (sign : Int) :
    (offset target op operands pointee q a index sign).result
      = .ok (.pointer pointee q
          (BitVec.ofNat 64 (target.addressWidth.truncate (a.toNat + i * size * sign)).toNat)) := by
  rw [offset, hi]
  refine Traced.result_bind_eq_ok_iff.mpr ⟨size, elementSize_of_pos hsize hpos, ?_⟩
  have hmoved : target.addressWidth.truncate
      (Accumulator.wrap (a.toNat + Accumulator.wrap (Accumulator.wrap (i * size) * sign)))
      = target.addressWidth.truncate (a.toNat + i * size * sign) := by
    rw [Width.truncate_wrap, Width.truncate_add, Width.truncate_wrap, Width.truncate_mul,
      Width.truncate_wrap, ← Width.truncate_mul, ← Width.truncate_add]
  rw [Traced.result_pure, hmoved]

private theorem result_offset_of_unsized (hi : index.integer? = some i)
    (hsize : ∀ size, pointee.size? target.pointerSize = some size → size = 0)
    (operands : List CType) (q : Qualifiers) (a : BitVec 64) (sign : Int) :
    (offset target op operands pointee q a index sign).result
      = .error (.invalidOperands (.binary op) [.pointerTo pointee]) := by
  have herror : (Traced.ofExcept (elementSize target op pointee)).result
      = .error (.invalidOperands (.binary op) [.pointerTo pointee]) := elementSize_of_unsized hsize
  rw [offset, hi]
  exact congrArg Traced.result (Traced.bind_of_error herror _)

private theorem result_offset_of_isFloating (hindex : index.type.isFloating = true)
    (operands : List CType) (q : Qualifiers) (a : BitVec 64) (sign : Int) :
    (offset target op operands pointee q a index sign).result
      = .error (.invalidOperands (.binary op) operands) := by
  cases index with
  | float f p => rfl
  | bool | int | pointer | array => cases hindex

end Steps

/-! ## Pointers and indices as operands -/

section Operands

variable {p index : Value} {q : Qualifiers} {a : BitVec 64} {i : Int}

private theorem Value.isArithmetic_of_integer? (hi : index.integer? = some i) :
    index.type.isArithmetic = true := by
  cases index with
  | bool | int => rfl
  | float | pointer | array => cases hi

private theorem CType.isArithmetic_of_isFloating {t : CType} (ht : t.isFloating = true) :
    t.isArithmetic = true := by
  rw [CType.isArithmetic, ht, Bool.or_true]

private theorem binary_add_index (hp : p.decay = .pointer pointee q a)
    (hindex : index.type.isArithmetic = true) :
    binary target .add p index
      = offset target .add [.pointer pointee q, index.type] pointee q a index 1 := by
  cases index with
  | bool | int | float => rw [binary, hp]; rfl
  | pointer | array => cases hindex

private theorem binary_index_add (hp : p.decay = .pointer pointee q a)
    (hindex : index.type.isArithmetic = true) :
    binary target .add index p
      = offset target .add [index.type, .pointer pointee q] pointee q a index 1 := by
  cases index with
  | bool | int | float => rw [binary, hp]; rfl
  | pointer | array => cases hindex

private theorem binary_sub_index (hp : p.decay = .pointer pointee q a)
    (hindex : index.type.isArithmetic = true) :
    binary target .sub p index
      = offset target .sub [.pointer pointee q, index.type] pointee q a index (-1) := by
  cases index with
  | bool | int | float => rw [binary, hp]; rfl
  | pointer | array => cases hindex

theorem result_add_index (hp : p.decay = .pointer pointee q a) (hi : index.integer? = some i)
    (hsize : pointee.size? target.pointerSize = some size) (hpos : 0 < size) :
    (binary target .add p index).result
      = .ok (.pointer pointee q (target.addressAt (a.toNat + i * size))) := by
  rw [binary_add_index hp (Value.isArithmetic_of_integer? hi), result_offset hi hsize hpos,
    Int.mul_one, Target.ofNat_truncate_eq_addressAt]

theorem result_index_add (hp : p.decay = .pointer pointee q a) (hi : index.integer? = some i)
    (hsize : pointee.size? target.pointerSize = some size) (hpos : 0 < size) :
    (binary target .add index p).result
      = .ok (.pointer pointee q (target.addressAt (a.toNat + i * size))) := by
  rw [binary_index_add hp (Value.isArithmetic_of_integer? hi), result_offset hi hsize hpos,
    Int.mul_one, Target.ofNat_truncate_eq_addressAt]

theorem result_sub_index (hp : p.decay = .pointer pointee q a) (hi : index.integer? = some i)
    (hsize : pointee.size? target.pointerSize = some size) (hpos : 0 < size) :
    (binary target .sub p index).result
      = .ok (.pointer pointee q (target.addressAt (a.toNat - i * size))) := by
  rw [binary_sub_index hp (Value.isArithmetic_of_integer? hi), result_offset hi hsize hpos,
    Int.mul_neg_one, ← Int.sub_eq_add_neg, Target.ofNat_truncate_eq_addressAt]

/-- Two steps in sequence are one step by the sum. -/
theorem result_add_add_index (hp : p.decay = .pointer pointee q a) (hi : index.integer? = some i)
    (hsize : pointee.size? target.pointerSize = some size) (hpos : 0 < size) {next : Value}
    {j : Int} (hj : next.integer? = some j) :
    (binary target .add p index >>= fun moved ↦ binary target .add moved next).result
      = .ok (.pointer pointee q (target.addressAt (a.toNat + (i + j) * size))) := by
  refine Traced.result_bind_eq_ok_iff.mpr ⟨_, result_add_index hp hi hsize hpos, ?_⟩
  rw [result_add_index rfl hj hsize hpos, Target.addressAt_toNat_addressAt_add, Int.add_mul,
    Int.add_assoc]

/-- A step back undoes a step. -/
theorem result_add_sub_index (hp : p.decay = .pointer pointee q a) (hi : index.integer? = some i)
    (hsize : pointee.size? target.pointerSize = some size) (hpos : 0 < size)
    (ha : target.pointerSize.Fits a.toNat) :
    (binary target .add p index >>= fun moved ↦ binary target .sub moved index).result
      = .ok p.decay := by
  refine Traced.result_bind_eq_ok_iff.mpr ⟨_, result_add_index hp hi hsize hpos, ?_⟩
  rw [result_sub_index rfl hi hsize hpos, Int.sub_eq_add_neg, Target.addressAt_toNat_addressAt_add,
    Int.add_neg_cancel_right, Target.addressAt_toNat ha, hp]

theorem Target.addressAt_add_mul_congr {x k l : Int}
    (h : k % pow2 target.addressWidth.bits = l % pow2 target.addressWidth.bits) (n : Int) :
    target.addressAt (x + k * n) = target.addressAt (x + l * n) := by
  refine addressAt_congr ?_
  rw [Int.add_emod, Int.mul_emod, h, ← Int.mul_emod, ← Int.add_emod]

/-- **Pointers move modulo the width of an address.** A pointer, or an array in its place, moved by
an integer is a pointer of the same type and qualifiers at the address that unbounded integers give,
reduced to the width; the index may stand on either side of a plus. So the same step back undoes a
step, and two steps lead where any step does whose index is congruent to the sum of theirs. A
floating index, and elements that have no size or the size zero, are refused by all three forms. -/
theorem pointer_moves_modulo_address_width (target : Target) (p : Value)
    (hp : p.decay = .pointer pointee q a) :
    (∀ size index i, pointee.size? target.pointerSize = some size → 0 < size →
      index.integer? = some i →
        (binary target .add p index).result
            = .ok (.pointer pointee q (target.addressAt (a.toNat + i * size))) ∧
          (binary target .add index p).result
            = .ok (.pointer pointee q (target.addressAt (a.toNat + i * size))) ∧
          (binary target .sub p index).result
            = .ok (.pointer pointee q (target.addressAt (a.toNat - i * size))) ∧
          (a.toNat < pow2 target.addressWidth.bits →
            (binary target .add p index >>= fun moved ↦ binary target .sub moved index).result
              = .ok p.decay) ∧
          ∀ next j total k, next.integer? = some j → total.integer? = some k →
            k % pow2 target.addressWidth.bits = (i + j) % pow2 target.addressWidth.bits →
            (binary target .add p index >>= fun moved ↦ binary target .add moved next).result
              = (binary target .add p total).result) ∧
      (∀ index i, (∀ size, pointee.size? target.pointerSize = some size → size = 0) →
        index.integer? = some i →
          (binary target .add p index).result
              = .error (.invalidOperands (.binary .add) [.pointerTo pointee]) ∧
            (binary target .add index p).result
              = .error (.invalidOperands (.binary .add) [.pointerTo pointee]) ∧
            (binary target .sub p index).result
              = .error (.invalidOperands (.binary .sub) [.pointerTo pointee])) ∧
      ∀ index, index.type.isFloating = true →
        (binary target .add p index).result
            = .error (.invalidOperands (.binary .add) [.pointer pointee q, index.type]) ∧
          (binary target .add index p).result
            = .error (.invalidOperands (.binary .add) [index.type, .pointer pointee q]) ∧
          (binary target .sub p index).result
            = .error (.invalidOperands (.binary .sub) [.pointer pointee q, index.type]) := by
  refine ⟨fun size index i hsize hpos hi ↦ ?_, fun index i hsize hi ↦ ?_, fun index hindex ↦ ?_⟩
  · refine ⟨result_add_index hp hi hsize hpos, result_index_add hp hi hsize hpos,
      result_sub_index hp hi hsize hpos, result_add_sub_index hp hi hsize hpos, ?_⟩
    intro next j total k hj hk hcongruent
    rw [result_add_add_index hp hi hsize hpos hj, result_add_index hp hk hsize hpos,
      Target.addressAt_add_mul_congr hcongruent]
  · have harithmetic := Value.isArithmetic_of_integer? hi
    rw [binary_add_index hp harithmetic, binary_index_add hp harithmetic,
      binary_sub_index hp harithmetic]
    exact ⟨result_offset_of_unsized hi hsize _ q a 1, result_offset_of_unsized hi hsize _ q a 1,
      result_offset_of_unsized hi hsize _ q a (-1)⟩
  · have harithmetic := CType.isArithmetic_of_isFloating hindex
    rw [binary_add_index hp harithmetic, binary_index_add hp harithmetic,
      binary_sub_index hp harithmetic]
    exact ⟨result_offset_of_isFloating hindex _ q a 1, result_offset_of_isFloating hindex _ q a 1,
      result_offset_of_isFloating hindex _ q a (-1)⟩

/-- The greatest index of 64 bits over elements of the greatest size is a step that the accumulator
does not hold, and leads to the next address. Where addresses have 32 bits, the third element of an
array at the end of the address space lies at its beginning. Nothing moves over elements of size
zero, or by a floating number. -/
theorem pointer_moves_modulo_address_width_product :
    let pointee := CType.array (.int .w8 .signed) (pow2 64 - 1)
    let p := Value.pointer pointee { const := true } 4096
    let index := Value.int .w64 .unsigned (.allOnes 64)
    let array := Value.array .plainInt 3 0xFFFFFFF8
    let empty := Value.pointerTo (.array .plainInt 0) 4096
    pointee.size? .bits64 = some (pow2 64 - 1) ∧ index.integer? = some (pow2 64 - 1 : Nat) ∧
      Accumulator.greatest < (pow2 64 - 1 : Nat) * (pow2 64 - 1 : Nat) ∧
      (binary {} .add p index).result = .ok (.pointer pointee { const := true } 4097) ∧
      (binary {} .sub p index).result = .ok (.pointer pointee { const := true } 4095) ∧
      (binary {} .add p index >>= fun moved ↦ binary {} .sub moved index).result = .ok p ∧
      (binary { model := .ilp32 } .add (.plainInt 3) array).result
        = .ok (.pointer .plainInt .none 4) ∧
      (binary {} .add empty (.bool true)).result
        = .error (.invalidOperands (.binary .add) [.pointerTo (.array .plainInt 0)]) ∧
      (binary {} .sub p (.float .single 0)).result
        = .error (.invalidOperands (.binary .sub)
            [.pointer pointee { const := true }, .float .single]) := by
  intro pointee p index array empty
  have hsize : pointee.size? .bits64 = some (pow2 64 - 1) := by decide
  have hindex : index.integer? = some (pow2 64 - 1 : Nat) := by decide
  have hwide : Accumulator.greatest < (pow2 64 - 1 : Nat) * (pow2 64 - 1 : Nat) := by decide
  obtain ⟨hmoves, -, hfloating⟩ := pointer_moves_modulo_address_width {} p rfl
  obtain ⟨hadd, -, hsub, hback, -⟩ := hmoves _ index _ hsize (by decide) hindex
  obtain ⟨hnarrow, -⟩ := pointer_moves_modulo_address_width { model := .ilp32 } array rfl
  obtain ⟨-, hthree, -⟩ := hnarrow 4 (.plainInt 3) 3 rfl (by decide) rfl
  obtain ⟨-, hempty, -⟩ := pointer_moves_modulo_address_width {} empty rfl
  obtain ⟨hunsized, -⟩ := hempty (.bool true) 1 (fun size h ↦ (Option.some.inj h).symm) rfl
  obtain ⟨-, -, hnumber⟩ := hfloating (.float .single 0) rfl
  refine ⟨hsize, hindex, hwide, hadd.trans ?_, hsub.trans ?_, hback (by decide), hthree, hunsized,
    hnumber⟩
  · exact congrArg (fun b ↦ Except.ok (Value.pointer pointee { const := true } b)) (by decide)
  · exact congrArg (fun b ↦ Except.ok (Value.pointer pointee { const := true } b)) (by decide)

end Operands

namespace Heap

/-- The pointer to an element, whatever the index. -/
theorem result_elementPointer {h : Heap} (hsize : pointee.size? h.target.pointerSize = some size)
    (hpos : 0 < size) (q : Qualifiers) (a : BitVec 64) (index : Int) :
    (h.elementPointer (.pointer pointee q a) index).result
      = .ok (.pointer pointee q
          (BitVec.ofNat 64 (h.target.addressWidth.truncate (a.toNat + index * size)).toNat)) := by
  have hindex : h.target.addressWidth.truncate
      (Signedness.signed.read (Width.w64.truncate index)) = h.target.addressWidth.truncate index :=
    Width.truncate_read_truncate (addressWidth_bits_le h.target) .signed index
  have hi : (Value.ofInt .w64 .signed index).integer?
      = some (Signedness.signed.read (Width.w64.truncate index)) := rfl
  change (offset h.target .add [.pointer pointee q, .int .w64 .signed] pointee q a
    (.ofInt .w64 .signed index) 1).result = _
  rw [result_offset hi hsize hpos, Int.mul_one, Width.truncate_add, Width.truncate_mul, hindex,
    ← Width.truncate_mul, ← Width.truncate_add]

end Heap

end CValues
