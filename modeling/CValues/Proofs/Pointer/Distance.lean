import CValues.Proofs.Conversion.Narrowing
import CValues.Proofs.Pointer.Offset

/-!
# The distance of two pointers

The difference of two pointers to one type counts elements: it is the exact difference of their
addresses, divided by the size and rounded toward zero, at the signed type that is as wide as an
address. Moving a pointer works modulo the width instead and rounds nothing. The two undo each other
where neither matters: a step that stays inside the address space is measured as its index, and a
distance of whole elements leads from the one pointer to the other.

The index comes back only modulo the width, since a pointer can move by more elements than the
signed type counts. This does no harm on the way back, where only the residue of the index is used.
-/

namespace CValues

variable {target : Target} {pointee : CType} {size : Nat} {p q : Value} {pq qq : Qualifiers}
  {a b : BitVec 64}

/-! ## Differences -/

/-- The type of a difference: signed, and as wide as an address. -/
def Target.distanceType (target : Target) : IntType := ⟨target.addressWidth, .signed⟩

private theorem binary_sub_pointer {u : CType} (hp : p.decay = .pointer pointee pq a)
    (hq : q.decay = .pointer u qq b) :
    binary target .sub p q
      = if pointee = u then distance target .sub pointee a b
        else .invalid (.binary .sub) [.pointer pointee pq, .pointer u qq] := by
  rw [binary, hp, hq]
  rfl

theorem result_sub_pointer (hp : p.decay = .pointer pointee pq a)
    (hq : q.decay = .pointer pointee qq b) (hsize : pointee.size? target.pointerSize = some size)
    (hpos : 0 < size) :
    (binary target .sub p q).result
      = .ok (.ofInt target.addressWidth .signed ((a.toNat - b.toNat : Int).tdiv size)) := by
  rw [binary_sub_pointer hp hq, if_pos rfl]
  exact Traced.result_bind_eq_ok_iff.mpr ⟨size, elementSize_of_pos hsize hpos, rfl⟩

private theorem result_sub_pointer_cases {u : CType} (hp : p.decay = .pointer pointee pq a)
    (hq : q.decay = .pointer u qq b) (target : Target) :
    (∃ size : Nat, pointee.size? target.pointerSize = some size ∧ 0 < size ∧
        (binary target .sub p q).result
          = .ok (.ofInt target.addressWidth .signed ((a.toNat - b.toNat : Int).tdiv size))) ∨
      ∃ operands, (binary target .sub p q).result
        = .error (.invalidOperands (.binary .sub) operands) := by
  by_cases hu : pointee = u
  · subst hu
    obtain ⟨size, hsize, hpos, -⟩ | herror := elementSize_cases target .sub pointee
    · exact .inl ⟨size, hsize, hpos, result_sub_pointer hp hq hsize hpos⟩
    · have hrefused : (Traced.ofExcept (elementSize target .sub pointee)).result
          = .error (.invalidOperands (.binary .sub) [.pointerTo pointee]) := herror
      refine .inr ⟨[.pointerTo pointee], ?_⟩
      rw [binary_sub_pointer hp hq, if_pos rfl]
      exact congrArg Traced.result (Traced.bind_of_error hrefused _)
  · refine .inr ⟨[.pointer pointee pq, .pointer u qq], ?_⟩
    rw [binary_sub_pointer hp hq, if_neg hu]
    rfl

/-! ## Steps and differences -/

private theorem result_add_index_sub (hp : p.decay = .pointer pointee pq a)
    (hsize : pointee.size? target.pointerSize = some size) (hpos : 0 < size) {index : Value}
    {i : Int} (hi : index.integer? = some i) (hnonneg : 0 ≤ a.toNat + i * size)
    (hlt : a.toNat + i * size < pow2 target.addressWidth.bits) :
    (binary target .add p index >>= fun moved ↦ binary target .sub moved p).result
      = .ok (.ofInt target.addressWidth .signed i) := by
  have hne : (size : Int) ≠ 0 := Int.natCast_ne_zero.mpr (Nat.ne_of_gt hpos)
  have hdistance :
      ((target.addressAt (a.toNat + i * size)).toNat - a.toNat : Int).tdiv size = i := by
    rw [Target.toNat_addressAt, Int.emod_eq_of_lt hnonneg hlt, Int.add_comm, Int.add_sub_cancel,
      Int.mul_tdiv_cancel i hne]
  refine Traced.result_bind_eq_ok_iff.mpr ⟨_, result_add_index hp hi hsize hpos, ?_⟩
  rw [result_sub_pointer rfl hp hsize hpos, hdistance]

/-- A distance of whole elements leads from the one pointer to the other. -/
theorem result_sub_add_index (hp : p.decay = .pointer pointee pq a)
    (hq : q.decay = .pointer pointee qq b) (hsize : pointee.size? target.pointerSize = some size)
    (hpos : 0 < size) (ha : target.pointerSize.Fits a.toNat)
    (hdvd : (size : Int) ∣ a.toNat - b.toNat) :
    (binary target .sub p q >>= fun elements ↦ binary target .add q elements).result
      = .ok (.pointer pointee qq a) := by
  have hresidue := Width.read_truncate_emod target.addressWidth .signed
    ((a.toNat - b.toNat : Int).tdiv size)
  have hback : (b.toNat + (a.toNat - b.toNat : Int).tdiv size * size : Int) = a.toNat := by
    rw [Int.tdiv_mul_cancel hdvd, Int.add_comm, Int.sub_add_cancel]
  refine Traced.result_bind_eq_ok_iff.mpr ⟨_, result_sub_pointer hp hq hsize hpos, ?_⟩
  rw [result_add_index hq rfl hsize hpos, Target.addressAt_add_mul_congr hresidue, hback,
    Target.addressAt_toNat ha]

theorem exists_sub_pointer_exchanged (hp : p.decay = .pointer pointee pq a)
    (hq : q.decay = .pointer pointee qq b) (hsize : pointee.size? target.pointerSize = some size)
    (hpos : 0 < size) :
    ∃ d e x, (binary target .sub p q).result = .ok d ∧ (binary target .sub q p).result = .ok e ∧
      d.type = e.type ∧ d.integer? = some x ∧ e.HasResidue target.distanceType (-x) := by
  -- rounding toward zero is the same on both sides of zero
  have hneg : (b.toNat - a.toNat : Int).tdiv size = -(a.toNat - b.toNat : Int).tdiv size := by
    rw [← Int.neg_tdiv, Int.neg_sub]
  have hpattern (x : Int) : target.addressWidth.truncate (-x)
      = target.addressWidth.truncate
          (-Signedness.signed.read (target.addressWidth.truncate x)) := by
    rw [Width.truncate_neg, Width.truncate_neg, Width.truncate_read]
  refine ⟨_, _, _, result_sub_pointer hp hq hsize hpos, result_sub_pointer hq hp hsize hpos, rfl,
    rfl, Value.hasResidue_iff.mpr ?_⟩
  rw [hneg]
  exact congrArg (Value.int target.addressWidth .signed) (hpattern _)

/-- **Differences undo steps.** For two pointers to one type, arrays in their place included: a step
that stays inside the address space is measured as its index, at the signed type as wide as an
address; a distance of whole elements leads from the second pointer to the address of the first; and
exchanging the pointers negates the difference. The size that a difference of any two pointers is
divided by is never zero: without such a size the difference is refused. -/
theorem pointer_difference_inverts_offset (target : Target) (p q : Value)
    (hp : p.decay = .pointer pointee pq a) (hq : q.decay = .pointer pointee qq b)
    (hsize : pointee.size? target.pointerSize = some size) (hpos : 0 < size) :
    (∀ (index : Value) (i : Int), index.integer? = some i → 0 ≤ a.toNat + i * size →
      a.toNat + i * size < pow2 target.addressWidth.bits →
      ∃ d, (binary target .add p index >>= fun moved ↦ binary target .sub moved p).result = .ok d ∧
        d.HasResidue target.distanceType i) ∧
      (a.toNat < pow2 target.addressWidth.bits → (size : Int) ∣ a.toNat - b.toNat →
        (binary target .sub p q >>= fun elements ↦ binary target .add q elements).result
          = .ok (.pointer pointee qq a)) ∧
      (∃ d e x, (binary target .sub p q).result = .ok d ∧ (binary target .sub q p).result = .ok e ∧
        d.type = e.type ∧ d.integer? = some x ∧ e.HasResidue target.distanceType (-x)) ∧
      ∀ v w t u vq wq x y, v.decay = .pointer t vq x → w.decay = .pointer u wq y →
        (∃ size : Nat, t.size? target.pointerSize = some size ∧ 0 < size ∧
            (binary target .sub v w).result
              = .ok (.ofInt target.addressWidth .signed ((x.toNat - y.toNat : Int).tdiv size))) ∨
          ∃ operands, (binary target .sub v w).result
            = .error (.invalidOperands (.binary .sub) operands) := by
  refine ⟨fun index i hi hnonneg hlt ↦ ?_, result_sub_add_index hp hq hsize hpos,
    exists_sub_pointer_exchanged hp hq hsize hpos,
    fun v w t u vq wq x y hv hw ↦ result_sub_pointer_cases hv hw target⟩
  exact ⟨_, result_add_index_sub hp hsize hpos hi hnonneg hlt, Value.hasResidue_iff.mpr rfl⟩

/-- Where addresses have 32 bits, the last byte of the address space is more bytes away from the
first one than the signed type counts. The difference is minus one, which is congruent to the index
that led there and leads there again. -/
theorem pointer_difference_inverts_offset_wide :
    let target : Target := { model := .ilp32 }
    let byte := CType.int .w8 .unsigned
    let last := Value.pointer byte { const := true } 0xFFFFFFFF
    let first := Value.pointerTo byte 0
    let index := Value.int .w32 .unsigned (.allOnes 32)
    byte.size? target.pointerSize = some 1 ∧ index.integer? = some 0xFFFFFFFF ∧
      (∃ d, (binary target .add first index >>= fun moved ↦ binary target .sub moved first).result
          = .ok d ∧ d.HasResidue target.distanceType 0xFFFFFFFF) ∧
      (binary target .sub last first).result = .ok (.ofInt .w32 .signed (-1)) ∧
      (binary target .sub last first >>= fun elements ↦ binary target .add first elements).result
        = .ok (.pointerTo byte 0xFFFFFFFF) := by
  intro target byte last first index
  have hsize : byte.size? target.pointerSize = some 1 := rfl
  have hindex : index.integer? = some 0xFFFFFFFF := by decide
  obtain ⟨hstep, -⟩ := pointer_difference_inverts_offset target first first rfl rfl
    hsize Nat.one_pos
  obtain ⟨-, hback, -⟩ := pointer_difference_inverts_offset target last first rfl rfl
    hsize Nat.one_pos
  exact ⟨hsize, hindex, hstep index _ hindex (by decide) (by decide), by rfl,
    hback (by decide) (by decide)⟩

end CValues
