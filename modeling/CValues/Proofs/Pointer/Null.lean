import CValues.Proofs.Comparison.Order
import CValues.Proofs.Heap.Outcome
import CValues.Proofs.Pointer.Cast

/-!
# The null pointer

Null is seen in many ways. A null pointer is the same as the null pointer of any type, has no
address to speak of, counts as false, equals the integer zero and the null `void *`, cannot be
followed, and can be freed without an effect. `Value.IsNullOf` is all of this together, and each
pointer type has exactly one value of which it holds, the pointer with the address zero.

That pointer is what an integer zero becomes, whatever its type and with or without a cast. A cast
makes it of other integers too: of all that are multiples of two to the width of an address.
-/

namespace CValues

variable {target : Target} {pointee : CType} {q : Qualifiers} {p : Value}

/-! ## What null is seen by -/

/-- Why a null pointer cannot be followed. That a `void *` leads to no type is found out before. -/
def nullFault (operation : Operation) (pointee : CType) (q : Qualifiers) : Error :=
  if pointee = .void then .invalidOperands operation [.pointer pointee q] else .nullDereference

/-- The value is the null pointer of a type in every respect. -/
structure Value.IsNullOf (target : Target) (pointee : CType) (q : Qualifiers) (p : Value) :
    Prop where
  /-- It has the type. -/
  type_eq : p.type = .pointer pointee q
  /-- It is the same as the null pointer of every type. -/
  same_null : ∀ t, p.same (.null t) = true
  /-- It is null. -/
  isNull_eq : p.isNull = true
  /-- It has no address other than zero. -/
  nonNull?_eq : p.nonNull? = none
  /-- As a `_Bool` it is false. -/
  result_bool : ∀ kind, (convert target kind p .bool).result = .ok (.bool false)
  /-- It equals every integer zero. -/
  eq_zero : ∀ z, z.integer? = some 0 →
    CompareOp.eq.IsTrue target p z ∧ CompareOp.eq.IsTrue target z p
  /-- It equals the null `void *`, however qualified. -/
  eq_void : ∀ r, CompareOp.eq.IsTrue target p (.pointer .void r 0) ∧
    CompareOp.eq.IsTrue target (.pointer .void r 0) p
  /-- Nothing is loaded through it. -/
  result_load : ∀ h : Heap, (h.load p).result = .error (nullFault .load pointee q)
  /-- Nothing is stored through it, and the heap stays as it is. -/
  outcome_store : ∀ (h : Heap) (value : Value),
    (Heap.store p value).outcome h = (.error (nullFault .store pointee q), h)
  /-- To free it succeeds, leaves no record, and changes nothing. -/
  run_freePointer : ∀ h : Heap, (Heap.freePointer p).run h = (pure (), h)

private theorem Ordered.eq_isTrue {v w : Value}
    (h : Ordered target .eq v.decay w.decay (some .eq)) :
    CompareOp.eq.IsTrue target v w ∧ CompareOp.eq.IsTrue target w v :=
  ⟨h.isTrue_iff.mpr rfl, h.flip.isTrue_iff.mpr rfl⟩

private theorem dereference_null (operation : Operation) (pointee : CType) (q : Qualifiers) :
    (Heap.dereference operation (.pointer pointee q 0)).result
      = .error (nullFault operation pointee q) := by
  by_cases hvoid : pointee = .void
  · subst hvoid
    rfl
  · rw [nullFault, if_neg hvoid, Heap.dereference]
    · rfl
    · exact hvoid

private theorem isNullOf_pointer_zero (target : Target) (pointee : CType) (q : Qualifiers) :
    (Value.pointer pointee q 0).IsNullOf target pointee q where
  type_eq := rfl
  same_null _ := rfl
  isNull_eq := rfl
  nonNull?_eq := rfl
  result_bool _ := rfl
  eq_zero z hz := by
    have hdecay : z.decay = z := Value.decay_of_integer hz
    have hright : Ordered target .eq (.pointer pointee q 0) z.decay (some .eq) := by
      rw [hdecay]
      exact .zeroRight rfl hz
    exact Ordered.eq_isTrue hright
  -- a `void *` is compared with every pointer by its address
  eq_void r := Ordered.eq_isTrue (w := .pointer .void r 0) (.addresses (.inr (.inr rfl)))
  result_load h := congrArg Traced.result
    (Traced.bind_of_error (dereference_null .load pointee q) _)
  outcome_store h value := Heap.Action.outcome_bind_of_error
    (Prod.ext (dereference_null .store pointee q) rfl)
  run_freePointer _ := rfl

theorem Value.isNullOf_iff : p.IsNullOf target pointee q ↔ p = .pointer pointee q 0 := by
  constructor
  · intro h
    -- the type fixes all of a pointer but its address, and that is zero
    cases p with
    | pointer t r a =>
      obtain ⟨rfl, rfl⟩ := CType.pointer.inj h.type_eq
      rw [beq_iff_eq.mp h.isNull_eq]
    | bool | int | float | array => exact nomatch h.type_eq
  · rintro rfl
    exact isNullOf_pointer_zero target pointee q

/-! ## What becomes null -/

private theorem Target.addressAt_eq_zero_iff {x : Int} :
    target.addressAt x = 0 ↔ x % pow2 target.addressWidth.bits = 0 := by
  rw [← toNat_addressAt, Int.natCast_eq_zero]
  exact BitVec.toNat_inj.symm

theorem result_convert_zero {z : Value} (hz : z.integer? = some 0) (target : Target)
    (kind : ConversionKind) (pointee : CType) (q : Qualifiers) :
    (convert target kind z (.pointer pointee q)).result = .ok (.pointer pointee q 0) := by
  have hzero : target.addressAt 0 = 0 := Target.addressAt_eq_zero_iff.mpr (Int.zero_emod _)
  rw [result_convert_of_integer? hz, if_neg fun hrefused ↦ hrefused.1 rfl,
    Target.ofNat_truncate_eq_addressAt, hzero]

/-- **Null is one value, however it is made and seen.** Every integer zero, `_Bool` included,
becomes the null pointer of every pointer type, with or without a cast. A cast of any integer to a
pointer type gives null exactly if the integer is a multiple of two to the width of an address. -/
theorem null_identity (target : Target) :
    (∀ kind z pointee q, z.integer? = some 0 →
      ∃ p, (convert target kind z (.pointer pointee q)).result = .ok p ∧
        p.IsNullOf target pointee q) ∧
      ∀ v (n : Int) pointee q, v.integer? = some n →
        ∃ p, (convert target .explicit v (.pointer pointee q)).result = .ok p ∧
          (p.isNull = true ↔ n % pow2 target.addressWidth.bits = 0) := by
  refine ⟨fun kind z pointee q hz ↦ ?_, fun v n pointee q hn ↦ ?_⟩
  · exact ⟨_, result_convert_zero hz target kind pointee q, Value.isNullOf_iff.mpr rfl⟩
  · refine ⟨_, result_cast_integer hn target pointee q, ?_⟩
    rw [Value.isNull, beq_iff_eq, Target.addressAt_eq_zero_iff]

/-- A `_Bool` that is false is assigned to a pointer to `const` objects, which is then null. Where
addresses have 32 bits, two to the power of 32 becomes null by a cast; where they have 64, it does
not. -/
theorem null_identity_truncated :
    let zero := Value.bool false
    let large := Value.int .w64 .unsigned 0x100000000
    let single := CType.float .single
    zero.integer? = some 0 ∧ large.integer? = some 0x100000000 ∧
      (∃ p, (convert {} .implicit zero (.pointer single { const := true })).result = .ok p ∧
        p.same (.null .void) = true ∧
        ((Heap.empty {}).load p).result = .error .nullDereference) ∧
      (∃ p, (convert { model := .ilp32 } .explicit large (.pointerTo single)).result = .ok p ∧
        p.isNull = true) ∧
      ∃ p, (convert {} .explicit large (.pointerTo single)).result = .ok p ∧
        ¬ p.isNull = true := by
  intro zero large single
  have hlarge : large.integer? = some 0x100000000 := by decide
  obtain ⟨hzero, hwide⟩ := null_identity {}
  obtain ⟨-, hnarrow⟩ := null_identity { model := .ilp32 }
  obtain ⟨p, hp, hnull⟩ := hzero .implicit zero single { const := true } rfl
  obtain ⟨p', hp', hiff'⟩ := hnarrow large _ single .none hlarge
  obtain ⟨p'', hp'', hiff''⟩ := hwide large _ single .none hlarge
  exact ⟨rfl, hlarge, ⟨p, hp, hnull.same_null .void, hnull.result_load _⟩,
    ⟨p', hp', hiff'.mpr (by decide)⟩, p'', hp'', mt hiff''.mp (by decide)⟩

end CValues
