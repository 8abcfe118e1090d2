import CValues.Proofs.Integer.Residue
import CValues.Promotion
import Mathlib.Tactic.SplitIfs

/-!
# What a conversion gives

A conversion that succeeds gives a value of the type that was asked for. Between arithmetic types it
always succeeds, and so it does from every scalar type to itself, where the value stays as it is,
floating patterns that are not numbers included.
-/

namespace CValues

variable {target : Target} {kind : ConversionKind} {v u : Value} {t : CType}

/-! ## The type of the result -/

section Numbers

variable {w : Width} {s : Signedness} {f : FloatFormat}

private theorem type_of_integerToInteger (h : (integerToInteger w s v).result = .ok u) :
    u.type = .int w s := by
  unfold integerToInteger at h
  split at h <;> cases h
  rfl

private theorem type_of_integerToFloating (h : (integerToFloating f v).result = .ok u) :
    u.type = .float f := by
  unfold integerToFloating at h
  split at h <;> cases h
  rfl

private theorem type_of_floatingToInteger (h : (floatingToInteger w s v).result = .ok u) :
    u.type = .int w s := by
  unfold floatingToInteger at h
  split at h <;> cases h
  rfl

private theorem type_of_floatingToFloating (h : (floatingToFloating f v).result = .ok u) :
    u.type = .float f := by
  unfold floatingToFloating at h
  split at h
  · obtain rfl := Except.ok.inj h
    split_ifs with hf
    · exact congrArg CType.float hf
    · rfl
  · cases h

end Numbers

private theorem type_of_integerToPointer (h : (integerToPointer target kind v t).result = .ok u) :
    u.type = t := by
  unfold integerToPointer at h
  split at h
  · split_ifs at h <;> cases h
    rfl
  · cases h

private theorem type_of_pointerToInteger {w : Width} {s : Signedness}
    (h : (pointerToInteger target kind w s v).result = .ok u) : u.type = .int w s := by
  unfold pointerToInteger at h
  split at h <;> cases h
  rfl

private theorem type_of_pointerToPointer (h : (pointerToPointer kind v t).result = .ok u) :
    u.type = t := by
  unfold pointerToPointer at h
  split at h
  · split_ifs at h <;> cases h
    rfl
  · cases h

private theorem type_of_arrayToPointer (h : (arrayToPointer kind v t).result = .ok u) :
    u.type = t := by
  unfold arrayToPointer at h
  split at h
  · obtain ⟨first, -, hfirst⟩ := Traced.result_bind_eq_ok_iff.mp h
    exact type_of_pointerToPointer hfirst
  · cases h

private theorem Rule.eq_bool_of_between? {source : CType}
    (h : between? source t = some truthValue) : t = .bool := by
  unfold between? at h
  split at h <;> first | rfl | cases h

/-- A conversion gives a value of the type it was asked for. -/
theorem type_of_convert (h : (convert target kind v t).result = .ok u) : u.type = t := by
  unfold convert at h
  split at h
  · next rule hrule =>
    rw [Traced.result_andThen] at h
    cases rule with
    | truthValue =>
      obtain rfl := Rule.eq_bool_of_between? hrule
      obtain rfl := Except.ok.inj h
      rfl
    | integerToInteger => cases t with
      | int w s => exact type_of_integerToInteger h
      | _ => cases h
    | integerToFloating => cases t with
      | float f => exact type_of_integerToFloating h
      | _ => cases h
    | floatingToInteger => cases t with
      | int w s => exact type_of_floatingToInteger h
      | _ => cases h
    | floatingToFloating => cases t with
      | float f => exact type_of_floatingToFloating h
      | _ => cases h
    | integerToPointer => exact type_of_integerToPointer h
    | pointerToInteger => cases t with
      | int w s => exact type_of_pointerToInteger h
      | _ => cases h
    | pointerToPointer => exact type_of_pointerToPointer h
    | arrayDecay => exact type_of_arrayToPointer h
  · cases h

theorem isScalar_of_convert (h : (convert target kind v t).result = .ok u) :
    t.isScalar = true := by
  cases t with
  | void | array => cases v <;> cases h
  | _ => rfl

/-! ## Conversions that always succeed -/

/-- A number converts to every arithmetic type. -/
theorem exists_convert_of_isArithmetic (target : Target) (kind : ConversionKind)
    (hv : v.type.isArithmetic = true) (ht : t.isArithmetic = true) :
    ∃ u, (convert target kind v t).result = .ok u ∧ u.type = t := by
  have hok : ∃ u, (convert target kind v t).result = .ok u := by
    cases v with
    | bool | int | float => cases t with
      | bool | int | float => exact ⟨_, rfl⟩
      | void | pointer | array => cases ht
    | pointer | array => cases hv
  obtain ⟨u, hu⟩ := hok
  exact ⟨u, hu, type_of_convert hu⟩

/-- A pointer keeps its address when it changes what it points to, from or to `void` or not at all,
and loses no qualifier. -/
theorem result_convert_pointer {pointee : CType} {q wanted : Qualifiers}
    (halike : t.pointsAlike pointee = true) (hkept : q.keptBy wanted = true) (target : Target)
    (kind : ConversionKind) (a : BitVec 64) :
    (convert target kind (.pointer t q a) (.pointer pointee wanted)).result
      = .ok (.pointer pointee wanted a) := by
  change (pointerToPointer kind (.pointer t q a) (.pointer pointee wanted)).result = _
  rw [pointerToPointer, halike, hkept]
  simp

/-- A scalar converts to its own type without any change. -/
theorem result_convert_self (target : Target) (kind : ConversionKind)
    (hv : v.type.isScalar = true) : (convert target kind v v.type).result = .ok v := by
  cases v with
  | bool truth => cases truth <;> rfl
  | int w s p => exact congrArg (fun p ↦ Except.ok (Value.int w s p)) (Width.truncate_read w s p)
  | float f p => exact congrArg Except.ok (if_pos rfl)
  | pointer t q a =>
    exact result_convert_pointer (CType.pointsAlike_iff.mpr (.inl rfl))
      (Qualifiers.keptBy_iff.mpr ⟨id, id⟩) target kind a
  | array => cases hv

end CValues
