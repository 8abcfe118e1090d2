import CValues.Proofs.Conversion.Acceptance
import CValues.Proofs.Integer.CommonType
import CValues.Proofs.Pointer.Offset

/-!
# Casts between pointers and integers

A cast to a pointer takes an integer to the address it comes to, its residue modulo two to the width
of an address. A cast to an integer takes a pointer to its address, reduced to the type. A type that
is at least as wide as an address loses nothing of it: a high address becomes negative if the type
has a sign and no bit to spare, but its residue stays that of the address. So the way back leads to
the same pointer, with a sign or without.

The other way around, an integer comes back from a pointer as the address it came to.
-/

namespace CValues

variable {target : Target} {pointee : CType} {q : Qualifiers} {v : Value} {t : IntType} {x : Int}

/-! ## The two casts -/

theorem result_cast_integer (hv : v.integer? = some x) (target : Target) (pointee : CType)
    (q : Qualifiers) :
    (convert target .explicit v (.pointer pointee q)).result
      = .ok (.pointer pointee q (target.addressAt x)) := by
  have hcast : ¬ (x ≠ 0 ∧ ConversionKind.explicit = .implicit) := fun hrefused ↦ nomatch hrefused.2
  rw [result_convert_of_integer? hv, if_neg hcast, Target.ofNat_truncate_eq_addressAt]

theorem result_cast_pointer {a : BitVec 64} (ha : target.pointerSize.Fits a.toNat) (pointee : CType)
    (q : Qualifiers) (t : IntType) :
    (convert target .explicit (.pointer pointee q a) (.int t.width t.signedness)).result
      = .ok (t.value (t.width.truncate a.toNat)) := by
  -- an address of the target is not cut before it is reduced to the type
  change Except.ok (Value.ofInt t.width t.signedness (target.pointerSize.fit a.toNat)) = _
  rw [PointerSize.fit_eq_self_iff.mpr ha]
  rfl

/-! ## Addresses in a wide type -/

namespace Target

theorem fits_addressAt (target : Target) (x : Int) :
    target.pointerSize.Fits (target.addressAt x).toNat := by
  refine Int.ofNat_lt.mp ?_
  rw [toNat_addressAt]
  exact Int.emod_lt_of_pos x (Int.natCast_pos.mpr (pow2_pos _))

/-- An integer comes to the same address after its reduction to a type as wide as an address. -/
theorem addressAt_read_truncate (hwidth : target.addressWidth.bits ≤ t.width.bits) (x : Int) :
    target.addressAt (t.read (t.width.truncate x)) = target.addressAt x := by
  rw [← ofNat_truncate_eq_addressAt, ← ofNat_truncate_eq_addressAt, IntType.read,
    Width.truncate_read_truncate hwidth]

/-- A type without a sign that is as wide as an address has every address among its integers. -/
theorem read_truncate_addressAt (hwidth : target.addressWidth.bits ≤ t.width.bits)
    (hunsigned : t.signedness = .unsigned) (x : Int) :
    t.read (t.width.truncate (target.addressAt x).toNat) = x % pow2 target.addressWidth.bits := by
  have hlt : (target.addressAt x).toNat < pow2 t.width.bits :=
    Nat.lt_of_lt_of_le (target.fits_addressAt x) (Nat.pow_le_pow_right Nat.two_pos hwidth)
  rw [IntType.read, hunsigned, Signedness.read, Width.toNat_truncate_of_lt hlt, toNat_addressAt]

end Target

/-- **Pointers and integers come back.** Let an integer type be at least as wide as an address. A
pointer with an address of the target comes back from a cast to the type, with its type and its
address. An integer that is cast to a pointer type and from there to the type comes back as its
residue modulo two to the width of an address, if the type has no sign. -/
theorem pointer_integer_round_trip (target : Target) (t : IntType)
    (hwidth : target.addressWidth.bits ≤ t.width.bits) :
    (∀ pointee q (a : BitVec 64), a.toNat < pow2 target.addressWidth.bits →
      (convert target .explicit (.pointer pointee q a) (.int t.width t.signedness) >>= fun n ↦
        convert target .explicit n (.pointer pointee q)).result = .ok (.pointer pointee q a)) ∧
      (t.signedness = .unsigned → ∀ v (n : Int) pointee q, v.integer? = some n →
        ∃ r, (convert target .explicit v (.pointer pointee q) >>= fun p ↦
            convert target .explicit p (.int t.width t.signedness)).result = .ok r ∧
          r.type = .int t.width .unsigned ∧
          r.integer? = some (n % pow2 target.addressWidth.bits)) := by
  refine ⟨fun pointee q a ha ↦ ?_, fun hunsigned v n pointee q hn ↦ ?_⟩
  · refine Traced.result_bind_eq_ok_iff.mpr ⟨_, result_cast_pointer ha pointee q t, ?_⟩
    have haddress : target.addressAt (t.read (t.width.truncate a.toNat)) = a := by
      rw [Target.addressAt_read_truncate hwidth, Target.addressAt_toNat ha]
    rw [result_cast_integer rfl]
    exact congrArg (fun b ↦ Except.ok (Value.pointer pointee q b)) haddress
  · refine ⟨t.value (t.width.truncate (target.addressAt n).toNat),
      Traced.result_bind_eq_ok_iff.mpr ⟨_, result_cast_integer hn target pointee q,
        result_cast_pointer (target.fits_addressAt n) pointee q t⟩, ?_, ?_⟩
    · rw [← hunsigned]
      rfl
    · exact congrArg some (Target.read_truncate_addressAt hwidth hunsigned n)

/-- Where addresses have 32 bits, the last but fifteen is negative as an `int` and positive as an
integer of 64 bits, and comes back from both. Minus one comes back as the last address. -/
theorem pointer_integer_round_trip_high :
    let target : Target := { model := .ilp32 }
    let p := Value.pointer .plainInt { const := true } 0xFFFFFFF0
    let long := CType.int .w64 .signed
    (convert target .explicit p .plainInt).result = .ok (.plainInt (-16)) ∧
      (convert target .explicit p .plainInt >>= fun n ↦
        convert target .explicit n p.type).result = .ok p ∧
      (convert target .explicit p long).result = .ok (.ofInt .w64 .signed 0xFFFFFFF0) ∧
      (convert target .explicit p long >>= fun n ↦
        convert target .explicit n p.type).result = .ok p ∧
      (Value.plainInt (-1)).integer? = some (-1) ∧
      ∃ r, (convert target .explicit (.plainInt (-1)) p.type >>= fun p ↦
          convert target .explicit p (.int .w64 .unsigned)).result = .ok r ∧
        r.integer? = some 0xFFFFFFFF := by
  intro target p long
  obtain ⟨hint, -⟩ := pointer_integer_round_trip target ⟨.w32, .signed⟩ (by decide)
  obtain ⟨hlong, -⟩ := pointer_integer_round_trip target ⟨.w64, .signed⟩ (by decide)
  obtain ⟨-, hback⟩ := pointer_integer_round_trip target ⟨.w64, .unsigned⟩ (by decide)
  obtain ⟨r, hr, -, hinteger⟩ :=
    hback rfl (.plainInt (-1)) (-1) .plainInt { const := true } rfl
  have hlast : (-1 : Int) % pow2 target.addressWidth.bits = 0xFFFFFFFF := by decide
  exact ⟨rfl, hint _ _ 0xFFFFFFF0 (by decide), rfl, hlong _ _ 0xFFFFFFF0 (by decide), rfl, r, hr,
    hinteger.trans (congrArg some hlast)⟩

end CValues
