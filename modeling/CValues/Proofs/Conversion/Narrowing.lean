import CValues.Proofs.Integer.Machine

/-!
# Narrowing

Every conversion to an integer type is one reduction. What is reduced is an integer that the value
has by itself: the integer it stands for, a floating number without its fraction and clamped to the
accumulator, or an address at the width that the target has for it. The type that is asked for has
no part in that integer, as `exists_reduced` says; it decides only how far it is reduced.

A residue modulo a power of two determines the residues modulo all smaller ones. So a conversion
through a wider type loses nothing that a narrower one would keep, whatever the signs of the two.
-/

namespace CValues

variable {v : Value} {t u : IntType} {x : Int}

/-! ## Residues as values -/

/-- The value is of the integer type and stands for an integer that is congruent to `x` modulo two
to the width. -/
def Value.HasResidue (t : IntType) (x : Int) (v : Value) : Prop :=
  v.type = .int t.width t.signedness ∧
    ∃ y, v.integer? = some y ∧ y % pow2 t.width.bits = x % pow2 t.width.bits

/-- An integer type has exactly one value of each residue. -/
theorem Value.hasResidue_iff : v.HasResidue t x ↔ v = t.value (t.width.truncate x) := by
  constructor
  · rintro ⟨htype, y, hy, hcongruent⟩
    cases v with
    | int w s p =>
      obtain ⟨rfl, rfl⟩ := CType.int.inj htype
      obtain rfl := Option.some.inj hy
      rw [← Width.truncate_congr hcongruent, Width.truncate_read]
      rfl
    | bool | float | pointer | array => cases htype
  · rintro rfl
    exact ⟨rfl, _, rfl, Width.read_truncate_emod t.width t.signedness x⟩

/-! ## Reductions -/

/-- A conversion to an integer type reduces one and the same integer, whatever the type. -/
theorem exists_reduced {kind : ConversionKind}
    (hv : v.type.isArithmetic = true ∨ v.type.isPointer = true ∧ kind = .explicit)
    (target : Target) :
    ∃ x, ∀ t : IntType, (convert target kind v (.int t.width t.signedness)).result
      = .ok (t.value (t.width.truncate x)) := by
  cases v with
  | bool | int => exact ⟨_, Value.result_convert_int rfl target kind⟩
  | float f p => exact ⟨f.toInt p, fun t ↦ rfl⟩
  | pointer pointee q a =>
    rcases hv with hnumber | ⟨-, rfl⟩
    · cases hnumber
    · exact ⟨target.pointerSize.fit a.toNat, fun t ↦ rfl⟩
  | array => rcases hv with hnumber | ⟨hpointer, -⟩ <;> contradiction

/-- What was reduced once is reduced further as if it had not been. -/
theorem result_convert_truncate (hwidth : u.width.bits ≤ t.width.bits) (target : Target)
    (kind : ConversionKind) (x : Int) :
    (convert target kind (t.value (t.width.truncate x)) (.int u.width u.signedness)).result
      = .ok (u.value (u.width.truncate x)) := by
  rw [Value.result_convert_int rfl, Width.truncate_read_truncate hwidth]

/-- **Narrowing is modular and composes.** An integer converts to the only value of the type with
its residue, which stands for the same integer if the type has it. From whatever converts to an
integer type, the way through a type that is at least as wide leads to the same value as the direct
one; so a value comes back unchanged from every type that is at least as wide as its own. -/
theorem convert_int_modular (target : Target) (kind later : ConversionKind) (t u : IntType) :
    (∀ v x, v.integer? = some x →
      ∃ r, (convert target kind v (.int t.width t.signedness)).result = .ok r ∧
        (∀ s, s.HasResidue t x ↔ s = r) ∧
        (t.least ≤ x → x ≤ t.greatest → r.integer? = some x)) ∧
    (u.width.bits ≤ t.width.bits →
      (∀ v, (v.type.isArithmetic = true ∨ v.type.isPointer = true ∧ kind = .explicit) →
        ∃ wide r, (convert target kind v (.int t.width t.signedness)).result = .ok wide ∧
          (convert target later wide (.int u.width u.signedness)).result = .ok r ∧
          (convert target kind v (.int u.width u.signedness)).result = .ok r) ∧
      ∀ p, ∃ wide,
        (convert target kind (u.value p) (.int t.width t.signedness)).result = .ok wide ∧
          (convert target later wide (.int u.width u.signedness)).result = .ok (u.value p)) := by
  refine ⟨fun v x hx ↦ ?_, fun hwidth ↦ ⟨fun v hv ↦ ?_, fun p ↦ ?_⟩⟩
  · refine ⟨_, Value.result_convert_int hx target kind t, fun s ↦ Value.hasResidue_iff, ?_⟩
    intro hleast hgreatest
    exact congrArg some (IntType.read_truncate hleast hgreatest)
  · obtain ⟨x, hx⟩ := exists_reduced hv target
    exact ⟨_, _, hx t, result_convert_truncate hwidth target later x, hx u⟩
  · have hback := result_convert_truncate hwidth target later (u.read p)
    have hsame : u.width.truncate (u.read p) = p := Width.truncate_read _ _ _
    rw [hsame] at hback
    exact ⟨_, Value.result_convert_int rfl target kind t, hback⟩

/-- As a signed byte 200 is -56. On a target with addresses of 32 bits, an address with a bit beyond
them is cut to 255 first, and is then -1 as a signed byte, directly and through 64 bits. -/
theorem convert_int_modular_byte :
    (Value.plainInt 200).integer? = some 200 ∧
      (∀ s : Value, s.HasResidue ⟨.w8, .signed⟩ 200 ↔ s = .int .w8 .signed (-56)) ∧
      (Value.pointerTo .void 0x1000000FF).type.isPointer = true ∧
      ∃ wide, (convert { model := .ilp32 } .explicit (.pointerTo .void 0x1000000FF)
          (.int .w64 .unsigned)).result = .ok wide ∧
        wide.integer? = some 255 ∧
        (convert { model := .ilp32 } .implicit wide (.int .w8 .signed)).result
          = .ok (.int .w8 .signed (-1)) := by
  obtain ⟨hmodular, -⟩ := convert_int_modular {} .implicit .implicit ⟨.w8, .signed⟩ ⟨.w8, .signed⟩
  obtain ⟨r, hr, hunique, -⟩ := hmodular (.plainInt 200) 200 rfl
  obtain rfl : .int .w8 .signed (-56) = r := Except.ok.inj hr
  obtain ⟨-, hcompose⟩ :=
    convert_int_modular { model := .ilp32 } .explicit .implicit ⟨.w64, .unsigned⟩ ⟨.w8, .signed⟩
  obtain ⟨wide, byte, hwide, hbyte, hdirect⟩ :=
    (hcompose (by decide)).1 (.pointerTo .void 0x1000000FF) (.inr ⟨rfl, rfl⟩)
  have hcut : (convert { model := .ilp32 } .explicit (.pointerTo .void 0x1000000FF)
      (.int .w64 .unsigned)).result = .ok (.int .w64 .unsigned 255) :=
    congrArg Except.ok (by decide)
  have hminus : (convert { model := .ilp32 } .explicit (.pointerTo .void 0x1000000FF)
      (.int .w8 .signed)).result = .ok (.int .w8 .signed (-1)) := congrArg Except.ok (by decide)
  obtain rfl := Except.ok.inj (hcut.symm.trans hwide)
  obtain rfl := Except.ok.inj (hminus.symm.trans hdirect)
  exact ⟨rfl, hunique, rfl, _, hwide, rfl, hbyte⟩

end CValues
