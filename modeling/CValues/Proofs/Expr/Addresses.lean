import CValues.Proofs.Conversion.Acceptance
import CValues.Proofs.Expr.StaticType

/-!
# Addresses that fit

An address is carried in 64 bits on every target, also where addresses are narrower. No conversion,
operator or expression makes an address that the target does not have.

Where an address is computed it is reduced to the width of an address, so the operators ask nothing
of their operands. Where it is only passed on, by conversions between pointers and by the decay of
arrays, it has to fit before.
-/

namespace CValues

variable {p : PointerSize} {target : Target} {v w u : Value} {t : CType}

namespace Value

/-- An address in the value is one of the target. -/
def Fits (p : PointerSize) : Value → Prop
  | pointer _ _ a | array _ _ a => p.Fits a.toNat
  | _ => True

theorem fits_of_isArithmetic (hv : v.type.isArithmetic = true) : v.Fits p := by
  cases v with
  | bool | int | float => trivial
  | pointer | array => cases hv

theorem Fits.promote (hv : v.Fits p) : v.promote.Fits p := by
  cases v with
  | int width s x => cases width <;> trivial
  | bool | float => trivial
  | pointer | array => exact hv

private theorem fits_pointer_truncate (target : Target) (pointee : CType) (q : Qualifiers)
    (x : Int) :
    (pointer pointee q (BitVec.ofNat 64 (target.addressWidth.truncate x).toNat)).Fits
      target.pointerSize := by
  change BitVec.toNat _ < pow2 target.addressWidth.bits
  rw [BitVec.toNat_ofNat]
  exact Nat.lt_of_le_of_lt (Nat.mod_le _ _) (target.addressWidth.truncate x).isLt

end Value

/-! ## Computations -/

/-- Whenever the computation succeeds, what it gives has the property. -/
def Traced.Yields {α : Type} (x : Traced α) (P : α → Prop) : Prop := ∀ a, x.result = .ok a → P a

theorem Traced.Yields.bind {α β : Type} {x : Traced α} {f : α → Traced β} {P : α → Prop}
    {Q : β → Prop} (hx : x.Yields P) (hf : ∀ a, P a → (f a).Yields Q) : (x >>= f).Yields Q := by
  intro b hb
  obtain ⟨a, ha, hfa⟩ := Traced.result_bind_eq_ok_iff.mp hb
  exact hf a (hx a ha) b hfa

open Value

/-! ## Conversions -/

theorem convert_yields_fits (kind : ConversionKind) (t : CType)
    (hv : v.Fits target.pointerSize) :
    (convert target kind v t).Yields (Fits target.pointerSize) := by
  intro u hu
  cases t with
  | bool | int | float =>
    refine fits_of_isArithmetic ?_
    rw [type_of_convert hu]
    rfl
  | void | array => cases isScalar_of_convert hu
  | pointer pointee wanted => cases v with
    | bool | int =>
      rw [result_convert_of_integer? rfl] at hu
      split_ifs at hu
      obtain rfl := Except.ok.inj hu
      exact fits_pointer_truncate target pointee wanted _
    | float => cases hu
    | pointer | array =>
      rw [result_convert_of_decay rfl] at hu
      split_ifs at hu
      obtain rfl := Except.ok.inj hu
      exact hv

theorem reinterpret_yields_fits (pointee : CType) (hv : v.Fits p) :
    (reinterpret v pointee).Yields (Fits p) := by
  intro u hu
  cases v with
  | pointer source q a =>
    rw [reinterpret] at hu
    split_ifs at hu
    · obtain rfl := Except.ok.inj hu
      exact hv
    · cases hu
  | bool | int | float | array => cases hu

theorem decayArray_yields_fits (element : CType) (hv : v.Fits p) :
    (decayArray v element).Yields (Fits p) := by
  intro u hu
  cases v with
  | array actual length a =>
    rw [decayArray] at hu
    split_ifs at hu
    · obtain rfl := Except.ok.inj hu
      exact hv
    · cases hu
  | bool | int | float | pointer => cases hu

/-! ## Operators -/

private theorem offset_yields_fits (op : BinaryOp) (operands : List CType) (pointee : CType)
    (q : Qualifiers) (a : BitVec 64) (index : Value) (sign : Int) :
    (offset target op operands pointee q a index sign).Yields (Fits target.pointerSize) := by
  intro u hu
  unfold offset at hu
  split at hu
  · cases hu
  · obtain ⟨size, -, hsize⟩ := Traced.result_bind_eq_ok_iff.mp hu
    obtain rfl := Except.ok.inj hsize
    exact fits_pointer_truncate target pointee q _

private theorem pointerArithmetic_yields_fits (op : BinaryOp) (v w : Value) :
    (pointerArithmetic target op v w).Yields (Fits target.pointerSize) := by
  intro u hu
  unfold pointerArithmetic at hu
  dsimp only at hu
  split at hu
  · split_ifs at hu
    · refine fits_of_isArithmetic ?_
      rw [type_of_distance hu]
      rfl
    · cases hu
  · cases hu
  · exact offset_yields_fits _ _ _ _ _ _ _ u hu
  · exact offset_yields_fits _ _ _ _ _ _ _ u hu
  · exact offset_yields_fits _ _ _ _ _ _ _ u hu
  · cases hu

private theorem isArithmetic_of_shift {op : BinaryOp} (h : (shift op v w).result = .ok u) :
    u.type.isArithmetic = true := by
  unfold shift at h
  split at h
  · obtain ⟨r, -, hr⟩ := Traced.result_bind_eq_ok_iff.mp h
    obtain rfl := Except.ok.inj hr
    rfl
  · cases h

theorem isArithmetic_of_arithmetic {op : BinaryOp}
    (h : (arithmetic target op v w).result = .ok u) : u.type.isArithmetic = true := by
  unfold arithmetic at h
  split_ifs at h
  · cases h
  · exact isArithmetic_of_shift h
  · obtain ⟨common, -, h⟩ := Traced.result_bind_eq_ok_iff.mp h
    obtain ⟨v', -, h⟩ := Traced.result_bind_eq_ok_iff.mp h
    obtain ⟨w', -, h⟩ := Traced.result_bind_eq_ok_iff.mp h
    rw [type_of_onCommonType h]
    cases common <;> rfl

theorem binary_yields_fits (target : Target) (op : BinaryOp) (v w : Value) :
    (binary target op v w).Yields (Fits target.pointerSize) := by
  intro u hu
  unfold binary at hu
  dsimp only at hu
  split_ifs at hu
  · exact pointerArithmetic_yields_fits op v.decay w.decay u hu
  · exact fits_of_isArithmetic (isArithmetic_of_arithmetic hu)

theorem compareValues_yields_fits (target : Target) (op : CompareOp) (v w : Value) :
    (compareValues target op v w).Yields (Fits p) := by
  intro u hu
  refine fits_of_isArithmetic ?_
  rw [type_of_compareValues hu]
  rfl

theorem isArithmetic_of_unary {op : UnaryOp} (h : (unary op v).result = .ok u) :
    u.type.isArithmetic = true := by
  unfold unary at h
  dsimp only at h
  split at h
  · split_ifs at h
    · obtain rfl := Except.ok.inj h
      rfl
    · cases h
  · obtain rfl := Except.ok.inj h
    rfl
  · obtain rfl := Except.ok.inj h
    rfl
  · obtain rfl := Except.ok.inj h
    rfl
  · cases h

theorem unary_yields_fits (op : UnaryOp) (v : Value) :
    (unary op v).Yields (Fits p) :=
  fun _ hu ↦ fits_of_isArithmetic (isArithmetic_of_unary hu)

theorem logical_yields_fits (op : LogicalOp) (v w : Value) :
    (logical op v w).Yields (Fits p) := by
  intro u hu
  refine fits_of_isArithmetic ?_
  rw [type_of_logical hu]
  rfl

/-! ## Expressions -/

namespace Expr

/-- The literals of an expression, from left to right. -/
def literals : Expr → List Value
  | literal v => [v]
  | char _ => []
  | cast _ e | assign _ e | paren e | unary _ e => e.literals
  | binary _ l r | compare _ l r | logical _ l r => l.literals ++ r.literals

/-- An expression passes on only addresses that its literals have. -/
theorem eval_yields_fits {e : Expr}
    (hliterals : ∀ v ∈ e.literals, v.Fits target.pointerSize) :
    (e.eval target).Yields (Fits target.pointerSize) := by
  induction e with
  | literal v =>
    intro u hu
    obtain rfl := Except.ok.inj hu
    exact hliterals v List.mem_cons_self
  | char c =>
    intro u hu
    obtain rfl := Except.ok.inj hu
    exact fits_of_isArithmetic rfl
  | cast t e ih => exact (ih hliterals).bind fun v hv ↦ convert_yields_fits .explicit t hv
  | assign t e ih => exact (ih hliterals).bind fun v hv ↦ convert_yields_fits .implicit t hv
  | paren e ih => exact ih hliterals
  | unary op e ih => exact (ih hliterals).bind fun v _ ↦ unary_yields_fits op v
  | binary op l r ihl ihr =>
    obtain ⟨hl, hr⟩ := List.forall_mem_append.mp hliterals
    exact (ihl hl).bind fun v _ ↦ (ihr hr).bind fun w _ ↦ binary_yields_fits target op v w
  | compare op l r ihl ihr =>
    obtain ⟨hl, hr⟩ := List.forall_mem_append.mp hliterals
    exact (ihl hl).bind fun v _ ↦ (ihr hr).bind fun w _ ↦
      compareValues_yields_fits target op v w
  | logical op l r ihl ihr =>
    obtain ⟨hl, hr⟩ := List.forall_mem_append.mp hliterals
    refine (ihl hl).bind fun v _ ↦ ?_
    split_ifs
    · exact logical_yields_fits op v v
    · exact (ihr hr).bind fun w _ ↦ logical_yields_fits op v w

end Expr

end CValues
