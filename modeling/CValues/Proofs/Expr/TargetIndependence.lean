import CValues.Proofs.Expr.Addresses
import CValues.Proofs.Expr.Progress

/-!
# What the target decides

A target says how wide `long` and a pointer are, and whether plain `char` has a sign. Expressions
name their types with exact widths, so of all this only the size of a pointer can matter to them. It
does in three places: where an integer becomes an address, where a cast takes an address to an
integer, and where pointers are moved or subtracted.

None of the three is reached from numbers alone. Comparison and arithmetic convert their operands to
a common type, which is never a pointer, and do so as an assignment does, which refuses to take an
address to a number on every target alike. So an expression that names no pointer has one meaning on
all targets. The induction over such an expression has to compare two runs and to show that their
values are numbers at the same time; `Traced.Alike` is both.
-/

namespace CValues

variable {t₁ t₂ : Target} {v w : Value} {t : CType}

/-! ## Two runs -/

/-- Two runs do the same, records and failures included, and what they give has the property. -/
structure Traced.Alike {α : Type} (P : α → Prop) (x y : Traced α) : Prop where
  /-- The runs do the same. -/
  eq : x = y
  /-- What they give has the property. -/
  yields : x.Yields P

theorem Traced.Alike.bind {α β : Type} {P : α → Prop} {Q : β → Prop} {x y : Traced α}
    {f g : α → Traced β} (hx : Alike P x y) (hf : ∀ a, P a → Alike Q (f a) (g a)) :
    Alike Q (x >>= f) (y >>= g) := by
  obtain ⟨rfl, hyields⟩ := hx
  refine ⟨?_, hyields.bind fun a ha ↦ (hf a ha).yields⟩
  cases hresult : x.result with
  | ok a => rw [bind_of_ok hresult, bind_of_ok hresult, (hf a (hyields a hresult)).eq]
  | error e => rw [bind_of_error hresult, bind_of_error hresult]

/-! ## Operators on numbers -/

/-- Operands are converted to the common type as in an assignment, which takes no address to a
number on any target. -/
theorem convert_common_eq (t₁ t₂ : Target) (v : Value) (c : CommonType) :
    convert t₁ .implicit v c.toCType = convert t₂ .implicit v c.toCType := by
  cases c <;> cases v <;> rfl

private theorem arithmetic_eq (t₁ t₂ : Target) (op : BinaryOp) (v w : Value) :
    arithmetic t₁ op v w = arithmetic t₂ op v w := by
  simp only [arithmetic, convert_common_eq t₁ t₂]

private theorem compareValues_eq (t₁ t₂ : Target) (op : CompareOp) (v w : Value) :
    compareValues t₁ op v w = compareValues t₂ op v w := by
  simp only [compareValues, orderOf, convert_common_eq t₁ t₂]

/-- The value is a number. -/
def Value.IsNumber (v : Value) : Prop := v.type.isArithmetic = true

open Traced (Alike)
open Value (IsNumber)

private theorem alike_pure (hv : v.IsNumber) : Alike IsNumber (pure v) (pure v) :=
  ⟨rfl, fun _ hu ↦ Except.ok.inj hu ▸ hv⟩

private theorem alike_of_plainInt {x y : Traced Value} (heq : x = y)
    (htype : ∀ u, x.result = .ok u → u.type = .plainInt) : Alike IsNumber x y := by
  refine ⟨heq, fun u hu ↦ ?_⟩
  rw [IsNumber, htype u hu]
  rfl

private theorem convert_alike (kind : ConversionKind) (hv : v.IsNumber) (ht : t.isPointer = false) :
    Alike IsNumber (convert t₁ kind v t) (convert t₂ kind v t) := by
  have heq : convert t₁ kind v t = convert t₂ kind v t := by
    cases t with
    | pointer => cases ht
    | _ => cases v with
      | pointer | array => cases hv
      | _ => rfl
  refine ⟨heq, fun u hu ↦ ?_⟩
  have hscalar := isScalar_of_convert hu
  rw [CType.isScalar, ht, Bool.or_false] at hscalar
  rwa [IsNumber, type_of_convert hu]

private theorem binary_alike (op : BinaryOp) (hv : v.IsNumber) (hw : w.IsNumber) :
    Alike IsNumber (binary t₁ op v w) (binary t₂ op v w) := by
  rw [binary_eq_arithmetic hv hw, binary_eq_arithmetic hv hw]
  exact ⟨arithmetic_eq t₁ t₂ op v w, fun u hu ↦ isArithmetic_of_arithmetic hu⟩

/-! ## Expressions without pointers -/

namespace Expr

/-- No literal is a pointer or an array, and no cast or assignment is to a pointer. -/
def isPointerFree : Expr → Bool
  | literal v => v.address?.isNone
  | char _ => true
  | cast t e | assign t e => !t.isPointer && e.isPointerFree
  | paren e | unary _ e => e.isPointerFree
  | binary _ l r | compare _ l r | logical _ l r => l.isPointerFree && r.isPointerFree

theorem eval_alike {e : Expr} (hfree : e.isPointerFree = true) :
    Alike IsNumber (e.eval t₁) (e.eval t₂) := by
  induction e with
  | literal v =>
    refine alike_pure ?_
    cases v with
    | pointer | array => cases hfree
    | _ => rfl
  | char c => exact alike_pure rfl
  | cast t e ih | assign t e ih =>
    obtain ⟨ht, he⟩ := Bool.and_eq_true_iff.mp hfree
    exact (ih he).bind fun v hv ↦ convert_alike _ hv (Bool.not_eq_true' _ ▸ ht)
  | paren e ih => exact ih hfree
  | unary op e ih => exact (ih hfree).bind fun v _ ↦ ⟨rfl, fun u hu ↦ isArithmetic_of_unary hu⟩
  | binary op l r ihl ihr =>
    obtain ⟨hl, hr⟩ := Bool.and_eq_true_iff.mp hfree
    exact (ihl hl).bind fun v hv ↦ (ihr hr).bind fun w hw ↦ binary_alike op hv hw
  | compare op l r ihl ihr =>
    obtain ⟨hl, hr⟩ := Bool.and_eq_true_iff.mp hfree
    exact (ihl hl).bind fun v _ ↦ (ihr hr).bind fun w _ ↦
      alike_of_plainInt (compareValues_eq t₁ t₂ op v w) fun _ ↦ type_of_compareValues
  | logical op l r ihl ihr =>
    obtain ⟨hl, hr⟩ := Bool.and_eq_true_iff.mp hfree
    refine (ihl hl).bind fun v _ ↦ ?_
    split_ifs
    · exact alike_of_plainInt rfl fun _ ↦ type_of_logical
    · exact (ihr hr).bind fun w _ ↦ alike_of_plainInt rfl fun _ ↦ type_of_logical

end Expr

/-! ## Pointers of one size -/

section PointerSize

variable (hsize : t₁.pointerSize = t₂.pointerSize)
include hsize

private theorem Target.addressWidth_eq : t₁.addressWidth = t₂.addressWidth :=
  congrArg PointerSize.width hsize

private theorem Target.toNat_truncate_eq (x : Int) :
    (t₁.addressWidth.truncate x).toNat = (t₂.addressWidth.truncate x).toNat := by
  rw [addressWidth_eq hsize]

private theorem convert_of_pointerSize_eq (kind : ConversionKind) (v : Value) (t : CType) :
    convert t₁ kind v t = convert t₂ kind v t := by
  simp only [convert, Rule.apply, integerToPointer, pointerToInteger,
    Target.toNat_truncate_eq hsize, hsize]

private theorem pointerArithmetic_of_pointerSize_eq (op : BinaryOp) (v w : Value) :
    pointerArithmetic t₁ op v w = pointerArithmetic t₂ op v w := by
  simp only [pointerArithmetic, offset, distance, elementSize, Target.toNat_truncate_eq hsize,
    Target.addressWidth_eq hsize, hsize]

private theorem binary_of_pointerSize_eq (op : BinaryOp) (v w : Value) :
    binary t₁ op v w = binary t₂ op v w := by
  simp only [binary, pointerArithmetic_of_pointerSize_eq hsize, arithmetic_eq t₁ t₂]

theorem Expr.eval_of_pointerSize_eq (e : Expr) : e.eval t₁ = e.eval t₂ := by
  induction e with
  | literal | char => rfl
  | cast t e ih | assign t e ih => simp only [eval, ih, convert_of_pointerSize_eq hsize]
  | paren e ih | unary op e ih => simp only [eval, ih]
  | binary op l r ihl ihr => simp only [eval, ihl, ihr, binary_of_pointerSize_eq hsize]
  | compare op l r ihl ihr => simp only [eval, ihl, ihr, compareValues_eq t₁ t₂]
  | logical op l r ihl ihr => simp only [eval, ihl, ihr]

end PointerSize

/-- **Evaluation does not depend on the target**, except for the size of a pointer where pointers
occur. On two targets with pointers of one size every expression leaves the same records and has the
same value or the same error, and so has an expression without pointers on any two targets. -/
theorem Expr.eval_independent_of_target (e : Expr) (t₁ t₂ : Target) :
    (t₁.pointerSize = t₂.pointerSize → e.eval t₁ = e.eval t₂) ∧
      (e.isPointerFree = true → e.eval t₁ = e.eval t₂) :=
  ⟨fun hsize ↦ e.eval_of_pointerSize_eq hsize, fun hfree ↦ (eval_alike hfree).eq⟩

/-- The pointer before the null pointer is the same where only `long` and plain `char` differ, and
another one where addresses are narrower. A division by an outcome that is zero fails everywhere. -/
theorem Expr.eval_independent_of_target_null :
    let e := binary .sub (literal (.null .plainInt)) (int 1)
    let e' := binary .div (int 1) (compare .lt (int 2) (int 1))
    Target.pointerSize ⟨.lp64, .signed⟩ = Target.pointerSize ⟨.llp64, .unsigned⟩ ∧
      e.eval ⟨.lp64, .signed⟩ = e.eval ⟨.llp64, .unsigned⟩ ∧
      (e.eval ⟨.llp64, .unsigned⟩).result = .ok (.pointer .plainInt .none 0xFFFFFFFFFFFFFFFC) ∧
      (e.eval ⟨.ilp32, .signed⟩).result = .ok (.pointer .plainInt .none 0xFFFFFFFC) ∧
      e'.isPointerFree = true ∧ e'.eval ⟨.lp64, .signed⟩ = e'.eval ⟨.ilp32, .unsigned⟩ ∧
      (e'.eval ⟨.lp64, .signed⟩).result = .error .divisionByZero := by
  intro e e'
  obtain ⟨hsize, -⟩ := eval_independent_of_target e ⟨.lp64, .signed⟩ ⟨.llp64, .unsigned⟩
  obtain ⟨-, hfree⟩ := eval_independent_of_target e' ⟨.lp64, .signed⟩ ⟨.ilp32, .unsigned⟩
  exact ⟨rfl, hsize rfl, rfl, rfl, rfl, hfree rfl, rfl⟩

end CValues
