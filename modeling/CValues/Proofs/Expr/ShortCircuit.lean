import CValues.Expr.Eval

/-!
# The logical operators of expressions

In an expression `&&` and `||` evaluate their right operand only when it is needed, while the
operators on values have both operands before them. Wherever both operands have a value the two
agree. A left operand that decides the outcome keeps the right one from being evaluated, so that its
failure does not show, but an array does not: it counts as its address once it is an operand, and is
no scalar before. So an array that decides the outcome still needs a right operand with a value.
-/

namespace CValues

/-- The outcome of a logical operator that its left operand has decided. -/
def LogicalOp.decided : LogicalOp → Value
  | and => .plainInt 0
  | or => .plainInt 1

private theorem LogicalOp.outcomeInt_combine {op : LogicalOp} {truth : Bool}
    (h : op.decidedBy truth = true) (other : Bool) :
    outcomeInt (op.combine truth other) = op.decided := by
  cases op with
  | and =>
    cases truth with
    | false => rfl
    | true => cases h
  | or =>
    cases truth with
    | false => cases h
    | true => rfl

@[simp] theorem Value.isZero_decay (v : Value) : v.decay.isZero = v.isZero := by
  cases v <;> rfl

theorem Value.isScalar_decay (v : Value) : v.decay.type.isScalar = true := by
  cases v <;> rfl

/-- The operators on values have no operands that they refuse. -/
theorem result_logical (op : LogicalOp) (v w : Value) :
    (logical op v w).result = .ok (outcomeInt (op.combine (!v.isZero) (!w.isZero))) := by
  rw [logical, v.isScalar_decay, w.isScalar_decay, Bool.and_self, if_pos rfl, v.isZero_decay,
    w.isZero_decay]
  rfl

private theorem result_logical_of_decidedBy {op : LogicalOp} {v : Value}
    (h : op.decidedBy (!v.isZero) = true) (w : Value) :
    (logical op v w).result = .ok op.decided := by
  rw [result_logical, LogicalOp.outcomeInt_combine h]

namespace Expr

variable {target : Target} {op : LogicalOp} {l r : Expr} {v : Value}

/-- The right operand is evaluated unless the left one is a scalar that decides. -/
theorem result_eval_logical_eq (hl : (l.eval target).result = .ok v) :
    ((logical op l r).eval target).result
      = if (op.decidedBy (!v.isZero) && v.type.isScalar) = true then (CValues.logical op v v).result
        else (r.eval target).result.bind fun w ↦ (CValues.logical op v w).result := by
  rw [eval, Traced.result_bind, hl]
  -- an array is asked for as it is, before it becomes a pointer, and so is never skipped for
  cases hskip : op.decidedBy (!v.isZero) && v.type.isScalar with
  | true => simp only [Except.bind, hskip, if_true]
  | false => simp only [Except.bind, hskip, Bool.false_eq_true, if_false, Traced.result_bind]

private theorem result_eval_logical_of_scalar (hl : (l.eval target).result = .ok v)
    (hv : op.decidedBy (!v.isZero) = true) (hscalar : v.type.isScalar = true) :
    ((logical op l r).eval target).result = .ok op.decided := by
  rw [result_eval_logical_eq hl, hv, hscalar, Bool.and_self, if_pos rfl]
  exact result_logical_of_decidedBy hv v

private theorem result_eval_logical_of_error {e : Error} (hl : (l.eval target).result = .ok v)
    (hv : (op.decidedBy (!v.isZero) && v.type.isScalar) = false)
    (hr : (r.eval target).result = .error e) :
    ((logical op l r).eval target).result = .error e := by
  rw [result_eval_logical_eq hl, hv, if_neg Bool.false_ne_true, hr]
  rfl

private theorem result_eval_logical_of_ok {w : Value} (hl : (l.eval target).result = .ok v)
    (hr : (r.eval target).result = .ok w) :
    ((logical op l r).eval target).result = (CValues.logical op v w).result := by
  rw [result_eval_logical_eq hl, hr]
  split
  · next hskip =>
    obtain ⟨hv, -⟩ := Bool.and_eq_true_iff.mp hskip
    rw [result_logical_of_decidedBy hv, result_logical_of_decidedBy hv]
  · rfl

/-- **The law of the logical operators.** A left operand that decides the outcome gives it exactly
if it is a scalar or the right operand has a value. Where the left operand does not decide, or is an
array, a failure of the right operand is the result. Where both have values, the result is that of
the operator on the two values. -/
theorem result_eval_logical (target : Target) (op : LogicalOp) {l : Expr} {v : Value}
    (hl : (l.eval target).result = .ok v) (r : Expr) :
    (op.decidedBy (!v.isZero) = true →
        (((logical op l r).eval target).result = .ok op.decided ↔
          v.type.isScalar = true ∨ ∃ w, (r.eval target).result = .ok w)) ∧
      (∀ e, (op.decidedBy (!v.isZero) && v.type.isScalar) = false →
        (r.eval target).result = .error e → ((logical op l r).eval target).result = .error e) ∧
      (∀ w, (r.eval target).result = .ok w →
        ((logical op l r).eval target).result = (CValues.logical op v w).result) := by
  refine ⟨fun hv ↦ ⟨fun h ↦ ?_, ?_⟩, fun e ↦ result_eval_logical_of_error hl,
    fun w ↦ result_eval_logical_of_ok hl⟩
  · cases hscalar : v.type.isScalar with
    | true => exact .inl rfl
    | false =>
      cases hr : (r.eval target).result with
      | ok w => exact .inr ⟨w, rfl⟩
      | error e =>
        rw [result_eval_logical_of_error hl (by rw [hscalar, Bool.and_false]) hr] at h
        cases h
  · rintro (hscalar | ⟨w, hr⟩)
    · exact result_eval_logical_of_scalar hl hv hscalar
    · rw [result_eval_logical_of_ok hl hr, result_logical_of_decidedBy hv]

/-- A number that decides keeps a division by zero from happening. -/
theorem result_eval_logical_two :
    ((int 2).eval {}).result = .ok (.plainInt 2) ∧
      ((logical .or (int 2) (binary .div (int 1) (int 0))).eval {}).result = .ok (.plainInt 1) :=
  ⟨rfl, ((result_eval_logical {} .or rfl _).1 rfl).mpr (.inl rfl)⟩

/-- An array that decides does not. -/
theorem not_forall_decided_result_eval_logical :
    ¬ ∀ (target : Target) (op : LogicalOp) (l r : Expr) (v : Value),
      (l.eval target).result = .ok v → op.decidedBy (!v.isZero) = true →
        ((logical op l r).eval target).result = .ok op.decided := by
  intro h
  have hor := h {} .or (literal (.array .plainInt 1 4096)) (binary .div (int 1) (int 0)) _ rfl rfl
  change Except.error Error.divisionByZero = _ at hor
  cases hor

end Expr

end CValues
