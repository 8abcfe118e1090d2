import CValues.Proofs.Expr.StaticType

/-!
# Expressions of numbers

An expression of numbers alone has a value unless a divisor is zero, as long as the operators that
work on bits and remainders meet no floating operand; and if it has no division, it has a value.
Which operands are floating is known from the static types, so this can be decided without
evaluating anything. Again there is one lemma for each operator on values, and an induction over the
expression.
-/

namespace CValues

/-! ## Numbers and divisions in an expression -/

/-- The operator divides. -/
def BinaryOp.isDivision : BinaryOp → Bool
  | div | rem => true
  | _ => false

namespace Expr

/-- The static type is a floating type. -/
def isFloating (target : Target) (e : Expr) : Bool := (e.staticType? target).any CType.isFloating

/-- All literals are numbers, all types that are named are arithmetic, and no operator that works on
integers only has a floating operand. -/
def isNumeric (target : Target) : Expr → Bool
  | literal v => v.type.isArithmetic
  | char _ => true
  | cast t e | assign t e => t.isArithmetic && e.isNumeric target
  | paren e => e.isNumeric target
  | unary op e => e.isNumeric target && !(op == .complement && e.isFloating target)
  | binary op l r =>
    l.isNumeric target && r.isNumeric target
      && !(op.isIntegerOnly && (l.isFloating target || r.isFloating target))
  | compare _ l r | logical _ l r => l.isNumeric target && r.isNumeric target

/-- The expression has a `/` or a `%` somewhere. -/
def divides : Expr → Bool
  | literal _ | char _ => false
  | cast _ e | assign _ e | paren e | unary _ e => e.divides
  | binary op l r => op.isDivision || l.divides || r.divides
  | compare _ l r | logical _ l r => l.divides || r.divides

end Expr

/-! ## Numbers have results -/

/-- The computation has a value, or it fails because a divisor is zero, where that is possible. -/
def Traced.ValueOrZeroDivisor {α : Type} (x : Traced α) (possible : Bool) : Prop :=
  (∃ a, x.result = .ok a) ∨ (possible = true ∧ x.result = .error .divisionByZero)

section Progress

open Traced (ValueOrZeroDivisor)

variable {target : Target} {v w u : Value} {t : CType}

theorem Traced.ValueOrZeroDivisor.mono {α : Type} {x : Traced α} {p q : Bool}
    (hx : x.ValueOrZeroDivisor p) (hpq : p = true → q = true) : x.ValueOrZeroDivisor q := by
  rcases hx with hok | ⟨hp, herror⟩
  · exact .inl hok
  · exact .inr ⟨hpq hp, herror⟩

theorem Traced.ValueOrZeroDivisor.bind {α β : Type} {x : Traced α} {f : α → Traced β} {p : Bool}
    (hx : x.ValueOrZeroDivisor p) (hf : ∀ a, x.result = .ok a → (f a).ValueOrZeroDivisor p) :
    (x >>= f).ValueOrZeroDivisor p := by
  rcases hx with ⟨a, ha⟩ | ⟨hp, herror⟩
  · rw [ValueOrZeroDivisor, Traced.bind_of_ok ha]
    exact hf a ha
  · rw [ValueOrZeroDivisor, Traced.bind_of_error herror]
    exact .inr ⟨hp, rfl⟩

private theorem exists_float_of_type {f : FloatFormat} (h : v.type = .float f) :
    ∃ p, v = .float f p := by
  cases v with
  | float g p =>
    obtain rfl := CType.float.inj h
    exact ⟨p, rfl⟩
  | bool | int | pointer | array => cases h

private theorem decay_of_isArithmetic (hv : v.type.isArithmetic = true) : v.decay = v := by
  refine Value.decay_of_not_array fun t n a harray ↦ ?_
  rw [harray] at hv
  cases hv

private theorem not_isPointer_of_isArithmetic (ht : t.isArithmetic = true) :
    t.isPointer = false := by
  cases t with
  | pointer => cases ht
  | _ => rfl

/-- An operator on two numbers never comes to an address. -/
theorem binary_eq_arithmetic {op : BinaryOp} (hv : v.type.isArithmetic = true)
    (hw : w.type.isArithmetic = true) : binary target op v w = arithmetic target op v w := by
  rw [binary, decay_of_isArithmetic hv, decay_of_isArithmetic hw,
    not_isPointer_of_isArithmetic hv, not_isPointer_of_isArithmetic hw, Bool.or_self,
    if_neg Bool.false_ne_true]

private theorem CommonType.isFloating_join (a b : CommonType) :
    (a.join b).toCType.isFloating = (a.toCType.isFloating || b.toCType.isFloating) := by
  rcases a with ⟨v, s⟩ | f
  · rcases b with ⟨w, s'⟩ | g
    · rw [IntType.join_eq_common ⟨v, s⟩ ⟨w, s'⟩]
      rfl
    · cases g <;> rfl
  · rcases b with ⟨w, s'⟩ | g
    · cases f <;> rfl
    · cases f <;> cases g <;> rfl

private theorem CommonType.exists_ofOperand? (ht : t.isArithmetic = true) :
    ∃ a, ofOperand? t = some a ∧ a.toCType.isFloating = t.isFloating := by
  cases t with
  | bool => exact ⟨_, rfl, rfl⟩
  | int width s => cases width <;> exact ⟨_, rfl, rfl⟩
  | float f => exact ⟨_, rfl, rfl⟩
  | void | pointer | array => cases ht

private theorem exists_usualType {u : CType} (ht : t.isArithmetic = true)
    (hu : u.isArithmetic = true) :
    ∃ c, usualType t u = .ok c ∧ c.toCType.isFloating = (t.isFloating || u.isFloating) := by
  obtain ⟨a, ha, hfa⟩ := CommonType.exists_ofOperand? ht
  obtain ⟨b, hb, hfb⟩ := CommonType.exists_ofOperand? hu
  refine ⟨a.join b, ?_, ?_⟩
  · rw [usualType, ha, hb]
  · rw [CommonType.isFloating_join, hfa, hfb]

private theorem CommonType.isArithmetic_toCType (c : CommonType) :
    c.toCType.isArithmetic = true := by
  cases c <;> rfl

theorem exists_unary {op : UnaryOp} (hv : v.type.isArithmetic = true)
    (hop : (op == .complement && v.type.isFloating) = false) :
    ∃ u, (unary op v).result = .ok u := by
  cases v with
  | bool truth => cases op <;> exact ⟨_, rfl⟩
  | int width s p => cases width <;> cases op <;> exact ⟨_, rfl⟩
  | float f p => cases op with
    | complement => cases hop
    | plus | neg | not => exact ⟨_, rfl⟩
  | pointer | array => cases hv

/-- A machine operation fails only for a divisor of zero. -/
theorem Machine.operate_cases {n : Nat} (s : Signedness) (x y : BitVec n) (count : Nat)
    (op : BinaryOp) :
    (∃ p, operate s x y count op = .ok p) ∨
      (op.isDivision = true ∧ operate s x y count op = .error .divisionByZero) := by
  by_cases hy : y = 0#n
  · cases op with
    | div | rem => exact .inr ⟨rfl, if_pos hy⟩
    | _ => exact .inl ⟨_, rfl⟩
  · cases op with
    | div | rem => exact .inl ⟨_, if_neg hy⟩
    | _ => exact .inl ⟨_, rfl⟩

private theorem binary_of_isInteger {op : BinaryOp} (hv : v.type.isInteger = true)
    (hw : w.type.isInteger = true) : (binary target op v w).ValueOrZeroDivisor op.isDivision := by
  obtain ⟨a, x, ha, hx⟩ := Value.exists_integer hv
  obtain ⟨b, y, hb, hy⟩ := Value.exists_integer hw
  rw [ValueOrZeroDivisor, Machine.result_binary_eq_machine hv hw, Machine.binary, ha, hb, hy]
  dsimp only
  rcases Machine.operate_cases (Machine.workingType op a b).signedness _ _ _ op with
    ⟨p, hp⟩ | ⟨hdivision, herror⟩
  · exact .inl ⟨_, by rw [hp]; rfl⟩
  · exact .inr ⟨hdivision, by rw [herror]; rfl⟩

private theorem binary_of_isFloating {op : BinaryOp} (hv : v.type.isArithmetic = true)
    (hw : w.type.isArithmetic = true) (hfloating : (v.type.isFloating || w.type.isFloating) = true)
    (hop : op.isIntegerOnly = false) : ∃ u, (binary target op v w).result = .ok u := by
  obtain ⟨c, hc, hcf⟩ := exists_usualType hv hw
  rw [hfloating] at hcf
  obtain ⟨f, rfl⟩ : ∃ f, c = .float f := by
    rcases c with ⟨width, s⟩ | f
    · cases hcf
    · exact ⟨f, rfl⟩
  -- both operands meet at the common format, where the operator has a meaning
  obtain ⟨v', hv', htv⟩ := exists_convert_of_isArithmetic target .implicit hv
    (CommonType.isArithmetic_toCType (.float f))
  obtain ⟨w', hw', htw⟩ := exists_convert_of_isArithmetic target .implicit hw
    (CommonType.isArithmetic_toCType (.float f))
  obtain ⟨p, rfl⟩ := exists_float_of_type htv
  obtain ⟨q, rfl⟩ := exists_float_of_type htw
  have hshift : op.isShift = false := by
    cases op with
    | shl | shr => cases hop
    | _ => rfl
  obtain ⟨r, hr⟩ : ∃ r, op.onFloats f p q = some r := by
    cases op with
    | add | sub | mul | div => exact ⟨_, rfl⟩
    | _ => cases hop
  have hcommon : (onCommonType op (.float f p) (.float f q) (.float f)).result
      = .ok (.float f r) := by
    have hpattern : ∀ x : f.Pattern, (Value.float f x).pattern? f = some x := fun x ↦ dif_pos rfl
    simp only [onCommonType, hpattern, hr, Traced.result_pure]
  refine ⟨.float f r, ?_⟩
  rw [binary_eq_arithmetic hv hw, arithmetic, hop, Bool.false_and, if_neg Bool.false_ne_true,
    hshift, if_neg Bool.false_ne_true]
  refine Traced.result_bind_eq_ok_iff.mpr ⟨_, hc, ?_⟩
  refine Traced.result_bind_eq_ok_iff.mpr ⟨_, hv', ?_⟩
  exact Traced.result_bind_eq_ok_iff.mpr ⟨_, hw', hcommon⟩

private theorem isInteger_of_not_isFloating (ht : t.isArithmetic = true)
    (hf : t.isFloating = false) : t.isInteger = true := by
  rwa [CType.isArithmetic, hf, Bool.or_false] at ht

theorem binary_of_isArithmetic {op : BinaryOp} (hv : v.type.isArithmetic = true)
    (hw : w.type.isArithmetic = true)
    (hop : (op.isIntegerOnly && (v.type.isFloating || w.type.isFloating)) = false) :
    (binary target op v w).ValueOrZeroDivisor op.isDivision := by
  by_cases hfloating : (v.type.isFloating || w.type.isFloating) = true
  · rw [hfloating, Bool.and_true] at hop
    exact .inl (binary_of_isFloating hv hw hfloating hop)
  · obtain ⟨hvf, hwf⟩ := Bool.or_eq_false_iff.mp (Bool.not_eq_true _ ▸ hfloating)
    exact binary_of_isInteger (isInteger_of_not_isFloating hv hvf)
      (isInteger_of_not_isFloating hw hwf)

theorem exists_compareValues {op : CompareOp} (hv : v.type.isArithmetic = true)
    (hw : w.type.isArithmetic = true) : ∃ u, (compareValues target op v w).result = .ok u := by
  obtain ⟨c, hc, -⟩ := exists_usualType hv hw
  obtain ⟨v', hv', -⟩ := exists_convert_of_isArithmetic target .implicit hv c.isArithmetic_toCType
  obtain ⟨w', hw', -⟩ := exists_convert_of_isArithmetic target .implicit hw c.isArithmetic_toCType
  have horder : (orderOf target op v w).result = .ok (compareNumbers v' w') := by
    rw [orderOf]
    · refine Traced.result_bind_eq_ok_iff.mpr ⟨_, hc, ?_⟩
      refine Traced.result_bind_eq_ok_iff.mpr ⟨_, hv', ?_⟩
      exact Traced.result_bind_eq_ok_iff.mpr ⟨_, hw', rfl⟩
    · rintro _ _ _ rfl
      cases hv
    · rintro _ _ _ rfl
      cases hw
    · rintro _ _ _ _ _ _ rfl
      cases hv
  refine ⟨outcomeInt (op.holds (compareNumbers v' w')), ?_⟩
  rw [compareValues, decay_of_isArithmetic hv, decay_of_isArithmetic hw]
  exact Traced.result_bind_eq_ok_iff.mpr ⟨_, horder, rfl⟩

private theorem isArithmetic_promoted (ht : t.isArithmetic = true) :
    t.promoted.isArithmetic = true := by
  cases t with
  | int width s => cases width <;> rfl
  | bool | float => rfl
  | void | pointer | array => cases ht

private theorem decayed_of_isArithmetic (ht : t.isArithmetic = true) : t.decayed = t := by
  cases t with
  | array => cases ht
  | _ => rfl

private theorem isArithmetic_typeOn {op : UnaryOp} (ht : t.isArithmetic = true) :
    (op.typeOn t.decayed).isArithmetic = true := by
  rw [decayed_of_isArithmetic ht]
  cases op with
  | not => rfl
  | plus | neg | complement =>
    change t.promotion.isArithmetic = true
    rw [CType.promotion_eq]
    exact isArithmetic_promoted ht

private theorem isArithmetic_typeOn? {op : BinaryOp} {u r : CType} (ht : t.isArithmetic = true)
    (hu : u.isArithmetic = true) (hr : op.typeOn? target t.decayed u.decayed = some r) :
    r.isArithmetic = true := by
  rw [decayed_of_isArithmetic ht, decayed_of_isArithmetic hu, BinaryOp.typeOn?_of_not_isPointer
    (not_isPointer_of_isArithmetic ht) (not_isPointer_of_isArithmetic hu)] at hr
  split_ifs at hr
  · obtain rfl := Option.some.inj hr
    exact isArithmetic_promoted ht
  · obtain ⟨c, -, rfl⟩ := Option.map_eq_some_iff.mp hr
    exact c.isArithmetic_toCType

end Progress

namespace Expr

variable {target : Target} {e : Expr}

private theorem isArithmetic_of_staticType? {t : CType} (h : e.isNumeric target = true)
    (ht : e.staticType? target = some t) : t.isArithmetic = true := by
  induction e generalizing t with
  | literal v =>
    obtain rfl := Option.some.inj ht
    exact h
  | char | compare | logical =>
    obtain rfl := Option.some.inj ht
    rfl
  | cast t' e ih | assign t' e ih =>
    obtain rfl := Option.some.inj ht
    exact (Bool.and_eq_true_iff.mp h).1
  | paren e ih => exact ih h ht
  | unary op e ih =>
    obtain ⟨t', ht', rfl⟩ := Option.map_eq_some_iff.mp ht
    exact isArithmetic_typeOn (ih (Bool.and_eq_true_iff.mp h).1 ht')
  | binary op l r ihl ihr =>
    obtain ⟨t', ht', ht⟩ := Option.bind_eq_some_iff.mp ht
    obtain ⟨u', hu', ht⟩ := Option.bind_eq_some_iff.mp ht
    obtain ⟨hlr, -⟩ := Bool.and_eq_true_iff.mp h
    obtain ⟨hl, hr⟩ := Bool.and_eq_true_iff.mp hlr
    exact isArithmetic_typeOn? (ihl hl ht') (ihr hr hu') ht

private theorem isArithmetic_of_eval {v : Value} (h : e.isNumeric target = true)
    (hv : (e.eval target).result = .ok v) : v.type.isArithmetic = true :=
  isArithmetic_of_staticType? h (staticType?_of_eval hv)

private theorem isFloating_of_eval {v : Value} (hv : (e.eval target).result = .ok v) :
    e.isFloating target = v.type.isFloating := by
  rw [isFloating, staticType?_of_eval hv, Option.any_some]

/-- An expression of numbers has a value, or fails by a zero divisor. -/
theorem eval_of_isNumeric (h : e.isNumeric target = true) :
    (e.eval target).ValueOrZeroDivisor e.divides := by
  induction e with
  | literal v => exact .inl ⟨v, rfl⟩
  | char c => exact .inl ⟨_, rfl⟩
  | cast t e ih | assign t e ih =>
    obtain ⟨ht, he⟩ := Bool.and_eq_true_iff.mp h
    refine (ih he).bind fun v hv ↦ .inl ?_
    obtain ⟨u, hu, -⟩ := exists_convert_of_isArithmetic target _ (isArithmetic_of_eval he hv) ht
    exact ⟨u, hu⟩
  | paren e ih => exact ih h
  | unary op e ih =>
    obtain ⟨he, hop⟩ := Bool.and_eq_true_iff.mp h
    refine (ih he).bind fun v hv ↦ .inl ?_
    rw [Bool.not_eq_true', isFloating_of_eval hv] at hop
    exact exists_unary (isArithmetic_of_eval he hv) hop
  | binary op l r ihl ihr =>
    obtain ⟨hlr, hop⟩ := Bool.and_eq_true_iff.mp h
    obtain ⟨hl, hr⟩ := Bool.and_eq_true_iff.mp hlr
    rw [Bool.not_eq_true'] at hop
    refine ((ihl hl).mono ?_).bind fun v hv ↦ ((ihr hr).mono ?_).bind fun w hw ↦ ?_
    · intro hdivides
      rw [divides, hdivides, Bool.or_true, Bool.true_or]
    · intro hdivides
      rw [divides, hdivides, Bool.or_true]
    · rw [isFloating_of_eval hv, isFloating_of_eval hw] at hop
      refine (binary_of_isArithmetic (isArithmetic_of_eval hl hv) (isArithmetic_of_eval hr hw)
        hop).mono ?_
      intro hdivision
      rw [divides, hdivision, Bool.true_or, Bool.true_or]
  | compare op l r ihl ihr =>
    obtain ⟨hl, hr⟩ := Bool.and_eq_true_iff.mp h
    refine ((ihl hl).mono ?_).bind fun v hv ↦ ((ihr hr).mono ?_).bind fun w hw ↦ .inl ?_
    · intro hdivides
      rw [divides, hdivides, Bool.true_or]
    · intro hdivides
      rw [divides, hdivides, Bool.or_true]
    · exact exists_compareValues (isArithmetic_of_eval hl hv) (isArithmetic_of_eval hr hw)
  | logical op l r ihl ihr =>
    obtain ⟨hl, hr⟩ := Bool.and_eq_true_iff.mp h
    refine ((ihl hl).mono ?_).bind fun v hv ↦ ?_
    · intro hdivides
      rw [divides, hdivides, Bool.true_or]
    · split
      · exact .inl ⟨_, result_logical op v v⟩
      · refine ((ihr hr).mono ?_).bind fun w _ ↦ .inl ⟨_, result_logical op v w⟩
        intro hdivides
        rw [divides, hdivides, Bool.or_true]

/-- **Evaluation respects static types.** A value of an expression has exactly the type found
without evaluating it. An expression of numbers has a value or fails because a divisor is zero, and
it has a value if it has no division. -/
theorem eval_respects_staticType (target : Target) (e : Expr) :
    (∀ v, (e.eval target).result = .ok v → e.staticType? target = some v.type) ∧
      (e.isNumeric target = true →
        ((∃ v, (e.eval target).result = .ok v) ∨
            (e.eval target).result = .error .divisionByZero) ∧
          (e.divides = false → ∃ v, (e.eval target).result = .ok v)) := by
  refine ⟨fun v hv ↦ staticType?_of_eval hv, fun hnumeric ↦ ?_⟩
  rcases eval_of_isNumeric hnumeric with hok | ⟨hdivides, herror⟩
  · exact ⟨.inl hok, fun _ ↦ hok⟩
  · refine ⟨.inr herror, fun hfree ↦ ?_⟩
    rw [hfree] at hdivides
    cases hdivides

/-- The byte that 300 leaves, shifted by the outcome of a comparison of a `float` with a character,
is an `int`. -/
theorem eval_respects_staticType_shift :
    let e := binary .shl (cast (.int .w8 .unsigned) (int 300))
      (compare .lt (literal (.float .single 0x3FC00000)) (char 'a'))
    e.isNumeric {} = true ∧ e.divides = false ∧ (∃ v, (e.eval {}).result = .ok v) ∧
      (e.eval {}).result = .ok (.plainInt 88) ∧ e.staticType? {} = some .plainInt := by
  intro e
  obtain ⟨htype, hvalue⟩ := eval_respects_staticType {} e
  exact ⟨rfl, rfl, (hvalue rfl).2 rfl, rfl, htype (.plainInt 88) rfl⟩

end Expr

end CValues
