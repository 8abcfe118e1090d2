import CValues.Proofs.Conversion.Domain
import CValues.Proofs.Expr.ShortCircuit
import CValues.Proofs.Integer.Machine

/-!
# The types of expressions

The type of an expression can be read off without evaluating it: from the types of its literals, the
types it names in casts and assignments, and the width of an address. `Expr.staticType?` does so, by
the promotions and the usual arithmetic conversions in the words of the standard. It says nothing
about whether the expression has a value, so it may give a type to one that never has; but a value,
if there is one, has that type. There is one lemma for each operator on values, and an induction
over the expression puts them together.
-/

namespace CValues

/-! ## The types of operands and results -/

/-- The type of an operand: an array counts as the pointer to its first element. -/
def CType.decayed : CType → CType
  | array t _ => pointerTo t
  | t => t

/-- An integer type as a type. -/
def IntType.toCType (t : IntType) : CType := .int t.width t.signedness

/-- The integer promotion of a type, as the standard finds it. Other types stay. -/
def CType.promotion (t : CType) : CType := (IntType.ofType? t).elim t fun a ↦ a.promoted.toCType

/-- The usual arithmetic type of two operands, as the standard finds it, if both are numbers. -/
def CType.usual? : CType → CType → Option CType
  | float .double, t | t, float .double => if t.isArithmetic then some (float .double) else none
  | float .single, t | t, float .single => if t.isArithmetic then some (float .single) else none
  | t, u => do
    let a ← IntType.ofType? t
    let b ← IntType.ofType? u
    return (a.promoted.common b.promoted).toCType

/-- The type of what a unary operator gives, by the type of its operand. -/
def UnaryOp.typeOn : UnaryOp → CType → CType
  | not, _ => .plainInt
  | plus, t | neg, t | complement, t => t.promotion

/-- The type of what a binary operator gives, by the types of its operands, if it has a meaning on
them. A pointer keeps its type when it is moved, with its qualifiers. -/
def BinaryOp.typeOn? (target : Target) (op : BinaryOp) : CType → CType → Option CType
  | .pointer _ _, .pointer _ _ =>
    if op = sub then some (.int target.addressWidth .signed) else none
  | .pointer pointee qualifiers, index =>
    if (op = add ∨ op = sub) ∧ index.isInteger then some (.pointer pointee qualifiers) else none
  | index, .pointer pointee qualifiers =>
    if op = add ∧ index.isInteger then some (.pointer pointee qualifiers) else none
  | t, u => if op.isShift then some t.promotion else t.usual? u

namespace Expr

/-- The type of an expression on a target, found without evaluating it. -/
def staticType? (target : Target) : Expr → Option CType
  | literal v => some v.type
  | char _ => some .plainInt
  | cast t _ | assign t _ => some t
  | paren e => e.staticType? target
  | unary op e => (e.staticType? target).map fun t ↦ op.typeOn t.decayed
  | binary op l r =>
    (l.staticType? target).bind fun t ↦ (r.staticType? target).bind fun u ↦
      op.typeOn? target t.decayed u.decayed
  | compare _ _ _ | logical _ _ _ => some .plainInt

end Expr

/-! ## The rules that are applied are those of the standard -/

theorem CType.promotion_eq (t : CType) : t.promotion = t.promoted := by
  cases t with
  | int width s => cases width <;> cases s <;> rfl
  | _ => rfl

private theorem CType.usual?_eq (t u : CType) :
    t.usual? u = (usualType t u).toOption.map CommonType.toCType := by
  cases t with
  | float f => cases u with
    | float g => cases f <;> cases g <;> rfl
    | int width s => cases f <;> cases width <;> rfl
    | bool | void | pointer | array => cases f <;> rfl
  | bool => cases u with
    | float g => cases g <;> rfl
    | bool | int =>
      rw [IntType.usualType_eq rfl rfl]
      rfl
    | void | pointer | array => rfl
  | int width s => cases u with
    | float g => cases g <;> cases width <;> rfl
    | bool | int =>
      rw [IntType.usualType_eq rfl rfl]
      rfl
    | void | pointer | array => cases width <;> rfl
  | void | pointer | array => cases u with
    | float g => cases g <;> rfl
    | _ => rfl

/-! ## A value of an operator has the type of its result -/

section Preservation

variable {target : Target} {v w u : Value}

private theorem Value.type_decay (v : Value) : v.decay.type = v.type.decayed := by
  cases v <;> rfl

private theorem Value.type_promote (v : Value) : v.promote.type = v.type.promoted := by
  cases v with
  | int width s p => cases width <;> rfl
  | _ => rfl

theorem result_unary_not (v : Value) : (unary .not v).result = .ok (outcomeInt v.isZero) := by
  change Traced.result (ite (v.decay.type.isScalar = true) (pure (outcomeInt v.decay.isZero)) _) = _
  rw [v.isScalar_decay, if_pos rfl, v.isZero_decay]
  rfl

theorem type_of_unary {op : UnaryOp} (h : (unary op v).result = .ok u) :
    u.type = op.typeOn v.type.decayed := by
  by_cases hnot : op = .not
  · subst hnot
    rw [result_unary_not] at h
    obtain rfl := Except.ok.inj h
    rfl
  · have htype : op.typeOn v.type.decayed = v.decay.promote.type := by
      rw [Value.type_promote, Value.type_decay, ← CType.promotion_eq]
      cases op with
      | not => exact absurd rfl hnot
      | plus | neg | complement => rfl
    rw [htype]
    unfold unary at h
    dsimp only at h
    -- each of the remaining rows names the promoted operand, and keeps its type
    split at h
    · exact absurd rfl hnot
    · next hpromote =>
      obtain rfl := Except.ok.inj h
      rw [hpromote]
      rfl
    · next hpromote =>
      obtain rfl := Except.ok.inj h
      rw [hpromote]
    · next hpromote =>
      obtain rfl := Except.ok.inj h
      rw [hpromote]
      rfl
    · cases h

private theorem type_of_offset {op : BinaryOp} {operands : List CType} {pointee : CType}
    {qualifiers : Qualifiers} {address : BitVec 64} {index : Value} {sign : Int}
    (h : (offset target op operands pointee qualifiers address index sign).result = .ok u) :
    index.type.isInteger = true ∧ u.type = .pointer pointee qualifiers := by
  unfold offset at h
  split at h
  · cases h
  · next i hi =>
    obtain ⟨size, -, hsize⟩ := Traced.result_bind_eq_ok_iff.mp h
    obtain rfl := Except.ok.inj hsize
    refine ⟨?_, rfl⟩
    cases index with
    | bool | int => rfl
    | float | pointer | array => cases hi

theorem type_of_distance {op : BinaryOp} {pointee : CType} {a b : BitVec 64}
    (h : (distance target op pointee a b).result = .ok u) :
    u.type = .int target.addressWidth .signed := by
  obtain ⟨size, -, hsize⟩ := Traced.result_bind_eq_ok_iff.mp h
  obtain rfl := Except.ok.inj hsize
  rfl

private theorem BinaryOp.typeOn?_pointer_left {op : BinaryOp} {t pointee : CType}
    {qualifiers : Qualifiers} (hop : op = add ∨ op = sub) (ht : t.isInteger = true) :
    op.typeOn? target (.pointer pointee qualifiers) t = some (.pointer pointee qualifiers) := by
  cases t with
  | bool | int => exact if_pos ⟨hop, rfl⟩
  | void | float | pointer | array => cases ht

private theorem BinaryOp.typeOn?_pointer_right {t pointee : CType} {qualifiers : Qualifiers}
    (ht : t.isInteger = true) :
    add.typeOn? target t (.pointer pointee qualifiers) = some (.pointer pointee qualifiers) := by
  cases t with
  | bool | int => rfl
  | void | float | pointer | array => cases ht

private theorem type_of_pointerArithmetic {op : BinaryOp}
    (h : (pointerArithmetic target op v w).result = .ok u) :
    op.typeOn? target v.type w.type = some u.type := by
  unfold pointerArithmetic at h
  dsimp only at h
  split at h
  · split_ifs at h
    · rw [type_of_distance h]
      rfl
    · cases h
  · cases h
  · obtain ⟨hindex, htype⟩ := type_of_offset h
    rw [htype]
    exact BinaryOp.typeOn?_pointer_left (.inl rfl) hindex
  · obtain ⟨hindex, htype⟩ := type_of_offset h
    rw [htype]
    exact BinaryOp.typeOn?_pointer_right hindex
  · obtain ⟨hindex, htype⟩ := type_of_offset h
    rw [htype]
    exact BinaryOp.typeOn?_pointer_left (.inr rfl) hindex
  · cases h

theorem BinaryOp.typeOn?_of_not_isPointer {t u : CType} (ht : t.isPointer = false)
    (hu : u.isPointer = false) (op : BinaryOp) :
    op.typeOn? target t u
      = if op.isShift then some t.promoted
        else (usualType t u).toOption.map CommonType.toCType := by
  rw [← CType.promotion_eq, ← CType.usual?_eq]
  cases t with
  | pointer => cases ht
  | _ => cases u with
    | pointer => cases hu
    | _ => rfl

theorem type_of_onCommonType {op : BinaryOp} {c : CommonType}
    (h : (onCommonType op v w c).result = .ok u) : u.type = c.toCType := by
  unfold onCommonType at h
  split at h
  · split at h
    · obtain ⟨r, -, hr⟩ := Traced.result_bind_eq_ok_iff.mp h
      obtain rfl := Except.ok.inj hr
      rfl
    · cases h
  · split at h
    · split at h
      · obtain rfl := Except.ok.inj h
        rfl
      · cases h
    · cases h

private theorem type_of_shift {op : BinaryOp} (h : (shift op v w).result = .ok u) :
    u.type = v.type.promoted := by
  unfold shift at h
  split at h
  · next width s p count hint _ =>
    obtain ⟨r, -, hr⟩ := Traced.result_bind_eq_ok_iff.mp h
    obtain rfl := Except.ok.inj hr
    rw [← Value.type_promote, hint]
    rfl
  · cases h

private theorem type_of_arithmetic {op : BinaryOp} (h : (arithmetic target op v w).result = .ok u) :
    (if op.isShift then some v.type.promoted
      else (usualType v.type w.type).toOption.map CommonType.toCType) = some u.type := by
  unfold arithmetic at h
  split_ifs at h with hfloating hshift
  · cases h
  · rw [if_pos hshift, type_of_shift h]
  · rw [if_neg hshift]
    obtain ⟨common, hcommon, h⟩ := Traced.result_bind_eq_ok_iff.mp h
    obtain ⟨v', -, h⟩ := Traced.result_bind_eq_ok_iff.mp h
    obtain ⟨w', -, h⟩ := Traced.result_bind_eq_ok_iff.mp h
    change usualType v.type w.type = .ok common at hcommon
    rw [hcommon, type_of_onCommonType h]
    rfl

theorem type_of_binary {op : BinaryOp} (h : (binary target op v w).result = .ok u) :
    op.typeOn? target v.type.decayed w.type.decayed = some u.type := by
  rw [← Value.type_decay, ← Value.type_decay]
  unfold binary at h
  dsimp only at h
  split_ifs at h with hpointer
  · exact type_of_pointerArithmetic h
  · rw [Bool.or_eq_true, not_or, Bool.not_eq_true, Bool.not_eq_true] at hpointer
    rw [BinaryOp.typeOn?_of_not_isPointer hpointer.1 hpointer.2]
    exact type_of_arithmetic h

theorem type_of_compareValues {op : CompareOp} (h : (compareValues target op v w).result = .ok u) :
    u.type = .plainInt := by
  obtain ⟨order, -, horder⟩ := Traced.result_bind_eq_ok_iff.mp h
  obtain rfl := Except.ok.inj horder
  rfl

theorem type_of_logical {op : LogicalOp} (h : (logical op v w).result = .ok u) :
    u.type = .plainInt := by
  rw [result_logical] at h
  obtain rfl := Except.ok.inj h
  rfl

/-- A value of an expression has the static type. -/
theorem Expr.staticType?_of_eval {e : Expr} (h : (e.eval target).result = .ok v) :
    e.staticType? target = some v.type := by
  induction e generalizing v with
  | literal value =>
    obtain rfl := Except.ok.inj h
    rfl
  | char c =>
    obtain rfl := Except.ok.inj h
    rfl
  | cast t e ih =>
    obtain ⟨x, -, hx⟩ := Traced.result_bind_eq_ok_iff.mp h
    rw [staticType?, type_of_convert hx]
  | assign t e ih =>
    obtain ⟨x, -, hx⟩ := Traced.result_bind_eq_ok_iff.mp h
    rw [staticType?, type_of_convert hx]
  | paren e ih => exact ih h
  | unary op e ih =>
    obtain ⟨x, he, hx⟩ := Traced.result_bind_eq_ok_iff.mp h
    rw [staticType?, ih he, type_of_unary hx]
    rfl
  | binary op l r ihl ihr =>
    obtain ⟨x, hl, h⟩ := Traced.result_bind_eq_ok_iff.mp h
    obtain ⟨y, hr, h⟩ := Traced.result_bind_eq_ok_iff.mp h
    rw [staticType?, ihl hl, ihr hr]
    exact type_of_binary h
  | compare op l r ihl ihr =>
    obtain ⟨x, -, h⟩ := Traced.result_bind_eq_ok_iff.mp h
    obtain ⟨y, -, h⟩ := Traced.result_bind_eq_ok_iff.mp h
    rw [staticType?, type_of_compareValues h]
  | logical op l r ihl ihr =>
    obtain ⟨x, hl, -⟩ := Traced.result_bind_eq_ok_iff.mp h
    rw [result_eval_logical_eq hl] at h
    split_ifs at h
    · rw [staticType?, type_of_logical h]
    · cases hr : (r.eval target).result with
      | error e =>
        rw [hr] at h
        cases h
      | ok y =>
        rw [hr] at h
        rw [staticType?, type_of_logical h]

end Preservation

end CValues
