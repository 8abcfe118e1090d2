import CValues.Event

/-!
# Traced computations

A computation that may fail and leaves log records behind either way. In sequence, the records of
both parts are kept in order; a failure of the first part ends the sequence and keeps the records it
has left.

`Traced.result` forgets the log. It takes sequences to sequences, so a statement about results is
proved without looking at any record.
-/

namespace CValues

/-- A result together with the records left on the way to it. -/
structure Traced (α : Type) where
  /-- The records, in order. -/
  log : List Event
  /-- What came of it. -/
  result : Except Error α

namespace Traced

variable {α β : Type}

/-- Succeeds at once. -/
protected def pure (a : α) : Traced α := ⟨[], .ok a⟩

/-- Goes on with the value of `x`, if it has one. -/
protected def bind (x : Traced α) (f : α → Traced β) : Traced β :=
  match x.result with
  | .ok a =>
    let y := f a
    ⟨x.log ++ y.log, y.result⟩
  | .error e => ⟨x.log, .error e⟩

instance : Monad Traced where
  pure := Traced.pure
  bind := Traced.bind

/-- A result without records. -/
def ofExcept (r : Except Error α) : Traced α := ⟨[], r⟩

instance : MonadLift (Except Error) Traced := ⟨ofExcept⟩

/-- Fails without a record. -/
def fail (e : Error) : Traced α := ⟨[], .error e⟩

/-- Leaves a record and fails. -/
def failWith (record : Event) (e : Error) : Traced α := ⟨[record], .error e⟩

/-- Does `x` and leaves a record after it, even if `x` failed. -/
def andThen (x : Traced α) (record : Event) : Traced α := ⟨x.log ++ [record], x.result⟩

/-- Refuses a conversion. -/
def reject (source target : CType) : Traced α :=
  failWith (.rejected source target) (.unsupportedConversion source target)

/-- Refuses the operands of an operation. -/
def invalid (operation : Operation) (operands : List CType) : Traced α :=
  failWith (.invalidOperands operation operands) (.invalidOperands operation operands)

/-! ## Sequences -/

@[ext] theorem ext {x y : Traced α} (hlog : x.log = y.log) (hresult : x.result = y.result) :
    x = y := by
  cases x; cases y; simp_all

@[simp] theorem result_pure (a : α) : (pure a : Traced α).result = .ok a := rfl

theorem bind_of_ok {x : Traced α} {a : α} (h : x.result = .ok a) (f : α → Traced β) :
    x >>= f = ⟨x.log ++ (f a).log, (f a).result⟩ := by
  change Traced.bind x f = _
  rw [Traced.bind, h]

theorem bind_of_error {x : Traced α} {e : Error} (h : x.result = .error e) (f : α → Traced β) :
    x >>= f = ⟨x.log, .error e⟩ := by
  change Traced.bind x f = _
  rw [Traced.bind, h]

@[simp] theorem result_bind (x : Traced α) (f : α → Traced β) :
    (x >>= f).result = x.result.bind fun a ↦ (f a).result := by
  cases h : x.result with
  | ok a => rw [bind_of_ok h]; rfl
  | error e => rw [bind_of_error h]; rfl

theorem result_bind_eq_ok_iff {x : Traced α} {f : α → Traced β} {b : β} :
    (x >>= f).result = .ok b ↔ ∃ a, x.result = .ok a ∧ (f a).result = .ok b := by
  rw [result_bind]
  cases h : x.result with
  | ok a => simp [Except.bind]
  | error e => simp [Except.bind]

@[simp] theorem result_ofExcept (r : Except Error α) : (ofExcept r).result = r := rfl

@[simp] theorem result_andThen (x : Traced α) (record : Event) :
    (x.andThen record).result = x.result := rfl

instance : LawfulMonad Traced := by
  refine LawfulMonad.mk' Traced ?_ ?_ ?_
  · rintro α ⟨log, result⟩
    cases result with
    | ok a => exact Traced.ext (List.append_nil log) rfl
    | error e => rfl
  · intro α β a f
    rfl
  · intro α β γ x f g
    cases hx : x.result with
    | error e => rw [bind_of_error hx, bind_of_error rfl, bind_of_error hx]
    | ok a =>
      rw [bind_of_ok hx, bind_of_ok hx]
      cases hf : (f a).result with
      | error e => rw [bind_of_error rfl, bind_of_error hf]
      | ok b => rw [bind_of_ok rfl, bind_of_ok hf, List.append_assoc]

end Traced

end CValues
