import CValues.Traced
import CValues.Value

/-!
# Conversions of addresses

An integer becomes a pointer by its residue at the width of an address; without a cast only zero
does. A pointer changes what it points to only from or to `void`, keeps its address, and without a
cast may not lose a `const` or `volatile`.
-/

namespace CValues

/-- Pointers to the two types convert into each other. -/
def CType.pointsAlike (t u : CType) : Bool := t == u || t == .void || u == .void

theorem CType.pointsAlike_iff {t u : CType} :
    t.pointsAlike u = true ↔ t = u ∨ t = .void ∨ u = .void := by
  simp [CType.pointsAlike, or_assoc]

/-- An integer at a pointer type. -/
def integerToPointer (target : Target) (kind : ConversionKind) (v : Value) (t : CType) :
    Traced Value :=
  match v.integer?, t with
  | some x, .pointer pointee qualifiers =>
    if x ≠ 0 ∧ kind = .implicit then .reject v.type t
    else pure (.pointer pointee qualifiers
      (BitVec.ofNat 64 (target.addressWidth.truncate x).toNat))
  | _, _ => .reject v.type t

/-- A pointer or an array at an integer type: its address, reduced to the width. -/
def pointerToInteger (target : Target) (kind : ConversionKind) (w : Width) (s : Signedness)
    (v : Value) : Traced Value :=
  match v.address?, kind with
  | some address, .explicit => pure (.ofInt w s (target.pointerSize.fit address))
  | _, _ => .reject v.type (.int w s)

/-- A pointer at another pointer type. -/
def pointerToPointer (kind : ConversionKind) (v : Value) (t : CType) : Traced Value :=
  match v, t with
  | .pointer source qualifiers address, .pointer pointee wanted =>
    if !source.pointsAlike pointee then .reject v.type t
    else if kind = .implicit ∧ !qualifiers.keptBy wanted then
      .failWith (.discardsQualifiers v.type t) (.qualifierDiscarded v.type t)
    else pure (.pointer pointee wanted address)
  | _, _ => .reject v.type t

/-- A pointer read as a pointer to another type, without qualifiers. -/
def reinterpret (v : Value) (pointee : CType) : Traced Value :=
  match v with
  | .pointer source _ address =>
    if source.pointsAlike pointee then pure (.pointer pointee .none address)
    else .reject v.type (.pointerTo pointee)
  | _ => .reject v.type (.pointerTo pointee)

/-- The pointer to the first element of an array whose elements have the type that is expected. -/
def decayArray (v : Value) (element : CType) : Traced Value :=
  match v with
  | .array actual _ address =>
    if actual = element then pure (.pointer element .none address)
    else .reject v.type (.pointerTo element)
  | _ => .reject v.type (.pointerTo element)

theorem decayArray_self (element : CType) (length : Nat) (a : BitVec 64) :
    decayArray (.array element length a) element = pure (.pointer element .none a) := if_pos rfl

/-- An array at a pointer type: first the pointer to its first element, then that pointer at the
type. -/
def arrayToPointer (kind : ConversionKind) (v : Value) (t : CType) : Traced Value :=
  match v with
  | .array element _ _ => do
    let first ← decayArray v element
    pointerToPointer kind first t
  | _ => .reject v.type t

end CValues
