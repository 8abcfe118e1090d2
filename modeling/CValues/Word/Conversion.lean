import CValues.Conversion
import CValues.Word

/-!
# Conversions of words

The conversion rules on words. Which rule a conversion takes is decided by the types, as on values;
what the rule does is done to bits. Every rule makes its result in its own way: an integer is cut to
its width, a floating number is read as a `double` first, and an address is passed on as it stands
or cut to the width of an address where it was computed.
-/

namespace CValues.TypedWord

/-! ## Numbers -/

/-- A word counts as true unless it is zero. -/
def truthValue (v : TypedWord) : TypedWord := ofBool (!v.isZero)

/-- An integer at another integer type. -/
def integerToInteger (w : Width) (s : Signedness) (v : TypedWord) : Traced TypedWord :=
  match v.integer? with
  | some x => pure (ofInt w s x)
  | none => .reject v.type (.int w s)

/-- An integer at a floating type. -/
def integerToFloating (f : FloatFormat) (v : TypedWord) : Traced TypedWord :=
  match v.integer? with
  | some x => pure (ofPattern f (f.ofInt x))
  | none => .reject v.type (.float f)

/-- A floating number at an integer type. -/
def floatingToInteger (w : Width) (s : Signedness) (v : TypedWord) : Traced TypedWord :=
  match v.double? with
  | some p => pure (ofInt w s (FloatFormat.double.toInt p))
  | none => .reject v.type (.int w s)

/-- A `double` in another format. -/
def ofDouble (p : FloatFormat.double.Pattern) : FloatFormat → TypedWord
  | .single => ofPattern .single (FloatFormat.double.convert .single p)
  | .double => ofPattern .double p

/-- A floating number at a floating type. At its own type the word is passed on. -/
def floatingToFloating (g : FloatFormat) (v : TypedWord) : Traced TypedWord :=
  if v.type = .float g then pure v
  else
    match v.double? with
    | some p => pure (ofDouble p g)
    | none => .reject v.type (.float g)

/-! ## Addresses -/

/-- An integer at a pointer type. -/
def integerToPointer (target : Target) (kind : ConversionKind) (v : TypedWord) (t : CType) :
    Traced TypedWord :=
  match v.integer?, t.isPointer with
  | some x, true =>
    if x ≠ 0 ∧ kind = .implicit then .reject v.type t
    else .ofExcept (ofBits (target.addressWidth.maskedWord x) t)
  | _, _ => .reject v.type t

/-- A pointer or an array at an integer type. -/
def pointerToInteger (target : Target) (kind : ConversionKind) (w : Width) (s : Signedness)
    (v : TypedWord) : Traced TypedWord :=
  match v.address?, kind with
  | some address, .explicit => pure (ofInt w s (target.pointerSize.fit address))
  | _, _ => .reject v.type (.int w s)

/-- A pointer at another pointer type. -/
def pointerToPointer (kind : ConversionKind) (v : TypedWord) (t : CType) : Traced TypedWord :=
  match v.type, t with
  | .pointer source qualifiers, .pointer pointee wanted =>
    if !source.pointsAlike pointee then .reject v.type t
    else if kind = .implicit ∧ !qualifiers.keptBy wanted then
      .failWith (.discardsQualifiers v.type t) (.qualifierDiscarded v.type t)
    else .ofExcept (ofBits v.bits t)
  | _, _ => .reject v.type t

/-- A pointer read as a pointer to another type, without qualifiers. -/
def reinterpret (v : TypedWord) (pointee : CType) : Traced TypedWord :=
  match v.type.pointee? with
  | some source =>
    if source.pointsAlike pointee then pure (pointerTo pointee v.bits)
    else .reject v.type (.pointerTo pointee)
  | none => .reject v.type (.pointerTo pointee)

/-- The pointer to the first element of an array whose elements have the type that is expected. -/
def decayArray (v : TypedWord) (element : CType) : Traced TypedWord :=
  match v.type with
  | .array actual _ =>
    if actual = element then pure (pointerTo element v.bits)
    else .reject v.type (.pointerTo element)
  | _ => .reject v.type (.pointerTo element)

/-- An array at a pointer type: first the pointer to its first element, then that pointer at the
type. -/
def arrayToPointer (kind : ConversionKind) (v : TypedWord) (t : CType) : Traced TypedWord :=
  match v.type with
  | .array element _ => do
    let first ← v.decayArray element
    first.pointerToPointer kind t
  | _ => .reject v.type t

/-! ## All conversions -/

/-- Carries a rule out. -/
def applyRule (target : Target) (kind : ConversionKind) (v : TypedWord) (t : CType) (rule : Rule) :
    Traced TypedWord :=
  match rule, t with
  | .truthValue, _ => pure v.truthValue
  | .integerToInteger, .int w s => v.integerToInteger w s
  | .integerToFloating, .float f => v.integerToFloating f
  | .integerToPointer, t => v.integerToPointer target kind t
  | .floatingToInteger, .int w s => v.floatingToInteger w s
  | .floatingToFloating, .float f => v.floatingToFloating f
  | .pointerToInteger, .int w s => v.pointerToInteger target kind w s
  | .pointerToPointer, t => v.pointerToPointer kind t
  | .arrayDecay, t => v.arrayToPointer kind t
  | _, t => .reject v.type t

/-- The word at another type. -/
def convert (target : Target) (kind : ConversionKind) (v : TypedWord) (t : CType) :
    Traced TypedWord :=
  match Rule.between? v.type t with
  | some rule => (v.applyRule target kind t rule).andThen (.converted kind v.type t rule)
  | none => .reject v.type t

/-- An integer of lesser rank than `int` as an `int`, and every other word as it is. -/
def promote (v : TypedWord) : TypedWord :=
  match v.integer?, v.type.rank? with
  | some x, some rank => if rank < 3 then plainInt x else v
  | _, _ => v

end CValues.TypedWord
