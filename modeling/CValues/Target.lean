import CValues.Width

/-!
# Targets

Two things about the machine decide what a C program means: the data model, which fixes how wide
`long` and a pointer are, and whether plain `char` has a sign.
-/

namespace CValues

/-- How wide an address is. -/
inductive PointerSize where
  | bits32
  | bits64
  deriving DecidableEq, Repr

namespace PointerSize

/-- The integer width of an address. -/
def width : PointerSize → Width
  | bits32 => .w32
  | bits64 => .w64

/-- The number of bytes of an address. -/
def bytes (p : PointerSize) : Nat := p.width.bytes

/-- The part of a number that an address can hold. -/
def fit (p : PointerSize) (n : Nat) : Nat := n % pow2 p.width.bits

/-- Nothing of the number is lost in an address. -/
def Fits (p : PointerSize) (n : Nat) : Prop := n < pow2 p.width.bits

instance (p : PointerSize) (n : Nat) : Decidable (p.Fits n) :=
  inferInstanceAs (Decidable (n < _))

theorem fit_eq_self_iff {p : PointerSize} {n : Nat} : p.fit n = n ↔ p.Fits n := by
  rw [fit, Fits, Nat.mod_eq_iff_lt (Nat.ne_of_gt (pow2_pos _))]

end PointerSize

/-- The data models: which of `int`, `long` and pointers have 32 and which 64 bits. -/
inductive DataModel where
  | lp64
  | llp64
  | ilp32
  deriving DecidableEq, Repr

namespace DataModel

/-- The width of `long`. -/
def longWidth : DataModel → Width
  | lp64 => .w64
  | llp64 | ilp32 => .w32

/-- The size of a pointer. -/
def pointerSize : DataModel → PointerSize
  | lp64 | llp64 => .bits64
  | ilp32 => .bits32

end DataModel

/-- A machine that C is compiled for. -/
structure Target where
  /-- The widths of the basic types. -/
  model : DataModel := .lp64
  /-- How plain `char` is read. -/
  plainChar : Signedness := .signed
  deriving DecidableEq, Repr

namespace Target

instance : Inhabited Target := ⟨{}⟩

/-- The size of a pointer on the machine. -/
def pointerSize (t : Target) : PointerSize := t.model.pointerSize

/-- The integer width of an address on the machine. -/
def addressWidth (t : Target) : Width := t.pointerSize.width

end Target

end CValues
