import CValues.Power

/-!
# Machine widths

An integer type of the machine has one of four widths and reads its pattern with or without a sign.
Everything here is reduction modulo a power of two: `Width.truncate` takes an integer of any size to
the pattern of its residue, and `Width.signExtend` takes a pattern back to the one integer of the
signed range with that residue.

Patterns are bit vectors, so that a pattern always fits its width; integers are unbounded, so that
no intermediate result is lost before it is reduced.
-/

namespace CValues

/-- The widths an integer type can have. -/
inductive Width where
  | w8
  | w16
  | w32
  | w64
  deriving DecidableEq, Repr

/-- How the top bit of a pattern is read. -/
inductive Signedness where
  | signed
  | unsigned
  deriving DecidableEq, Repr

/-- The integer that a pattern stands for. -/
def Signedness.read {n : Nat} (p : BitVec n) : Signedness → Int
  | signed => p.toInt
  | unsigned => p.toNat

namespace Width

/-- The number of bits. -/
def bits : Width → Nat
  | w8 => 8
  | w16 => 16
  | w32 => 32
  | w64 => 64

/-- The number of bytes. -/
def bytes (w : Width) : Nat := w.bits / 8

/-- The largest pattern, all of whose bits are set. -/
def mask (w : Width) : Nat := pow2 w.bits - 1

/-- The width with this many bits, if there is one. -/
def ofBits? : Nat → Option Width
  | 8 => some w8
  | 16 => some w16
  | 32 => some w32
  | 64 => some w64
  | _ => none

/-- The wider of two widths. -/
def wider (v w : Width) : Width := if v.bits < w.bits then w else v

/-! ## Reduction and extension -/

/-- The pattern of an integer: its residue modulo two to the width. -/
def truncate (w : Width) (x : Int) : BitVec w.bits := BitVec.ofInt w.bits x

/-- The integer that the low bits of a pattern stand for when the top one of them is a sign. -/
def signExtend (w : Width) (pattern : Nat) : Int := (BitVec.ofNat w.bits pattern).toInt

/-- A signed value read again without its sign. -/
def asUnsigned (w : Width) (x : Int) : BitVec w.bits := w.truncate x

/-- A pattern read again with a sign. -/
def asSigned (w : Width) (pattern : Nat) : Int := w.signExtend (pattern % pow2 w.bits)

theorem toNat_truncate (w : Width) (x : Int) :
    ((w.truncate x).toNat : Int) = x % pow2 w.bits := by
  rw [truncate, BitVec.toNat_ofInt, Int.toNat_of_nonneg]
  · rfl
  · exact Int.emod_nonneg _ (by cases w <;> decide)

theorem asSigned_eq_signExtend (w : Width) (pattern : Nat) :
    w.asSigned pattern = w.signExtend pattern := by
  have h : BitVec.ofNat w.bits (pattern % pow2 w.bits) = BitVec.ofNat w.bits pattern :=
    BitVec.eq_of_toNat_eq (by simp [pow2])
  rw [asSigned, signExtend, signExtend, h]

end Width

end CValues
