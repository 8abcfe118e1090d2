import CValues.Arithmetic
import CValues.BasicType
import CValues.Comparison

/-!
# Counting code points

The number of code points of a text in memory, counted as a C program does that looks at one plain
`char` after another up to the terminating zero: a byte begins a code point unless its two leading
bits are `10`. On a target where plain `char` has a sign the bytes of longer encodings are negative,
and promotion keeps their leading bits.
-/

namespace CValues

/-- The mask of the two bits that tell how a byte continues a code point. -/
def leadMask : Value := .plainInt 0xC0

/-- What the two bits are in a byte that continues a code point. -/
def continuation : Value := .plainInt 0x80

/-- The byte, read as a plain `char`, begins a code point. -/
def beginsCodePoint (target : Target) (byte : UInt8) : Traced Bool := do
  let c ← Value.ofBits byte.toNat (BasicType.char.onTarget target)
  let lead ← binary target .and c leadMask
  let outcome ← compareValues target .ne lead continuation
  return !outcome.isZero

/-- The number of bytes that begin a code point. -/
def countLeads (target : Target) : List UInt8 → Traced Nat
  | [] => pure 0
  | byte :: rest => do
    let begins ← beginsCodePoint target byte
    let count ← countLeads target rest
    return begins.toNat + count

/-- The number of code points before the first zero byte, or the end. -/
def countCodePoints (target : Target) (bytes : List UInt8) : Traced Nat :=
  countLeads target (bytes.takeWhile (· != 0))

end CValues
