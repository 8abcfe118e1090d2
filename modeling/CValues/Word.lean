import CValues.Value.Bytes

/-!
# Typed words

A machine has no values, only words: every value is carried in 64 bits beside the type that they are
read at. Nothing in a word says that its bits are those of its type. It is up to whatever makes a
word to leave no bits above the pattern, by a mask or because there are none, and whatever reads one
relies on that.

`Value.word` is the word of a value. The functions here and in the modules below make and read words
as a machine does, and the proofs show that they come to the same as those on values.
-/

namespace CValues

namespace Width

/-- The low bits of an accumulator, cut out of a word by a mask. -/
def maskedWord (w : Width) (x : Int) : BitVec 64 :=
  (BitVec.ofInt Accumulator.bits x).setWidth 64 &&& BitVec.ofNat 64 w.mask

/-- The low bits of a word, shifted to its top and back again with the sign. -/
def shiftedWord (w : Width) (word : BitVec 64) : BitVec 64 :=
  (word <<< (64 - w.bits)).sshiftRight (64 - w.bits)

end Width

/-- A word and the type it is read at. -/
structure TypedWord where
  /-- The bits. -/
  bits : BitVec 64
  /-- The type. -/
  type : CType
  deriving DecidableEq, Repr

/-- The word of a value: its pattern, with zeros above. -/
def Value.word (v : Value) : TypedWord := ⟨BitVec.ofNat 64 v.bits, v.type⟩

namespace TypedWord

/-! ## Making words -/

/-- A `_Bool`. -/
def ofBool (truth : Bool) : TypedWord := ⟨BitVec.ofNat 64 truth.toNat, .bool⟩

/-- The word of an integer type that is congruent to `x`. -/
def ofInt (w : Width) (s : Signedness) (x : Int) : TypedWord := ⟨w.maskedWord x, .int w s⟩

/-- A word of type `int`. -/
def plainInt (x : Int) : TypedWord := ofInt .w32 .signed x

/-- The word of a character constant, which is an `int`. -/
def ofChar (c : Char) : TypedWord := plainInt c.toNat

/-- An unsigned integer of 64 bits, which needs no mask. -/
def ofWord (bits : BitVec 64) : TypedWord := ⟨bits, .int .w64 .unsigned⟩

/-- A floating number, with zeros above its pattern. -/
def ofPattern (f : FloatFormat) (p : f.Pattern) : TypedWord := ⟨p.setWidth 64, .float f⟩

/-- A pointer without qualifiers. -/
def pointerTo (pointee : CType) (address : BitVec 64) : TypedWord := ⟨address, .pointerTo pointee⟩

/-- The null pointer of a pointer type. -/
def null (pointee : CType) : TypedWord := pointerTo pointee 0

/-- An array, known by the address of its first element. -/
def array (element : CType) (length : Nat) (address : BitVec 64) : TypedWord :=
  ⟨address, .array element length⟩

/-- The word of a type with those bits of a pattern that count there. A `_Bool` is true if any bit of
its byte is set. An address is taken as it is. -/
def ofBits (bits : BitVec 64) : CType → Except Error TypedWord
  | .void => .error (.invalidOperands .construct [.void])
  | .bool => .ok (ofBool (bits &&& 0xFF != 0))
  | .int w s => .ok ⟨bits &&& BitVec.ofNat 64 w.mask, .int w s⟩
  | .float .single => .ok ⟨bits &&& 0xFFFFFFFF, .float .single⟩
  | .float .double => .ok ⟨bits, .float .double⟩
  | .pointer t q => .ok ⟨bits, .pointer t q⟩
  | .array t length => .ok ⟨bits, .array t length⟩

/-! ## Readings -/

/-- The integer that a word of integer type stands for. -/
def integer? (v : TypedWord) : Option Int :=
  match v.type with
  | .bool | .int _ .unsigned => some v.bits.toNat
  | .int w .signed => some (w.shiftedWord v.bits).toInt
  | _ => none

/-- The pattern of a word of type `float`, its low half. -/
def single? (v : TypedWord) : Option FloatFormat.single.Pattern :=
  match v.type with
  | .float .single => some (v.bits.setWidth 32)
  | _ => none

/-- The number that a word of floating type stands for, in the double format. -/
def double? (v : TypedWord) : Option FloatFormat.double.Pattern :=
  match v.type with
  | .float .single => some (FloatFormat.single.widen (v.bits.setWidth 32))
  | .float .double => some v.bits
  | _ => none

/-- The number that a word of floating type stands for, in the format that is asked for. -/
def pattern? (v : TypedWord) : (f : FloatFormat) → Option f.Pattern
  | .single => v.single?
  | .double => v.double?

/-- The address of a pointer or an array. -/
def address? (v : TypedWord) : Option Nat :=
  match v.type with
  | .pointer _ _ | .array _ _ => some v.bits.toNat
  | _ => none

/-- The word counts as false: a zero of either sign, or no bit set. -/
def isZero (v : TypedWord) : Bool :=
  match v.type with
  | .float _ => v.double?.any FloatFormat.double.isZero
  | _ => v.bits == 0

/-- The word as an operand: an array becomes the pointer to its first element. -/
def decay (v : TypedWord) : TypedWord :=
  match v.type with
  | .array t _ => pointerTo t v.bits
  | _ => v

/-- The two words are the same: two pointers by their bits alone. -/
def same (v w : TypedWord) : Bool :=
  match v.type, w.type with
  | .pointer _ _, .pointer _ _ => v.bits == w.bits
  | t, u => t == u && v.bits == w.bits

/-! ## Words as bytes -/

/-- The bytes of a word in memory: the lowest of its eight, as many as its type takes. -/
def toBytes (p : PointerSize) (v : TypedWord) : List UInt8 :=
  let size := match v.type with
    | .array _ _ => p.bytes
    | t => (t.size? p).getD 0
  (littleEndian 8 v.bits.toNat).take size

/-- The word of a type that begins a row of bytes. -/
def ofBytes (p : PointerSize) (t : CType) (bytes : List UInt8) : Except Error TypedWord :=
  match t with
  | .void | .array _ _ => .error (.invalidOperands .load [t])
  | t =>
    let size := (t.size? p).getD 0
    if bytes.length < size then .error .outOfBounds
    else ofBits (BitVec.ofNat 64 (ofLittleEndian (bytes.take size))) t

end TypedWord

end CValues
