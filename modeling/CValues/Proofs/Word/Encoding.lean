import CValues.Proofs.Floating.Widening
import CValues.Proofs.Integer.Wraparound
import CValues.Proofs.Value.Codec

/-!
# Words of values

A value can be had back from its word, so a word of a value is as good as the value: made in any of
the ways a machine makes words, it is the word of the value made in that way, and read in any of the
ways a machine reads words, it gives what the value gives. The masks are needed for the first, and
that there is nothing above the pattern for the second.
-/

namespace CValues

variable {p : PointerSize} {v w : Value}

namespace Value

theorem bits_lt (v : Value) : v.bits < pow2 64 := by
  cases v with
  | bool truth => cases truth <;> decide
  | int w s x => exact x.isLt.trans_le (Nat.pow_le_pow_right Nat.two_pos w.bits_le_word)
  | float f x =>
    have hbits : f.bits ≤ 64 := by cases f <;> decide
    exact x.isLt.trans_le (Nat.pow_le_pow_right Nat.two_pos hbits)
  | pointer t q a => exact a.isLt
  | array t n a => exact a.isLt

@[simp] theorem toNat_bits_word (v : Value) : v.word.bits.toNat = v.bits :=
  Nat.mod_eq_of_lt v.bits_lt

@[simp] theorem type_word (v : Value) : v.word.type = v.type := rfl

theorem word_inj : v.word = w.word ↔ v = w := by
  refine ⟨fun hword ↦ ?_, congrArg word⟩
  have hbits : v.bits = w.bits := by rw [← toNat_bits_word, hword, toNat_bits_word]
  have htype : v.type = w.type := congrArg TypedWord.type hword
  have hok : ofBits v.bits v.type = ofBits w.bits w.type := by rw [hbits, htype]
  rw [ofBits_bits, ofBits_bits] at hok
  exact Except.ok.inj hok

end Value

/-! ## Making words -/

theorem Width.maskedWord_eq (w : Width) (x : Int) :
    w.maskedWord x = BitVec.ofNat 64 (w.truncate x).toNat := by
  rw [← toNat_maskedWord, BitVec.ofNat_toNat, BitVec.setWidth_eq]

namespace Value

theorem word_bool (truth : Bool) : (bool truth).word = .ofBool truth := rfl

theorem word_ofInt (w : Width) (s : Signedness) (x : Int) : (ofInt w s x).word = .ofInt w s x := by
  rw [TypedWord.ofInt, Width.maskedWord_eq]
  rfl

theorem word_float (f : FloatFormat) (x : f.Pattern) : (float f x).word = .ofPattern f x := by
  rw [TypedWord.ofPattern, ← BitVec.ofNat_toNat]
  rfl

theorem word_pointer (t : CType) (q : Qualifiers) (a : BitVec 64) :
    (pointer t q a).word = ⟨a, .pointer t q⟩ := by
  rw [word, bits, BitVec.ofNat_toNat, BitVec.setWidth_eq]
  rfl

theorem word_array (t : CType) (n : Nat) (a : BitVec 64) :
    (array t n a).word = .array t n a := by
  rw [word, bits, BitVec.ofNat_toNat, BitVec.setWidth_eq]
  rfl

theorem word_pointerTo (t : CType) (address : Nat) :
    (pointerTo t address).word = .pointerTo t (BitVec.ofNat 64 address) := word_pointer _ _ _

end Value

namespace TypedWord

open Value

private theorem and_mask (w : Width) (bits : BitVec 64) :
    bits &&& BitVec.ofNat 64 w.mask = BitVec.ofNat 64 (BitVec.ofNat w.bits bits.toNat).toNat := by
  have hmask : (BitVec.ofNat 64 w.mask).toNat = pow2 w.bits - 1 := by cases w <;> decide
  have hmod : (bits &&& BitVec.ofNat 64 w.mask).toNat = (BitVec.ofNat w.bits bits.toNat).toNat := by
    rw [BitVec.toNat_and, hmask]
    exact Nat.and_two_pow_sub_one_eq_mod _ _
  rw [← hmod, BitVec.ofNat_toNat, BitVec.setWidth_eq]

private theorem and_byte (bits : BitVec 64) : (bits &&& 0xFF != 0) = (bits.toNat % 256 != 0) := by
  have hmod : (bits &&& 0xFF).toNat = bits.toNat % 256 := by
    rw [BitVec.toNat_and]
    exact Nat.and_two_pow_sub_one_eq_mod _ 8
  rw [Bool.eq_iff_iff, bne_iff_ne, bne_iff_ne, ← hmod, ne_eq, ne_eq, ← BitVec.toNat_inj]
  rfl

theorem ofBits_eq (bits : BitVec 64) (t : CType) :
    ofBits bits t = (Value.ofBits bits.toNat t).map word := by
  have hself : BitVec.ofNat 64 bits.toNat = bits := by
    rw [BitVec.ofNat_toNat, BitVec.setWidth_eq]
  cases t with
  | void => rfl
  | bool => exact congrArg (fun truth ↦ Except.ok (ofBool truth)) (and_byte bits)
  | int w s => exact congrArg (fun bits ↦ Except.ok (mk bits (.int w s))) (and_mask w bits)
  | float f => cases f with
    | single =>
      exact congrArg (fun bits ↦ Except.ok (mk bits (.float .single))) (and_mask .w32 bits)
    | double =>
      have hword : bits = BitVec.ofNat 64 (BitVec.ofNat 64 bits.toNat).toNat := by
        rw [hself, hself]
      exact congrArg (fun bits ↦ Except.ok (mk bits (.float .double))) hword
  | pointer t q => exact congrArg Except.ok (by rw [word_pointer, hself])
  | array t n => exact congrArg Except.ok (by rw [word_array, hself, TypedWord.array])

end TypedWord

/-! ## Reading words -/

namespace Value

@[simp] theorem integer?_word (v : Value) : v.word.integer? = v.integer? := by
  cases v with
  | bool truth => exact congrArg (fun n : Nat ↦ some (n : Int)) (toNat_bits_word (bool truth))
  | int width s x => cases s with
    | unsigned =>
      exact congrArg (fun n : Nat ↦ some (n : Int)) (toNat_bits_word (int width .unsigned x))
    | signed =>
      change some (width.shiftedWord _).toInt = some x.toInt
      rw [Width.toInt_shiftedWord, toNat_bits_word, bits, Width.signExtend, BitVec.ofNat_toNat,
        BitVec.setWidth_eq]
  | float | pointer | array => rfl

private theorem setWidth_ofNat_toNat {n : Nat} (x : BitVec n) (hn : n ≤ 64) :
    (BitVec.ofNat 64 x.toNat).setWidth n = x := by
  rw [BitVec.ofNat_toNat, BitVec.setWidth_setWidth_of_le _ hn, BitVec.setWidth_eq]

@[simp] theorem single?_word (v : Value) : v.word.single? = v.single? := by
  cases v with
  | float f x => cases f with
    | single => exact congrArg some (setWidth_ofNat_toNat x (by decide))
    | double => rfl
  | bool | int | pointer | array => rfl

@[simp] theorem double?_word (v : Value) : v.word.double? = v.double? := by
  cases v with
  | float f x => cases f with
    | single =>
      exact congrArg (some ∘ FloatFormat.single.widen) (setWidth_ofNat_toNat x (by decide))
    | double =>
      refine congrArg some (Eq.trans ?_ (setWidth_ofNat_toNat x (Nat.le_refl 64)))
      exact (BitVec.setWidth_eq _).symm
  | bool | int | pointer | array => rfl

theorem pattern?_word {f : FloatFormat} (hv : v.type = .float f) :
    v.word.pattern? f = v.pattern? f := by
  cases v with
  | float g x =>
    obtain rfl := CType.float.inj hv
    rw [pattern?, dif_pos rfl]
    cases g with
    | single => exact single?_word (float .single x)
    | double => exact double?_word (float .double x)
  | bool | int | pointer | array => cases hv

@[simp] theorem address?_word (v : Value) : v.word.address? = v.address? := by
  cases v with
  | pointer t q a => exact congrArg some (toNat_bits_word (pointer t q a))
  | array t n a => exact congrArg some (toNat_bits_word (array t n a))
  | bool | int | float => rfl

private theorem beq_zero_word (v : Value) : (v.word.bits == 0) = (v.bits == 0) := by
  rw [Bool.eq_iff_iff, beq_iff_eq, beq_iff_eq, ← toNat_bits_word, ← BitVec.toNat_inj]
  rfl

@[simp] theorem isZero_word (v : Value) : v.word.isZero = v.isZero := by
  cases v with
  | float f x =>
    change (float f x).word.double?.any FloatFormat.double.isZero = f.isZero x
    rw [double?_word]
    exact FloatFormat.isZero_widen x
  | bool | int | pointer | array => exact beq_zero_word _

@[simp] theorem decay_word (v : Value) : v.word.decay = v.decay.word := by
  cases v with
  | array t n a =>
    rw [word_array]
    exact (word_pointer t .none a).symm
  | bool | int | float | pointer => rfl

@[simp] theorem same_word (v w : Value) : v.word.same w.word = v.same w := by
  have hother : (v.type == w.type && v.word.bits == w.word.bits) = (v == w) := by
    rw [Bool.eq_iff_iff, Bool.and_eq_true, beq_iff_eq, beq_iff_eq, beq_iff_eq, ← word_inj,
      and_comm]
    exact TypedWord.mk.injEq _ _ _ _ ▸ Iff.rfl
  cases v with
  | pointer t q a => cases w with
    | pointer u r b =>
      rw [word_pointer, word_pointer]
      rfl
    | bool | int | float | array => exact hother
  | bool | int | float | array => exact hother

/-! ## Words as bytes -/

private theorem byteCount_le_eight (p : PointerSize) (v : Value) : v.byteCount p ≤ 8 := by
  by_cases hv : v.type.isScalar = true
  · exact CType.size?_le_eight hv (size?_type hv)
  · cases v with
    | array =>
      have hbytes : p.bytes ≤ 8 := by cases p <;> decide
      exact hbytes
    | bool | int | float | pointer => exact absurd rfl hv

@[simp] theorem toBytes_word (p : PointerSize) (v : Value) : v.word.toBytes p = v.toBytes p := by
  have hsize : v.word.toBytes p = (littleEndian 8 v.word.bits.toNat).take (v.byteCount p) := by
    cases v <;> rfl
  rw [hsize, toNat_bits_word, take_littleEndian (byteCount_le_eight p v)]
  rfl

end Value

theorem TypedWord.ofBytes_eq (p : PointerSize) (t : CType) (bytes : List UInt8) :
    ofBytes p t bytes = (Value.ofBytes p t bytes).map Value.word := by
  by_cases ht : t.isScalar = true
  · obtain ⟨size, -, hsize⟩ := CType.exists_size?_of_isScalar p ht
    have heq : ofBytes p t bytes = if bytes.length < size then .error .outOfBounds
        else ofBits (BitVec.ofNat 64 (ofLittleEndian (bytes.take size))) t := by
      cases t with
      | void | array => cases ht
      | bool | int | float | pointer =>
        obtain rfl := Option.some.inj hsize
        rfl
    have hfits : ofLittleEndian (bytes.take size) < 2 ^ 64 := by
      refine (ofLittleEndian_lt _).trans_le (Nat.pow_le_pow_right Nat.two_pos ?_)
      have hlength := List.length_take_le size bytes
      have height := CType.size?_le_eight ht hsize
      omega
    rw [heq]
    by_cases hshort : bytes.length < size
    · rw [if_pos hshort, Value.ofBytes_of_short ht hsize hshort]
      rfl
    · rw [if_neg hshort, Value.ofBytes_of_isScalar ht hsize (Nat.le_of_not_lt hshort), ofBits_eq,
        BitVec.toNat_ofNat, Nat.mod_eq_of_lt hfits]
  · cases t with
    | void | array => rfl
    | bool | int | float | pointer => exact absurd rfl ht

end CValues
