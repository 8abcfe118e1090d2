import CValues.Value.Bytes

/-!
# Values and their bytes

A scalar takes as many bytes as its type has, and these bytes hold its whole pattern, except that a
pointer can carry an address beyond those of the target. A value without such an address is read
back from its bytes as it was.

The other way around, every row of bytes that is long enough is read as a value, and this value is
written as the bytes it was read from, except that a `_Bool` is written as a zero or a one.
-/

namespace CValues

variable {p : PointerSize} {v : Value} {t : CType}

/-! ## Sizes -/

theorem Width.eight_mul_bytes (w : Width) : 8 * w.bytes = w.bits := by cases w <;> rfl

theorem FloatFormat.eight_mul_bytes (f : FloatFormat) : 8 * f.bytes = f.bits := by cases f <;> rfl

theorem CType.exists_size?_of_isScalar (p : PointerSize) (ht : t.isScalar = true) :
    ∃ n, 0 < n ∧ t.size? p = some n := by
  cases t with
  | bool => exact ⟨1, Nat.one_pos, rfl⟩
  | int w => exact ⟨w.bytes, by cases w <;> decide, rfl⟩
  | float f => exact ⟨f.bytes, by cases f <;> decide, rfl⟩
  | pointer => exact ⟨p.bytes, by cases p <;> decide, rfl⟩
  | void | array => cases ht

theorem CType.size?_le_eight {n : Nat} (ht : t.isScalar = true) (hn : t.size? p = some n) :
    n ≤ 8 := by
  cases t with
  | bool => simp [← Option.some.inj hn]
  | int w => rw [← Option.some.inj hn]; cases w <;> decide
  | float f => rw [← Option.some.inj hn]; cases f <;> decide
  | pointer => rw [← Option.some.inj hn]; cases p <;> decide
  | void | array => cases ht

theorem ofLittleEndian_lt (bytes : List UInt8) :
    ofLittleEndian bytes < pow2 (8 * bytes.length) := by
  induction bytes with
  | nil => decide
  | cons b rest ih =>
    have hbyte : b.toNat < 256 := b.toNat_lt
    rw [ofLittleEndian, List.length_cons, pow2_eight_mul_succ]
    omega

theorem littleEndian_ofLittleEndian (bytes : List UInt8) :
    littleEndian bytes.length (ofLittleEndian bytes) = bytes := by
  induction bytes with
  | nil => rfl
  | cons b rest ih =>
    have hbyte : b.toNat < 256 := b.toNat_lt
    have hlow : UInt8.ofNat (b.toNat + 256 * ofLittleEndian rest) = b := by
      refine UInt8.toNat_inj.mp ?_
      rw [UInt8.toNat_ofNat']
      omega
    have hhigh : (b.toNat + 256 * ofLittleEndian rest) / 256 = ofLittleEndian rest := by omega
    rw [ofLittleEndian, List.length_cons, littleEndian, hlow, hhigh, ih]

/-! ## Parts of a row of bytes -/

section Slice

variable {count k size : Nat}

theorem drop_littleEndian (count k n : Nat) :
    (littleEndian count n).drop k = littleEndian (count - k) (n / pow2 (8 * k)) := by
  induction k generalizing count n with
  | zero => rw [List.drop_zero, Nat.sub_zero, Nat.mul_zero, pow2_zero, Nat.div_one]
  | succ k ih =>
    rcases count with _ | count
    · rw [Nat.zero_sub, littleEndian, littleEndian, List.drop_nil]
    · rw [littleEndian, List.drop_succ_cons, ih, Nat.div_div_eq_div_mul, ← pow2_eight_mul_succ,
        Nat.add_sub_add_right]

theorem take_littleEndian (hsize : size ≤ count) (n : Nat) :
    (littleEndian count n).take size = littleEndian size n := by
  induction size generalizing count n with
  | zero => rfl
  | succ size ih =>
    obtain ⟨count, rfl⟩ := Nat.exists_eq_add_of_lt hsize
    rw [littleEndian, littleEndian, List.take_succ_cons, ih (Nat.le_add_right _ _)]

/-- Some bytes of a number in a row stand for a part of it, whatever lies beyond the row. -/
theorem ofLittleEndian_slice (hfit : k + size ≤ count) (n : Nat) :
    ofLittleEndian (((littleEndian count n).drop k).take size)
      = n % pow2 (8 * count) / pow2 (8 * k) % pow2 (8 * size) := by
  have hsize : size ≤ count - k := by omega
  have hcount : pow2 (8 * count) = pow2 (8 * k) * pow2 (8 * (count - k)) := by
    rw [← pow2_add, ← Nat.mul_add, Nat.add_sub_of_le (by omega)]
  rw [drop_littleEndian, take_littleEndian hsize, ofLittleEndian_littleEndian, hcount,
    Nat.mod_mul_right_div_self, Nat.mod_mod_of_dvd _ (pow2_dvd (Nat.mul_le_mul_left 8 hsize))]

end Slice

/-- The bits of a scalar as they are kept in a value: of a `_Bool` it only counts whether any of
them is set. -/
def CType.canonicalBits (t : CType) (n : Nat) : Nat :=
  match t with
  | .bool => if n = 0 then 0 else 1
  | _ => n

/-- The bytes of a scalar as they are written again: of a `_Bool` it only counts whether its byte is
zero. -/
def CType.canonicalBytes (t : CType) (bytes : List UInt8) : List UInt8 :=
  match t with
  | .bool => bytes.map fun b ↦ if b = 0 then 0 else 1
  | _ => bytes

private theorem CType.littleEndian_canonicalBits {bytes : List UInt8}
    (hsize : t.size? p = some bytes.length) :
    littleEndian bytes.length (t.canonicalBits (ofLittleEndian bytes))
      = t.canonicalBytes bytes := by
  cases t with
  | bool =>
    obtain ⟨b, rfl⟩ := List.length_eq_one_iff.mp (Option.some.inj hsize).symm
    have hzero : ofLittleEndian [b] = 0 ↔ b = 0 := UInt8.toNat_inj (b := 0)
    by_cases hb : b = 0
    · rw [canonicalBits, if_pos (hzero.mpr hb), hb]
      rfl
    · rw [canonicalBits, if_neg (mt hzero.mp hb), canonicalBytes, List.map_singleton, if_neg hb]
      rfl
  | _ => exact littleEndian_ofLittleEndian bytes

namespace Value

theorem size?_type (hv : v.type.isScalar = true) : v.type.size? p = some (v.byteCount p) := by
  obtain ⟨n, -, hn⟩ := CType.exists_size?_of_isScalar p hv
  have hcount : v.byteCount p = (v.type.size? p).getD 0 := by
    cases v with
    | array => cases hv
    | _ => rfl
  rw [hcount, hn, Option.getD_some]

@[simp] theorem length_toBytes (p : PointerSize) (v : Value) :
    (v.toBytes p).length = v.byteCount p := length_littleEndian _ _

/-! ## Reading back -/

/-- The value can be kept in memory on a target with such pointers: it is not an array, and a
pointer holds an address of the target. -/
def Storable (p : PointerSize) : Value → Prop
  | pointer _ _ a => p.Fits a.toNat
  | array _ _ _ => False
  | _ => True

theorem Storable.isScalar (hv : v.Storable p) : v.type.isScalar = true := by
  cases v with
  | array => exact hv.elim
  | _ => rfl

theorem Storable.bits_lt (hv : v.Storable p) : v.bits < pow2 (8 * v.byteCount p) := by
  cases v with
  | bool truth =>
    have hbyte : 2 < pow2 8 := by decide
    exact Nat.lt_trans truth.toNat_lt hbyte
  | int w s x =>
    change x.toNat < pow2 (8 * w.bytes)
    rw [w.eight_mul_bytes]
    exact x.isLt
  | float f x =>
    change x.toNat < pow2 (8 * f.bytes)
    rw [f.eight_mul_bytes]
    exact x.isLt
  | pointer t q a =>
    change a.toNat < pow2 (8 * p.width.bytes)
    rw [p.width.eight_mul_bytes]
    exact hv
  | array => exact hv.elim

theorem ofBits_bits (v : Value) : ofBits v.bits v.type = .ok v := by
  have hself : ∀ {n : Nat} (x : BitVec n), BitVec.ofNat n x.toNat = x := by
    intro n x
    rw [BitVec.ofNat_toNat, BitVec.setWidth_eq]
  cases v with
  | bool truth => cases truth <;> rfl
  | int w s x => exact congrArg (fun x ↦ Except.ok (int w s x)) (hself x)
  | float f x => exact congrArg (fun x ↦ Except.ok (float f x)) (hself x)
  | pointer t q a => exact congrArg (fun a ↦ Except.ok (pointer t q a)) (hself a)
  | array t n a => exact congrArg (fun a ↦ Except.ok (array t n a)) (hself a)

/-- A scalar is made of every pattern that its bytes can hold. -/
theorem exists_ofBits {n size : Nat} (ht : t.isScalar = true) (hsize : t.size? p = some size)
    (hn : n < pow2 (8 * size)) :
    ∃ w, ofBits n t = .ok w ∧ w.type = t ∧ w.bits = t.canonicalBits n := by
  have hfits : ∀ {bits : Nat}, 8 * size ≤ bits → (BitVec.ofNat bits n).toNat = n := fun hbits ↦
    Nat.mod_eq_of_lt (Nat.lt_of_lt_of_le hn (Nat.pow_le_pow_right Nat.two_pos hbits))
  cases t with
  | bool =>
    obtain rfl := Option.some.inj hsize
    have hbyte : n % 256 = n := Nat.mod_eq_of_lt hn
    refine ⟨_, rfl, rfl, ?_⟩
    rw [bits, CType.canonicalBits, hbyte]
    by_cases hzero : n = 0
    · rw [if_pos hzero, hzero]
      rfl
    · rw [if_neg hzero, bne_iff_ne.mpr hzero, Bool.toNat_true]
  | int w =>
    obtain rfl := Option.some.inj hsize
    exact ⟨_, rfl, rfl, hfits (Nat.le_of_eq w.eight_mul_bytes)⟩
  | float f =>
    obtain rfl := Option.some.inj hsize
    exact ⟨_, rfl, rfl, hfits (Nat.le_of_eq f.eight_mul_bytes)⟩
  | pointer =>
    obtain rfl := Option.some.inj hsize
    exact ⟨_, rfl, rfl, hfits (by cases p <;> decide)⟩
  | void | array => cases ht

theorem ofBytes_of_isScalar {size : Nat} {bytes : List UInt8} (ht : t.isScalar = true)
    (hsize : t.size? p = some size) (hlength : size ≤ bytes.length) :
    ofBytes p t bytes = ofBits (ofLittleEndian (bytes.take size)) t := by
  rw [ofBytes]
  · rw [hsize, Option.getD_some, if_neg (Nat.not_lt.mpr hlength)]
  · rintro rfl
    cases ht
  · rintro _ _ rfl
    cases ht

theorem ofBytes_of_short {size : Nat} {bytes : List UInt8} (ht : t.isScalar = true)
    (hsize : t.size? p = some size) (hshort : bytes.length < size) :
    ofBytes p t bytes = .error .outOfBounds := by
  rw [ofBytes]
  · rw [hsize, Option.getD_some, if_pos hshort]
  · rintro rfl
    cases ht
  · rintro _ _ rfl
    cases ht

theorem ofBytes_eq_ok {bytes : List UInt8} (hv : ofBytes p t bytes = .ok v) :
    ∃ size, t.isScalar = true ∧ t.size? p = some size ∧ size ≤ bytes.length ∧
      ofBits (ofLittleEndian (bytes.take size)) t = .ok v := by
  have ht : t.isScalar = true := by
    cases t with
    | void | array => cases hv
    | _ => rfl
  obtain ⟨size, -, hsize⟩ := CType.exists_size?_of_isScalar p ht
  have hlength : size ≤ bytes.length := by
    refine Nat.le_of_not_lt fun hshort ↦ ?_
    rw [ofBytes_of_short ht hsize hshort] at hv
    cases hv
  exact ⟨size, ht, hsize, hlength, ofBytes_of_isScalar ht hsize hlength ▸ hv⟩

/-- Some bytes of a value in a row are read as a value of another type: as its pattern without the
bytes before them and without those behind. -/
theorem exists_ofBytes_slice {k size : Nat} (ht : t.isScalar = true)
    (hsize : t.size? p = some size) (v : Value) (hslice : k + size ≤ v.byteCount p) :
    ∃ w, ofBytes p t (((v.toBytes p).drop k).take size) = .ok w ∧ w.type = t ∧
      w.bits = t.canonicalBits
        (v.bits % pow2 (8 * v.byteCount p) / pow2 (8 * k) % pow2 (8 * size)) := by
  have hlength : size ≤ (((v.toBytes p).drop k).take size).length := by
    rw [List.length_take, List.length_drop, length_toBytes]
    omega
  rw [ofBytes_of_isScalar ht hsize hlength, List.take_take, Nat.min_self, toBytes,
    ofLittleEndian_slice hslice]
  exact exists_ofBits ht hsize (Nat.mod_lt _ (pow2_pos _))

/-- A scalar is read back from its bytes without the bits that these do not hold. -/
theorem exists_ofBytes_toBytes (p : PointerSize) (hv : v.type.isScalar = true) :
    ∃ w, ofBytes p v.type (v.toBytes p) = .ok w ∧ w.type = v.type ∧
      w.bits = v.bits % pow2 (8 * v.byteCount p) := by
  obtain ⟨w, hw, htype, hbits⟩ := exists_ofBytes_slice hv (size?_type hv) v
    (Nat.le_of_eq (Nat.zero_add (v.byteCount p)))
  rw [List.drop_zero, List.take_of_length_le (Nat.le_of_eq (length_toBytes p v))] at hw
  rw [Nat.mul_zero, pow2_zero, Nat.div_one, Nat.mod_mod] at hbits
  refine ⟨w, hw, htype, hbits.trans ?_⟩
  cases v with
  | bool truth => cases truth <;> rfl
  | _ => rfl

theorem ofBytes_toBytes (hv : v.Storable p) : ofBytes p v.type (v.toBytes p) = .ok v := by
  have hlength : v.byteCount p = (v.toBytes p).length := (length_toBytes p v).symm
  rw [ofBytes_of_isScalar hv.isScalar (size?_type hv.isScalar) (Nat.le_of_eq hlength), hlength,
    List.take_length, toBytes, ofLittleEndian_littleEndian, Nat.mod_eq_of_lt hv.bits_lt]
  exact ofBits_bits v

private theorem ofBytes_append {bytes : List UInt8} (ht : t.isScalar = true)
    (hsize : t.size? p = some bytes.length) (rest : List UInt8) :
    ofBytes p t (bytes ++ rest) = ofBytes p t bytes := by
  have hlonger : bytes.length ≤ (bytes ++ rest).length := by
    rw [List.length_append]
    exact Nat.le_add_right _ _
  rw [ofBytes_of_isScalar ht hsize hlonger, ofBytes_of_isScalar ht hsize (Nat.le_refl _),
    List.take_left, List.take_length]

/-! ## Writing again what was read -/

/-- Enough bytes are read as a value, and it is written as the bytes it was read from. -/
theorem exists_ofBytes {size : Nat} {bytes : List UInt8} (ht : t.isScalar = true)
    (hsize : t.size? p = some size) (hlength : size ≤ bytes.length) :
    ∃ v, ofBytes p t bytes = .ok v ∧ v.type = t ∧
      v.toBytes p = t.canonicalBytes (bytes.take size) := by
  have htaken : (bytes.take size).length = size := List.length_take_of_le hlength
  have hlt := ofLittleEndian_lt (bytes.take size)
  rw [htaken] at hlt
  obtain ⟨v, hv, htype, hbits⟩ := exists_ofBits ht hsize hlt
  refine ⟨v, (ofBytes_of_isScalar ht hsize hlength).trans hv, htype, ?_⟩
  -- the value takes as many bytes as it was read from
  have hcount : v.byteCount p = (bytes.take size).length := by
    have hscalar : v.type.isScalar = true := htype ▸ ht
    rw [htaken, ← Option.some.injEq, ← size?_type hscalar, htype, hsize]
  have hwhole : t.size? p = some (bytes.take size).length := by rw [htaken, hsize]
  rw [toBytes, hbits, hcount, CType.littleEndian_canonicalBits hwhole]

/-- **The bytes of values.** A value that can be kept in memory takes exactly the bytes of its type,
and is read back from them, whatever comes behind them. A scalar is read from every row of bytes
that is not too short, which is the only failure, and written as the bytes it was read from, a
`_Bool` as one byte that is zero or one. Nothing is read at other types. -/
theorem byte_codec_round_trip (p : PointerSize) :
    (∀ v : Value, v.Storable p →
      v.type.size? p = some (v.toBytes p).length ∧
        ∀ rest, ofBytes p v.type (v.toBytes p ++ rest) = .ok v) ∧
      (∀ t bytes, t.isScalar = true → ∃ size, t.size? p = some size ∧
        ((∃ e, ofBytes p t bytes = .error e) ↔ bytes.length < size) ∧
        (bytes.length < size → ofBytes p t bytes = .error .outOfBounds) ∧
        ∀ v, ofBytes p t bytes = .ok v → v.type = t ∧
          v.toBytes p = t.canonicalBytes (bytes.take size)) ∧
      ∀ t bytes, (t = .void ∨ ∃ element length, t = .array element length) →
        ofBytes p t bytes = .error (.invalidOperands .load [t]) := by
  refine ⟨fun v hv ↦ ?_, fun t bytes ht ↦ ?_, fun t bytes ht ↦ ?_⟩
  · have hsize : v.type.size? p = some (v.toBytes p).length := by
      rw [length_toBytes, size?_type hv.isScalar]
    exact ⟨hsize, fun rest ↦ (ofBytes_append hv.isScalar hsize rest).trans (ofBytes_toBytes hv)⟩
  · obtain ⟨size, -, hsize⟩ := CType.exists_size?_of_isScalar p ht
    have hshort := fun h : bytes.length < size ↦ ofBytes_of_short ht hsize h
    refine ⟨size, hsize, ⟨fun ⟨e, he⟩ ↦ ?_, fun h ↦ ⟨_, hshort h⟩⟩, hshort, fun v hv ↦ ?_⟩
    · refine Nat.lt_of_not_le fun hlength ↦ ?_
      obtain ⟨v, hv, -⟩ := exists_ofBytes ht hsize hlength
      exact nomatch hv.symm.trans he
    · obtain ⟨size', -, hsize', hlength, -⟩ := ofBytes_eq_ok hv
      obtain rfl := Option.some.inj (hsize'.symm.trans hsize)
      obtain ⟨u, hu, htype, hbytes⟩ := exists_ofBytes ht hsize hlength
      obtain rfl := Except.ok.inj (hu.symm.trans hv)
      exact ⟨htype, hbytes⟩
  · rcases ht with rfl | ⟨element, length, rfl⟩ <;> rfl

/-- Where pointers have four bytes, the last address is read back from the first four of six bytes.
Any byte with a bit in it is a true `_Bool` and is written as one. Three bytes are not a `float`, and
nothing is a `void`. -/
theorem byte_codec_round_trip_narrow :
    let last := Value.pointer .plainInt { const := true } 0xFFFFFFFF
    last.Storable .bits32 ∧
      ofBytes .bits32 last.type ([0xFF, 0xFF, 0xFF, 0xFF] ++ [1, 2]) = .ok last ∧
      CType.bool.isScalar = true ∧ ofBytes .bits32 .bool [0x80, 7] = .ok (.bool true) ∧
      (Value.bool true).toBytes .bits32 = [1] ∧
      (CType.float .single).isScalar = true ∧
      ofBytes .bits32 (.float .single) [0, 0, 0x80] = .error .outOfBounds ∧
      ofBytes .bits32 .void [] = .error (.invalidOperands .load [.void]) := by
  intro last
  obtain ⟨hvalues, hscalars, hothers⟩ := byte_codec_round_trip .bits32
  have hlast : last.Storable .bits32 := show 0xFFFFFFFF < pow2 32 by decide
  have hbytes : last.toBytes .bits32 = [0xFF, 0xFF, 0xFF, 0xFF] := by decide
  have htrue : ofBytes .bits32 .bool [0x80, 7] = .ok (.bool true) := rfl
  obtain ⟨size, hsize, -, -, hwritten⟩ := hscalars .bool [0x80, 7] rfl
  obtain rfl : 1 = size := Option.some.inj hsize
  obtain ⟨size, hsize, -, hshort, -⟩ := hscalars (.float .single) [0, 0, 0x80] rfl
  obtain rfl : 4 = size := Option.some.inj hsize
  exact ⟨hlast, hbytes ▸ (hvalues last hlast).2 [1, 2], rfl, htrue, (hwritten _ htrue).2, rfl,
    hshort (by decide), hothers .void [] (.inl rfl)⟩

end Value

end CValues
