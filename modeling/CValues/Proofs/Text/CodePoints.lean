import CValues.CodePoint
import CValues.Proofs.Comparison.Order
import CValues.Proofs.Integer.Division

/-!
# The number of code points

A byte continues a code point if its two leading bits are `10`. The count reads each byte as a plain
`char`, promotes it and masks it, and so has to see those two bits wherever `char` has a sign: then
a byte with its leading bit set is a negative `int`, with ones above the byte. The mask has none
there, and what it leaves is that of the byte itself.

So the outcome is a count of bytes that no target has a part in. In the encoding of a text every
code point has one byte that does not continue it, the first one, and none of its bytes is zero
unless it is the code point zero; the count is the length of the text.
-/

namespace CValues

/-! ## Bytes -/

/-- The two leading bits of the byte are `10`. -/
def isContinuation (byte : UInt8) : Bool := byte >>> 6 == 0b10

private theorem isContinuation_iff {byte : UInt8} :
    isContinuation byte = true ↔ byte.toNat / 64 = 2 := by
  rw [isContinuation, beq_iff_eq, ← UInt8.toNat_inj, UInt8.toNat_shiftRight]
  exact Iff.of_eq (congrArg (· = 2) (Nat.shiftRight_eq_div_pow _ 6))

/-- A mask sees nothing of the bits above it. -/
theorem and_setWidth {k n : Nat} (x : BitVec n) (mask : BitVec k) :
    x &&& mask.setWidth n = (x.setWidth k &&& mask).setWidth n := by
  refine BitVec.eq_of_getLsbD_eq fun i hi ↦ ?_
  by_cases hik : i < k
  · simp [hi, hik]
  · simp [BitVec.getLsbD_of_ge mask i (Nat.le_of_not_lt hik)]

private theorem Width.setWidth_truncate_read {v w : Width} (hvw : v.bits ≤ w.bits) (s : Signedness)
    (p : BitVec v.bits) : (w.truncate (s.read p)).setWidth v.bits = p := by
  have hcut := truncate_read_truncate hvw .unsigned (s.read p)
  rwa [truncate_read, Signedness.read, truncate, BitVec.ofInt_natCast, BitVec.ofNat_toNat] at hcut

/-- What the mask of the two leading bits leaves of a byte that continues a code point. -/
theorem setWidth_and_eq_iff : ∀ p : BitVec Width.w8.bits,
    (p &&& Width.w8.truncate 0xC0).setWidth Width.w32.bits = Width.w32.truncate 0x80 ↔
      p.toNat / 64 = 2 := by
  decide

/-! ## Counting -/

/-- Whatever the sign of a plain `char`, the mask leaves the same of it. -/
theorem result_and_leadMask (target : Target) (s : Signedness) (p : BitVec Width.w8.bits) :
    (binary target .and (.int .w8 s p) leadMask).result
      = .ok (.int .w32 .signed ((p &&& Width.w8.truncate 0xC0).setWidth Width.w32.bits)) := by
  have hcommon : (IntType.mk .w8 s).promoted.common IntType.int.promoted = IntType.int := by
    cases s <;> rfl
  have hleads : leadMask.integer? = some 0xC0 := rfl
  have hmask : Width.w32.truncate 0xC0
      = (Width.w8.truncate 0xC0).setWidth Width.w32.bits := rfl
  have hlow : (Width.w32.truncate (s.read p)).setWidth Width.w8.bits = p :=
    Width.setWidth_truncate_read (by decide) s p
  rw [Machine.result_binary_of_common rfl rfl hleads rfl hcommon rfl]
  change Except.ok (Value.int .w32 .signed
    (Width.w32.truncate (s.read p) &&& Width.w32.truncate 0xC0)) = _
  rw [hmask, and_setWidth, hlow]

private theorem result_ne_int (target : Target) (p q : BitVec Width.w32.bits) :
    (compareValues target .ne (.int .w32 .signed p) (.int .w32 .signed q)).result
      = .ok (outcomeInt (p != q)) := by
  have hordered := ordered_integers (v := .int .w32 .signed p) (w := .int .w32 .signed q)
    rfl rfl rfl rfl target .ne
  have hholds : CompareOp.ne.holds (some (compare (Signedness.signed.read p)
      (Signedness.signed.read q))) = (p != q) := by
    rw [Bool.eq_iff_iff, CompareOp.holds_compare_iff, CompareOp.Relates, bne_iff_ne, ne_eq,
      Signedness.read_inj]
  rw [hordered.result_compareValues, IntType.taken_eq_self (.inl rfl),
    IntType.taken_eq_self (.inl rfl), hholds]

theorem result_beginsCodePoint (target : Target) (byte : UInt8) :
    (beginsCodePoint target byte).result = .ok (!isContinuation byte) := by
  let p := BitVec.ofNat Width.w8.bits byte.toNat
  have hp : p.toNat = byte.toNat := Nat.mod_eq_of_lt byte.toNat_lt
  have hbegins : ((p &&& Width.w8.truncate 0xC0).setWidth Width.w32.bits != Width.w32.truncate 0x80)
      = !isContinuation byte := by
    rw [Bool.eq_iff_iff, bne_iff_ne, ne_eq, setWidth_and_eq_iff, hp, ← isContinuation_iff,
      Bool.not_eq_true', Bool.not_eq_true]
  -- the byte as a plain `char`, then masked, then compared
  refine Traced.result_bind_eq_ok_iff.mpr ⟨.int .w8 target.plainChar p, rfl, ?_⟩
  refine Traced.result_bind_eq_ok_iff.mpr ⟨_, result_and_leadMask target _ p, ?_⟩
  refine Traced.result_bind_eq_ok_iff.mpr ⟨_, result_ne_int target _ _, ?_⟩
  rw [hbegins]
  cases isContinuation byte <;> rfl

private theorem result_countLeads (target : Target) (bytes : List UInt8) :
    (countLeads target bytes).result = .ok (bytes.countP fun byte ↦ !isContinuation byte) := by
  induction bytes with
  | nil => rfl
  | cons byte rest ih =>
    refine Traced.result_bind_eq_ok_iff.mpr ⟨_, result_beginsCodePoint target byte, ?_⟩
    refine Traced.result_bind_eq_ok_iff.mpr ⟨_, ih, ?_⟩
    rw [Traced.result_pure, List.countP_cons, Nat.add_comm]
    cases isContinuation byte <;> rfl

/-! ## Encoded texts -/

private theorem isContinuation_ofNat {n : Nat} (hn : n < 256) :
    isContinuation (UInt8.ofNat n) = decide (n / 64 = 2) := by
  rw [Bool.eq_iff_iff, isContinuation_iff, UInt8.toNat_ofNat', Nat.mod_eq_of_lt hn,
    decide_eq_true_iff]

/-- What the bytes of a code point have in common: the first begins it, the others continue it, and
only the code point zero begins with a zero byte. -/
def IsEncoding (c : Char) (bytes : List UInt8) : Prop :=
  ∃ lead tail, bytes = lead :: tail ∧ isContinuation lead = false ∧
    (∀ byte ∈ tail, isContinuation byte = true) ∧ (lead = 0 → c = '\x00')

private theorem isEncoding_singleton {c : Char} (hc : c.val.toNat < 128) :
    IsEncoding c [UInt8.ofNat c.val.toNat] := by
  refine ⟨_, _, rfl, ?_, nofun, fun hzero ↦ ?_⟩
  · rw [isContinuation_ofNat (by omega), decide_eq_false_iff_not]
    omega
  · rw [← UInt8.toNat_inj, UInt8.toNat_ofNat', Nat.mod_eq_of_lt (by omega)] at hzero
    exact Char.ext (UInt32.toNat_inj.mp hzero)

/-- A longer encoding has both leading bits set in its first byte and six bits of the code point in
each of the others. -/
theorem isEncoding_cons {n : Nat} (hleast : 0xC0 ≤ n) (hn : n < 256) (c : Char) (rest : List Nat) :
    IsEncoding c (UInt8.ofNat n :: rest.map fun m ↦ UInt8.ofNat (m % 64 + 128)) := by
  refine ⟨_, _, rfl, ?_, List.forall_mem_map.mpr fun m _ ↦ ?_, fun hzero ↦ ?_⟩
  · rw [isContinuation_ofNat hn, decide_eq_false_iff_not]
    omega
  · rw [isContinuation_ofNat (by omega), decide_eq_true_iff]
    omega
  · rw [← UInt8.toNat_inj, UInt8.toNat_ofNat', Nat.mod_eq_of_lt hn, UInt8.toNat_zero] at hzero
    omega

theorem isEncoding_utf8EncodeChar (c : Char) : IsEncoding c (String.utf8EncodeChar c) := by
  rw [String.utf8EncodeChar]
  split_ifs with hone htwo hthree
  · exact isEncoding_singleton (Nat.lt_succ_of_le hone)
  · exact isEncoding_cons (by omega) (by omega) c [c.val.toNat]
  · exact isEncoding_cons (by omega) (by omega) c [c.val.toNat / 64, c.val.toNat]
  · exact isEncoding_cons (by omega) (by omega) c
      [c.val.toNat / 4096, c.val.toNat / 64, c.val.toNat]

private theorem IsEncoding.countP {c : Char} {bytes : List UInt8} (h : IsEncoding c bytes) :
    (bytes.countP fun byte ↦ !isContinuation byte) = 1 := by
  obtain ⟨lead, tail, rfl, hlead, htail, -⟩ := h
  have hnone : (tail.countP fun byte ↦ !isContinuation byte) = 0 :=
    List.countP_eq_zero.mpr fun byte hbyte ↦ by simp [htail byte hbyte]
  rw [List.countP_cons, hnone, hlead]
  rfl

private theorem IsEncoding.ne_zero {c : Char} {bytes : List UInt8} (h : IsEncoding c bytes)
    (hc : c ≠ '\x00') {byte : UInt8} (hbyte : byte ∈ bytes) : byte ≠ 0 := by
  obtain ⟨lead, tail, rfl, -, htail, hzero⟩ := h
  rintro rfl
  rcases List.mem_cons.mp hbyte with rfl | hmem
  · exact hc (hzero rfl)
  · exact absurd (htail 0 hmem) (by decide)

private theorem countP_flatMap_utf8EncodeChar (text : List Char) :
    ((text.flatMap String.utf8EncodeChar).countP fun byte ↦ !isContinuation byte)
      = text.length := by
  induction text with
  | nil => rfl
  | cons c rest ih =>
    rw [List.flatMap_cons, List.countP_append, (isEncoding_utf8EncodeChar c).countP, ih,
      List.length_cons, Nat.add_comm]

/-- The count of a text ends where the text does, if a zero byte or nothing follows it. -/
theorem result_countCodePoints_text {text : List Char} (htext : '\x00' ∉ text) (target : Target)
    (rest : List UInt8) (hrest : rest.takeWhile (· != 0) = []) :
    (countCodePoints target (text.flatMap String.utf8EncodeChar ++ rest)).result
      = .ok text.length := by
  have hnonzero : ∀ byte ∈ text.flatMap String.utf8EncodeChar, (byte != 0) = true := by
    intro byte hbyte
    obtain ⟨c, hc, hmem⟩ := List.mem_flatMap.mp hbyte
    have hne : c ≠ '\x00' := fun heq ↦ htext (heq ▸ hc)
    exact bne_iff_ne.mpr ((isEncoding_utf8EncodeChar c).ne_zero hne hmem)
  rw [countCodePoints, List.takeWhile_append_of_pos hnonzero, hrest, List.append_nil,
    result_countLeads, countP_flatMap_utf8EncodeChar]

/-- **Counting code points.** The count always succeeds, and is the number of bytes before the first
zero whose leading bits are not `10`. So it is the same on every target. Of an encoded text without
zeros it is the number of code points, whether the bytes end with the text or go on after a zero. -/
theorem code_points_counted :
    (∀ target bytes, (countCodePoints target bytes).result
      = .ok ((bytes.takeWhile (· != 0)).countP fun byte ↦ !isContinuation byte)) ∧
      (∀ t₁ t₂ bytes, (countCodePoints t₁ bytes).result = (countCodePoints t₂ bytes).result) ∧
      ∀ (target : Target) (text : List Char), '\x00' ∉ text →
        (countCodePoints target (text.flatMap String.utf8EncodeChar)).result = .ok text.length ∧
          ∀ rest, (countCodePoints target (text.flatMap String.utf8EncodeChar ++ 0 :: rest)).result
            = .ok text.length := by
  refine ⟨fun target bytes ↦ result_countLeads target _, fun t₁ t₂ bytes ↦ ?_,
    fun target text htext ↦ ⟨?_, fun rest ↦ ?_⟩⟩
  · exact (result_countLeads t₁ _).trans (result_countLeads t₂ _).symm
  · have hend := result_countCodePoints_text htext target [] rfl
    rwa [List.append_nil] at hend
  · exact result_countCodePoints_text htext target (0 :: rest) rfl

/-- Two code points of two and four bytes, whose bytes are all negative where plain `char` has a
sign; after the zero there is a third one. Bytes that only continue code points begin none. -/
theorem code_points_counted_signed :
    let bytes : List UInt8 := [0xC3, 0xA9, 0xF0, 0x9F, 0x98, 0x80]
    '\x00' ∉ ['é', '😀'] ∧ ['é', '😀'].flatMap String.utf8EncodeChar = bytes ∧
      (countCodePoints ⟨.lp64, .signed⟩ (bytes ++ 0 :: [0x41])).result = .ok 2 ∧
      (countCodePoints ⟨.ilp32, .unsigned⟩ bytes).result = .ok 2 ∧
      (countCodePoints {} [0xBF, 0x80, 0x00, 0x41]).result = .ok 0 := by
  intro bytes
  obtain ⟨hcount, hsame, htexts⟩ := code_points_counted
  have hbytes : ['é', '😀'].flatMap String.utf8EncodeChar = bytes := by decide
  have htext : '\x00' ∉ ['é', '😀'] := by decide
  obtain ⟨hend, hzero⟩ := htexts ⟨.lp64, .signed⟩ _ htext
  rw [hbytes] at hend hzero
  exact ⟨htext, hbytes, hzero [0x41], (hsame _ _ bytes).trans hend, hcount {} _⟩

end CValues
