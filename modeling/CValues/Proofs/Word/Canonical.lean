import CValues.Proofs.Heap.Addresses
import CValues.Proofs.Word.Object
import Mathlib.Data.Set.List

/-!
# Canonical words

A word is canonical on a target if it has no bits above those of its type, and an address no bits
above those of an address there. Nothing keeps a machine from having other words, and it misreads
them: an integer is read without looking at what lies above its pattern. But no operation makes one
out of canonical words.

The canonical words are the words of those values whose address fits. So there are two things to
show, both done before: an operation on words of values gives words of values, which is where a
forgotten mask would be found, and an operation on values whose address fits gives such a value.
-/

namespace CValues

open Value

variable {p : PointerSize} {v : Value}

namespace TypedWord

/-- The word has no bits above those of its type, and an address is one of the target. There are no
words of type `void`. -/
def Canonical (p : PointerSize) (w : TypedWord) : Prop :=
  match w.type with
  | .void => False
  | .bool => w.bits.toNat ≤ 1
  | .int width _ => w.bits.toNat < pow2 width.bits
  | .float f => w.bits.toNat < pow2 f.bits
  | .pointer _ _ | .array _ _ => p.Fits w.bits.toNat

theorem canonical_word_iff : v.word.Canonical p ↔ v.Fits p := by
  rw [Canonical, toNat_bits_word, type_word]
  cases v with
  | bool truth => exact iff_of_true (Bool.toNat_le truth) trivial
  | int width s x => exact iff_of_true x.isLt trivial
  | float f x => exact iff_of_true x.isLt trivial
  | pointer | array => exact Iff.rfl

/-- Every canonical word is the word of a value. -/
theorem Canonical.exists_word {w : TypedWord} (hw : w.Canonical p) :
    ∃ v : Value, v.Fits p ∧ v.word = w := by
  obtain ⟨v, rfl⟩ : ∃ v : Value, v.word = w := by
    obtain ⟨bits, t⟩ := w
    have hself : BitVec.ofNat 64 bits.toNat = bits := by
      rw [BitVec.ofNat_toNat, BitVec.setWidth_eq]
    cases t with
    | void => exact hw.elim
    | bool =>
      rcases Nat.le_one_iff_eq_zero_or_eq_one.mp hw with hzero | hone
      · obtain rfl : bits = 0 := BitVec.eq_of_toNat_eq hzero
        exact ⟨.bool false, rfl⟩
      · obtain rfl : bits = 1 := BitVec.eq_of_toNat_eq hone
        exact ⟨.bool true, rfl⟩
    | int width s =>
      have hpattern : (BitVec.ofNat width.bits bits.toNat).toNat = bits.toNat := Nat.mod_eq_of_lt hw
      exact ⟨.int width s (BitVec.ofNat width.bits bits.toNat),
        congrArg (mk · _) ((congrArg (BitVec.ofNat 64) hpattern).trans hself)⟩
    | float f =>
      have hpattern : (BitVec.ofNat f.bits bits.toNat).toNat = bits.toNat := Nat.mod_eq_of_lt hw
      exact ⟨.float f (BitVec.ofNat f.bits bits.toNat),
        congrArg (mk · _) ((congrArg (BitVec.ofNat 64) hpattern).trans hself)⟩
    | pointer t q => exact ⟨.pointer t q bits, word_pointer t q bits⟩
    | array t n => exact ⟨.array t n bits, word_array t n bits⟩
  exact ⟨v, canonical_word_iff.mp hw, rfl⟩

/-- What an operation gives on words is canonical if what it gives on values fits. -/
theorem yields_canonical {x : Traced Value} (hx : x.Yields (Fits p)) :
    (word <$> x).Yields (Canonical p) := by
  intro w hw
  rw [map_eq_pure_bind] at hw
  obtain ⟨v, hv, hword⟩ := Traced.result_bind_eq_ok_iff.mp hw
  obtain rfl := Except.ok.inj hword
  exact canonical_word_iff.mpr (hx v hv)

private theorem run_yields_canonical {a : Heap.Action Value} {h : Heap}
    (ha : (a.run h).1.Yields (Fits p)) : ((word <$> a).run h).1.Yields (Canonical p) := by
  rw [Heap.Action.run_map]
  exact yields_canonical ha

/-! ## Making words -/

private theorem canonical_ofBool (truth : Bool) : (ofBool truth).Canonical p := by
  rw [← word_bool]
  exact canonical_word_iff.mpr trivial

private theorem canonical_ofInt (width : Width) (s : Signedness) (x : Int) :
    (ofInt width s x).Canonical p := by
  rw [← word_ofInt]
  exact canonical_word_iff.mpr trivial

private theorem canonical_ofPattern (f : FloatFormat) (x : f.Pattern) :
    (ofPattern f x).Canonical p := by
  rw [← word_float]
  exact canonical_word_iff.mpr trivial

private theorem canonical_ofBits {bits : BitVec 64} {t : CType} {w : TypedWord}
    (hbits : t.isArithmetic = true ∨ p.Fits bits.toNat) (hw : ofBits bits t = .ok w) :
    w.Canonical p := by
  rw [ofBits_eq] at hw
  rcases hv : Value.ofBits bits.toNat t with e | v
  · rw [hv] at hw
    cases hw
  · rw [hv] at hw
    obtain rfl := Except.ok.inj hw
    refine canonical_word_iff.mpr ?_
    cases t with
    | void => cases hv
    | bool | int | float =>
      obtain rfl := Except.ok.inj hv
      trivial
    | pointer | array =>
      obtain rfl := Except.ok.inj hv
      have hfits := hbits.resolve_left Bool.false_ne_true
      exact Nat.lt_of_le_of_lt (Nat.mod_le _ _) hfits

/-! ## Sameness -/

/-- Canonical integers of one type are the same exactly if they stand for the same integer. -/
theorem same_iff_integer?_eq {w w' : TypedWord} (hw : w.Canonical p) (hw' : w'.Canonical p)
    (htype : w.type = w'.type) (hinteger : w.type.isInteger = true) :
    w.same w' = true ↔ w.integer? = w'.integer? := by
  obtain ⟨v, -, rfl⟩ := hw.exists_word
  obtain ⟨v', -, rfl⟩ := hw'.exists_word
  rw [same_word, integer?_word, integer?_word]
  cases v with
  | bool b => cases v' with
    | bool c => cases b <;> cases c <;> decide
    | int | float | pointer | array => cases htype
  | int width s x => cases v' with
    | int width' s' y =>
      obtain ⟨rfl, rfl⟩ := CType.int.inj htype
      change (int width s x == int width s y) = true ↔ some (s.read x) = some (s.read y)
      rw [beq_iff_eq, Option.some.injEq, Signedness.read_inj, int.injEq]
      simp
    | bool | float | pointer | array => cases htype
  | float | pointer | array => cases hinteger

/-! ## Operations on words -/

section Operations

variable {target : Target} {w w' : TypedWord}

theorem Canonical.promoted (hw : w.Canonical p) : w.promote.Canonical p := by
  obtain ⟨v, hv, rfl⟩ := hw.exists_word
  rw [promote_word]
  exact canonical_word_iff.mpr hv.promote

theorem Canonical.yields_convert (hw : w.Canonical target.pointerSize) (kind : ConversionKind)
    (t : CType) : (w.convert target kind t).Yields (Canonical target.pointerSize) := by
  obtain ⟨v, hv, rfl⟩ := hw.exists_word
  rw [convert_word]
  exact yields_canonical (convert_yields_fits kind t hv)

theorem Canonical.yields_reinterpret (hw : w.Canonical p) (pointee : CType) :
    (w.reinterpret pointee).Yields (Canonical p) := by
  obtain ⟨v, hv, rfl⟩ := hw.exists_word
  rw [reinterpret_word]
  exact yields_canonical (reinterpret_yields_fits pointee hv)

theorem Canonical.yields_decayArray (hw : w.Canonical p) (element : CType) :
    (w.decayArray element).Yields (Canonical p) := by
  obtain ⟨v, hv, rfl⟩ := hw.exists_word
  rw [decayArray_word]
  exact yields_canonical (decayArray_yields_fits element hv)

theorem Canonical.yields_unary (hw : w.Canonical p) (op : UnaryOp) :
    (w.unary op).Yields (Canonical p) := by
  obtain ⟨v, -, rfl⟩ := hw.exists_word
  rw [unary_word]
  exact yields_canonical (unary_yields_fits op v)

theorem Canonical.yields_binary (hw : w.Canonical target.pointerSize)
    (hw' : w'.Canonical target.pointerSize) (op : BinaryOp) :
    (w.binary target op w').Yields (Canonical target.pointerSize) := by
  obtain ⟨v, -, rfl⟩ := hw.exists_word
  obtain ⟨v', -, rfl⟩ := hw'.exists_word
  rw [binary_word]
  exact yields_canonical (binary_yields_fits target op v v')

theorem Canonical.yields_compare (hw : w.Canonical p) (hw' : w'.Canonical p) (target : Target)
    (op : CompareOp) : (w.compare target op w').Yields (Canonical p) := by
  obtain ⟨v, -, rfl⟩ := hw.exists_word
  obtain ⟨v', -, rfl⟩ := hw'.exists_word
  rw [compare_word]
  exact yields_canonical (compareValues_yields_fits target op v v')

theorem Canonical.yields_logical (hw : w.Canonical p) (hw' : w'.Canonical p) (op : LogicalOp) :
    (w.logical op w').Yields (Canonical p) := by
  obtain ⟨v, -, rfl⟩ := hw.exists_word
  obtain ⟨v', -, rfl⟩ := hw'.exists_word
  rw [logical_word]
  exact yields_canonical (logical_yields_fits op v v')

theorem yields_evalWord {e : Expr}
    (hliterals : ∀ v ∈ e.literals, v.word.Canonical target.pointerSize) :
    (e.evalWord target).Yields (Canonical target.pointerSize) := by
  rw [Expr.evalWord_eq]
  exact yields_canonical (Expr.eval_yields_fits fun v hv ↦ canonical_word_iff.mp (hliterals v hv))

end Operations

/-! ## Operations of the heap -/

section HeapOperations

variable {h : Heap} {w : TypedWord}

theorem Canonical.yields_load (hw : w.Canonical h.target.pointerSize) :
    (load h w).Yields (Canonical h.target.pointerSize) := by
  obtain ⟨v, hv, rfl⟩ := hw.exists_word
  rw [load_word]
  exact yields_canonical (h.load_yields_fits hv)

theorem Canonical.yields_elementPointer (hw : w.Canonical h.target.pointerSize) (index : Int) :
    (elementPointer h w index).Yields (Canonical h.target.pointerSize) := by
  obtain ⟨v, -, rfl⟩ := hw.exists_word
  rw [elementPointer_word]
  exact yields_canonical (h.elementPointer_yields_fits v index)

theorem Canonical.yields_loadElement (hw : w.Canonical h.target.pointerSize) (index : Int) :
    (loadElement h w index).Yields (Canonical h.target.pointerSize) := by
  obtain ⟨v, -, rfl⟩ := hw.exists_word
  rw [loadElement_word]
  exact yields_canonical (h.loadElement_yields_fits v index)

theorem Canonical.yields_addressOf (hw : w.Canonical h.target.pointerSize) :
    ((addressOf w).run h).1.Yields (Canonical h.target.pointerSize) := by
  obtain ⟨v, -, rfl⟩ := hw.exists_word
  rw [addressOf_word]
  exact run_yields_canonical (h.addressOf_yields_fits v)

theorem yields_callocTyped (h : Heap) (count : Nat) (t : CType) :
    ((callocTyped count t).run h).1.Yields (Canonical h.target.pointerSize) := by
  rw [callocTyped_word]
  exact run_yields_canonical (h.callocTyped_yields_fits count t)

theorem yields_allocArray {words : List TypedWord}
    (hwords : ∀ w ∈ words, w.Canonical h.target.pointerSize) (element : CType) :
    ((allocArray element words).run h).1.Yields (Canonical h.target.pointerSize) := by
  have hrange : words ∈ Set.range (List.map word) := by
    rw [Set.range_list_map]
    intro w hw
    obtain ⟨v, -, rfl⟩ := (hwords w hw).exists_word
    exact ⟨v, rfl⟩
  obtain ⟨values, rfl⟩ := hrange
  rw [allocArray_word]
  exact run_yields_canonical (h.allocArray_yields_fits element values)

end HeapOperations

/-! ## All results -/

/-- **Canonical words stay canonical.** On every target, words are made canonical, and what the
conversions, the operators, the evaluation of an expression and the typed operations of the heap
give on canonical words is canonical, if anything. So two words of one integer type are the same
exactly if they stand for the same integer. -/
theorem results_canonical (target : Target) :
    let canonical := Canonical target.pointerSize
    ((∀ truth, canonical (ofBool truth)) ∧ (∀ width s x, canonical (ofInt width s x)) ∧
      (∀ bits, canonical (ofWord bits)) ∧ (∀ f x, canonical (ofPattern f x)) ∧
      ∀ bits t w, t.isArithmetic = true ∨ target.pointerSize.Fits bits.toNat →
        ofBits bits t = .ok w → canonical w) ∧
    (∀ w, canonical w →
      canonical w.promote ∧
      (∀ kind t, (w.convert target kind t).Yields canonical) ∧
      (∀ pointee, (w.reinterpret pointee).Yields canonical) ∧
      (∀ element, (w.decayArray element).Yields canonical) ∧
      ∀ op, (w.unary op).Yields canonical) ∧
    (∀ v w, canonical v → canonical w →
      (∀ op, (v.binary target op w).Yields canonical) ∧
      (∀ op, (v.compare target op w).Yields canonical) ∧
      ∀ op, (v.logical op w).Yields canonical) ∧
    (∀ e : Expr, (∀ v ∈ e.literals, canonical v.word) → (e.evalWord target).Yields canonical) ∧
    (∀ h : Heap, h.target = target →
      (∀ pointer, canonical pointer →
        (load h pointer).Yields canonical ∧
        ∀ index, (elementPointer h pointer index).Yields canonical ∧
          (loadElement h pointer index).Yields canonical) ∧
      (∀ w, canonical w → ((addressOf w).run h).1.Yields canonical) ∧
      (∀ count t, ((callocTyped count t).run h).1.Yields canonical) ∧
      ∀ element words, (∀ w ∈ words, canonical w) →
        ((allocArray element words).run h).1.Yields canonical) ∧
    ∀ v w, canonical v → canonical w → v.type = w.type → v.type.isInteger = true →
      (v.same w = true ↔ v.integer? = w.integer?) := by
  refine ⟨⟨canonical_ofBool, canonical_ofInt, fun bits ↦ bits.isLt, canonical_ofPattern,
    fun bits t w ↦ canonical_ofBits⟩, fun w hw ↦ ?_, fun v w hv hw ↦ ?_, fun e ↦ yields_evalWord,
    ?_, fun v w ↦ same_iff_integer?_eq⟩
  · exact ⟨hw.promoted, hw.yields_convert, hw.yields_reinterpret, hw.yields_decayArray,
      hw.yields_unary⟩
  · exact ⟨hv.yields_binary hw, hv.yields_compare hw target, hv.yields_logical hw⟩
  · rintro h rfl
    refine ⟨fun pointer hpointer ↦ ⟨hpointer.yields_load, fun index ↦ ?_⟩,
      fun w hw ↦ hw.yields_addressOf, yields_callocTyped h,
      fun element words hwords ↦ yields_allocArray hwords element⟩
    exact ⟨hpointer.yields_elementPointer index, hpointer.yields_loadElement index⟩

/-- A byte with a bit above its pattern is not canonical and is misread. None comes of narrowing a
negative number, and the bytes for -1 and 255 are the same. Where addresses have 32 bits none has
more, neither after a cast and a step past the last address nor after a pointer was stored and
loaded. -/
theorem results_canonical_narrow :
    let target : Target := ⟨.ilp32, .signed⟩
    let byte : CType := .int .w8 .unsigned
    let moved : Expr := .binary .add
      (.cast (.pointerTo .plainInt) (.literal (.ofInt .w64 .signed (-1)))) (.char 'A')
    let last := pointerTo .plainInt 0xFFFFFFFF
    let h := ((addressOf last).run (.empty target)).2
    ¬ Canonical .bits32 ⟨0x1FF, byte⟩ ∧ integer? ⟨0x1FF, byte⟩ = some 511 ∧
      ((plainInt (-1)).convert target .implicit byte).result = .ok ⟨0xFF, byte⟩ ∧
      Canonical .bits32 ⟨0xFF, byte⟩ ∧ same ⟨0xFF, byte⟩ (ofInt .w8 .unsigned 255) = true ∧
      (moved.evalWord target).result = .ok (pointerTo .plainInt 0x103) ∧
      Canonical .bits32 (pointerTo .plainInt 0x103) ∧
      (load h (pointerTo (.pointerTo .plainInt) 0x10000000)).result = .ok last ∧
      Canonical .bits32 last := by
  intro target byte moved last h
  obtain ⟨⟨-, hmade, -⟩, hone, -, heval, hheap, hsame⟩ := results_canonical target
  have hnarrowed : ((plainInt (-1)).convert target .implicit byte).result = .ok ⟨0xFF, byte⟩ := by
    decide
  have hbyte := (hone (plainInt (-1)) (hmade .w32 .signed (-1))).2.1 .implicit byte _ hnarrowed
  have hliterals : ∀ v ∈ moved.literals, v.word.Canonical .bits32 := by
    rintro v (_ | ⟨_, hv⟩)
    · exact canonical_word_iff.mpr trivial
    · cases hv
  have hmoved : (moved.evalWord target).result = .ok (pointerTo .plainInt 0x103) := by decide
  have hplace : Canonical .bits32 (pointerTo (.pointerTo .plainInt) 0x10000000) := by
    change PointerSize.bits32.Fits 0x10000000
    decide
  have hloaded : (load h (pointerTo (.pointerTo .plainInt) 0x10000000)).result = .ok last := by
    decide
  refine ⟨?_, by decide, hnarrowed, hbyte, ?_, hmoved, heval moved hliterals _ hmoved, hloaded,
    ((hheap h (by decide)).1 _ hplace).1 _ hloaded⟩
  · change ¬ 0x1FF < pow2 8
    decide
  · exact (hsame ⟨0xFF, byte⟩ (ofInt .w8 .unsigned 255) hbyte (hmade .w8 .unsigned 255) rfl rfl).mpr
      (by decide)

end TypedWord

end CValues
