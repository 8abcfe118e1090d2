import CValues.Proofs.Heap.Lookup
import CValues.Proofs.Heap.Outcome
import CValues.Proofs.Value.Codec

/-!
# Loading through a pointer

What a pointer to an object reads is decided by the region that its address lies in: the load
succeeds exactly if the whole object lies in that region, and gives what the bytes there stand for.
Nothing else about the pointer is looked at, neither where it came from nor what it was made for.
-/

namespace CValues

namespace Value

variable {p : PointerSize} {t : CType} {address : Nat} {bytes : List UInt8}

/-- The object of a type that lies at an address with these bytes. An array is not read, only its
address is taken. -/
def seenAs (p : PointerSize) (t : CType) (address : Nat) (bytes : List UInt8) :
    Except Error Value :=
  match t with
  | .array element length => .ok (.array element length (BitVec.ofNat 64 address))
  | t => ofBytes p t bytes

theorem seenAs_of_isScalar (ht : t.isScalar = true) :
    seenAs p t address bytes = ofBytes p t bytes := by
  cases t with
  | array => cases ht
  | _ => rfl

theorem exists_seenAs (hsize : t.size? p = some bytes.length) (address : Nat) :
    ∃ v, seenAs p t address bytes = .ok v := by
  have hscalar : t.isScalar = true → ∃ v, seenAs p t address bytes = .ok v := by
    intro ht
    rw [seenAs_of_isScalar ht, ofBytes_of_isScalar ht hsize (Nat.le_refl _)]
    cases t with
    | void | array => cases ht
    | _ => exact ⟨_, rfl⟩
  cases t with
  | void => cases hsize
  | array => exact ⟨_, rfl⟩
  | _ => exact hscalar rfl

end Value

namespace Region

/-- Some bytes of the region, from an offset on. -/
def slice (r : Region) (offset size : Nat) : List UInt8 :=
  ((r.bytes?.getD []).drop offset).take size

theorem Filled.length_slice {r : Region} (hfilled : r.Filled) (hlive : r.isLive = true)
    {offset size : Nat} (hfit : offset + size ≤ r.size) : (r.slice offset size).length = size := by
  rw [Filled, used_of_isLive hlive] at hfilled
  rw [slice, List.length_take, List.length_drop, hfilled]
  omega

end Region

namespace Heap

variable {h : Heap} {t : CType} {a : BitVec 64} {r : Region} {offset size : Nat}

theorem offset_le_of_locate? {address : Nat} (hr : h.locate? address = some (r, offset)) :
    offset ≤ r.size := by
  obtain ⟨-, -, rfl, hx⟩ := locate?_eq_some hr
  rw [Region.mem_footprint_iff, Region.stop] at hx
  omega

/-- An object is read at a handle that is large enough from the bytes at its address. -/
theorem readAs_eq (hsize : t.size? h.target.pointerSize = some size) (handle : Handle) :
    h.readAs handle t =
      if handle.size < size then .error .outOfBounds
      else (h.read handle.address size).bind
        (Value.seenAs h.target.pointerSize t handle.address) := by
  rw [readAs, objectSize, hsize]
  rfl

/-- An object is read if it lies inside the region as a whole. -/
theorem readAs_of_located {address : Nat} (hr : h.locate? address = some (r, offset))
    (hsize : t.size? h.target.pointerSize = some size) :
    h.readAs ⟨address, r.size - offset⟩ t =
      if offset + size ≤ r.size then
        Value.seenAs h.target.pointerSize t address (r.slice offset size)
      else .error .outOfBounds := by
  have hoffset := offset_le_of_locate? hr
  rw [readAs_eq hsize]
  dsimp only
  by_cases hfit : offset + size ≤ r.size
  · rw [if_pos hfit, if_neg (by omega), read_of_located hr hfit]
    rfl
  · rw [if_neg hfit, if_pos (by omega)]

theorem WellFormed.ne_zero_of_located (hwf : h.WellFormed)
    (hr : h.locate? a.toNat = some (r, offset)) : a ≠ 0 := by
  obtain ⟨hmem, -, haddress, -⟩ := locate?_eq_some hr
  rintro rfl
  exact hwf.base_ne_zero hmem (Nat.eq_zero_of_add_eq_zero_right haddress.symm)

theorem load_of_located (ha : a ≠ 0) (hr : h.locate? a.toNat = some (r, offset))
    (hsize : t.size? h.target.pointerSize = some size) (q : Qualifiers) :
    (h.load (.pointer t q a)).result =
      if offset + size ≤ r.size then
        Value.seenAs h.target.pointerSize t a.toNat (r.slice offset size)
      else .error .outOfBounds := by
  have hvoid : t ≠ .void := by
    rintro rfl
    cases hsize
  rw [load, dereference_pointer hvoid ha, pure_bind]
  dsimp only
  rw [handleAt_of_located hr, ← readAs_of_located hr hsize]
  rfl

theorem load_eq_ok {pointer v : Value} (hok : (h.load pointer).result = .ok v) :
    ∃ t q a size r offset, pointer = .pointer t q a ∧
      t.size? h.target.pointerSize = some size ∧ h.locate? a.toNat = some (r, offset) ∧
      offset + size ≤ r.size ∧
      Value.seenAs h.target.pointerSize t a.toNat (r.slice offset size) = .ok v := by
  have hload := hok
  obtain ⟨⟨address, t⟩, hfollow, hok⟩ := Traced.result_bind_eq_ok_iff.mp hok
  obtain ⟨q, a, rfl, ha, -, rfl⟩ := dereference_eq_ok hfollow
  obtain ⟨handle, hhandle, hok⟩ := Traced.result_bind_eq_ok_iff.mp hok
  rcases hr : h.locate? a.toNat with _ | ⟨r, offset⟩
  · have herror := (handleAt_of_not_located hr).symm.trans hhandle
    cases herror
  rcases hsize : t.size? h.target.pointerSize with _ | size
  · change h.readAs handle t = .ok v at hok
    rw [readAs, objectSize, hsize] at hok
    cases hok
  rw [load_of_located ha hr hsize] at hload
  split_ifs at hload with hfit
  exact ⟨t, q, a, size, r, offset, rfl, hsize, hr, hfit, hload⟩

/-- A pointer to an object reads something exactly if the object lies in the region at its address
as a whole. -/
theorem WellFormed.exists_load_iff (hwf : h.WellFormed)
    (hsize : t.size? h.target.pointerSize = some size) (q : Qualifiers) (a : BitVec 64) :
    (∃ v, (h.load (.pointer t q a)).result = .ok v) ↔
      ∃ r offset, h.locate? a.toNat = some (r, offset) ∧ offset + size ≤ r.size := by
  constructor
  · rintro ⟨v, hok⟩
    obtain ⟨t', q', a', size', r, offset, hpointer, hsize', hr, hfit, -⟩ := load_eq_ok hok
    obtain ⟨rfl, rfl, rfl⟩ := Value.pointer.inj hpointer
    obtain rfl := Option.some.inj (hsize.symm.trans hsize')
    exact ⟨r, offset, hr, hfit⟩
  · rintro ⟨r, offset, hr, hfit⟩
    obtain ⟨hmem, hlive, -, -⟩ := locate?_eq_some hr
    have hlength := (hwf.filled r hmem).length_slice hlive hfit
    rw [load_of_located (hwf.ne_zero_of_located hr) hr hsize, if_pos hfit]
    exact Value.exists_seenAs (hlength.symm ▸ hsize) _

end Heap

end CValues
