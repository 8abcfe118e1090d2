import CValues.Proofs.Expr.Addresses
import CValues.Proofs.Heap.Access
import CValues.Proofs.Heap.Making

/-!
# Addresses from the heap

Whatever bytes lie in the heap, a pointer that is read from them has an address of the target: it
takes as many bytes as the target's addresses have. An array is not read but stands at the address
it was loaded from, and this has to fit. The addresses that are handed out fit because an allocation
is refused where the next address would not.
-/

namespace CValues

variable {p : PointerSize} {t : CType} {v : Value}

namespace Value

private theorem fits_of_ofBytes {bytes : List UInt8} (hv : ofBytes p t bytes = .ok v) :
    v.Fits p := by
  obtain ⟨size, ht, hsize, hlength, hv⟩ := ofBytes_eq_ok hv
  cases t with
  | void | array => cases ht
  | bool | int | float =>
    obtain rfl := Except.ok.inj hv
    exact fits_of_isArithmetic rfl
  | pointer pointee q =>
    obtain rfl := Except.ok.inj hv
    obtain rfl := Option.some.inj hsize
    have hbits := ofLittleEndian_lt (bytes.take p.bytes)
    rw [List.length_take, Nat.min_eq_left hlength, PointerSize.bytes, p.width.eight_mul_bytes]
      at hbits
    exact Nat.lt_of_le_of_lt (Nat.mod_le _ _) hbits

private theorem fits_of_seenAs {address : Nat} {bytes : List UInt8} (hfits : p.Fits address)
    (hv : seenAs p t address bytes = .ok v) : v.Fits p := by
  cases t with
  | array element length =>
    obtain rfl := Except.ok.inj hv
    exact Nat.lt_of_le_of_lt (Nat.mod_le _ _) hfits
  | void => cases hv
  | bool | int | float | pointer =>
    rw [seenAs_of_isScalar rfl] at hv
    exact fits_of_ofBytes hv

end Value

open Value

namespace Heap

variable {h : Heap}

theorem load_yields_fits {pointer : Value}
    (hpointer : pointer.Fits h.target.pointerSize) :
    (h.load pointer).Yields (Fits h.target.pointerSize) := by
  intro v hv
  obtain ⟨t, q, a, size, r, offset, rfl, -, -, -, hseen⟩ := load_eq_ok hv
  exact fits_of_seenAs hpointer hseen

theorem elementPointer_yields_fits (h : Heap) (pointer : Value) (index : Int) :
    (h.elementPointer pointer index).Yields (Fits h.target.pointerSize) :=
  binary_yields_fits h.target .add pointer _

theorem loadElement_yields_fits (h : Heap) (pointer : Value) (index : Int) :
    (h.loadElement pointer index).Yields (Fits h.target.pointerSize) :=
  (h.elementPointer_yields_fits pointer index).bind fun _ ↦ load_yields_fits

theorem addressOf_yields_fits (h : Heap) (v : Value) :
    ((addressOf v).run h).1.Yields (Fits h.target.pointerSize) := by
  intro u hu
  obtain ⟨size, next, -, hroom, rfl⟩ := addressOf_eq_ok hu
  exact hroom.fits_next

theorem callocTyped_yields_fits (h : Heap) (count : Nat) (t : CType) :
    ((callocTyped count t).run h).1.Yields (Fits h.target.pointerSize) := by
  intro u hu
  obtain ⟨size, next, -, hroom, rfl⟩ := callocTyped_eq_ok hu
  exact hroom.fits_next

theorem allocArray_yields_fits (h : Heap) (element : CType) (values : List Value) :
    ((allocArray element values).run h).1.Yields (Fits h.target.pointerSize) := by
  intro u hu
  obtain ⟨size, next, -, hroom, rfl⟩ := allocArray_eq_ok hu
  exact hroom.fits_next

end Heap

end CValues
