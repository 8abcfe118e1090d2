import CValues.Proofs.Heap.Bounds
import CValues.Proofs.Heap.Room

/-!
# The elements of a new array

An array is made by storing its elements one after the other into a new region, each at an address
that is computed anew. The bytes of the region are then those of the elements in a row, all of one
size, so the element at an index is found again where the index times the size leads, and no store
has touched the bytes of another element.
-/

namespace CValues.Heap

open CValues.Heap.Action

variable {target : Target} {h : Heap} {element : CType} {values : List Value} {a u : Value}
  {size : Nat}

/-! ## The bytes of the elements -/

theorem length_elementBytes (hsize : element.size? target.pointerSize = some size)
    (hall : AllConvert target element values) :
    (elementBytes target element values).length = values.length * size := by
  induction values with
  | nil => rw [elementBytes, List.length_nil, List.length_nil, Nat.zero_mul]
  | cons value rest ih =>
    obtain ⟨⟨u, hu⟩, hrest⟩ := List.forall_mem_cons.mp hall
    rw [elementBytes_cons rest hu, List.length_append, length_toBytes_of_convert hsize hu,
      ih hrest, List.length_cons, Nat.add_one_mul, Nat.add_comm]

/-- The bytes of an element lie behind as many times its size as its index says. -/
theorem slice_elementBytes (hsize : element.size? target.pointerSize = some size)
    (hall : AllConvert target element values) {i : Nat} (hi : i < values.length)
    (hu : (convert target .implicit values[i] element).result = .ok u) :
    ((elementBytes target element values).drop (i * size)).take size
      = u.toBytes target.pointerSize := by
  induction values generalizing i with
  | nil => simp at hi
  | cons value rest ih =>
    obtain ⟨⟨first, hfirst⟩, hrest⟩ := List.forall_mem_cons.mp hall
    have hlength := length_toBytes_of_convert hsize hfirst
    rw [elementBytes_cons rest hfirst]
    rcases i with _ | i
    · obtain rfl := Except.ok.inj (hfirst.symm.trans hu)
      rw [Nat.zero_mul, List.drop_zero, List.take_left' hlength]
    · have hindex : (i + 1) * size = (first.toBytes target.pointerSize).length + i * size := by
        rw [hlength, Nat.add_one_mul, Nat.add_comm]
      rw [hindex, List.drop_length_add_append]
      exact ih hrest (Nat.lt_of_succ_lt_succ hi) hu

/-! ## The region of the array -/

/-- An array that was made is a new region with the bytes of its elements. -/
theorem WellFormed.serve_allocArray (hwf : h.WellFormed)
    (hok : ((allocArray element values).run h).1.result = .ok a) :
    ∃ size next, element.size? h.target.pointerSize = some size ∧
      AllConvert h.target element values ∧
      h.Admits (elementBytes h.target element values).length next ∧
      a = .array element values.length (BitVec.ofNat 64 h.next) ∧
      h.serve (.allocArray element values)
        = h.made next (elementBytes h.target element values) := by
  obtain ⟨size, next, hsize, hroom, rfl⟩ := allocArray_eq_ok hok
  obtain ⟨result, houtcome, hresult⟩ := hwf.outcome_allocArray hsize hroom
  obtain ⟨hres, hserve⟩ := Prod.mk.inj houtcome
  have hall : AllConvert h.target element values := hresult.mp ⟨_, hres.symm.trans hok⟩
  have hlength := length_elementBytes hsize hall
  rw [Region.overwrite_all (hlength.trans List.length_replicate.symm)] at hserve
  exact ⟨size, next, hsize, hall, hlength ▸ hroom, rfl, hserve⟩

private theorem WellFormed.loadElement_made (hwf : h.WellFormed) {next i : Nat} {bytes : List UInt8}
    (hroom : h.Admits bytes.length next) (hsize : element.size? h.target.pointerSize = some size)
    (hpos : 0 < size) (hfit : (i + 1) * size ≤ bytes.length) (length : Nat) :
    ((h.made next bytes).loadElement (.array element length (BitVec.ofNat 64 h.next)) i).result
      = Value.seenAs h.target.pointerSize element (h.next + i * size)
          ((bytes.drop (i * size)).take size) := by
  rw [Nat.add_one_mul] at hfit
  have hbase : (BitVec.ofNat 64 h.next).toNat = h.next := hroom.toNat_ofNat (Nat.zero_le _)
  have haddress : elementAddress (h.made next bytes).target (BitVec.ofNat 64 h.next).toNat size i
      = h.next + i * size := by
    rw [hbase]
    exact elementAddress_natCast (hroom.add_lt (Nat.le_of_add_right_le hfit)).2
  have hholds : (Region.holding h.next bytes).Holds (h.next + i * size) size := by
    refine ⟨rfl, Nat.le_add_right _ _, ?_⟩
    rw [Nat.add_assoc]
    exact Nat.add_le_add_left hfit h.next
  rw [← haddress] at hholds
  have hload := (hwf.made hroom).loadElement_of_holds hsize hpos List.mem_cons_self hholds length
  have hindex : h.next + i * size - (Region.holding h.next bytes).base = i * size :=
    Nat.add_sub_cancel_left _ _
  rw [haddress, hindex] at hload
  exact hload

/-- **A new array holds the values it was made from.** It has the type of an array of so many
elements and a region of its own, which takes no address of any region before it. Each element is
loaded as its value converted to the type of the elements as in an assignment, cut to the bytes of
the type, by the array and by the pointer that it decays to. All regions from before are as they
were, and can be read as before. -/
theorem allocArray_holds_values (target : Target) (limit : Nat) (requests : List Request)
    (element : CType) (values : List Value) (a : Value) :
    let h := (empty target limit).after requests
    let h' := h.serve (.allocArray element values)
    ((allocArray element values).run h).1.result = .ok a →
      ∃ size, element.size? target.pointerSize = some size ∧
        a.type = .array element values.length ∧
        (∃ r ∈ h'.regions, r.isLive = true ∧ r.base = a.bits ∧ r.size = values.length * size) ∧
        h.Unused a.bits (values.length * size) ∧
        (∀ r ∈ h.regions, r ∈ h'.regions) ∧ h.KeptIn h' ∧
        (decayArray a element).result = .ok a.decay ∧
        ∀ (i : Nat) (hi : i < values.length), ∃ u w,
          (convert target .implicit values[i] element).result = .ok u ∧
          (h'.loadElement a i).result = .ok w ∧ (h'.loadElement a.decay i).result = .ok w ∧
          w.type = element ∧ w.bits = u.bits % pow2 (8 * size) := by
  intro h h' hok
  have hwf : h.WellFormed := wellFormed_after target limit requests
  have htarget : h.target = target := (evolves_after _ requests).target_eq_and_limit_eq.1
  obtain ⟨size, next, hsize, hall, hroom, rfl, hserve⟩ := hwf.serve_allocArray hok
  have hh' : h' = h.made next (elementBytes h.target element values) := hserve
  have hlength := length_elementBytes hsize hall
  have hbits : (BitVec.ofNat 64 h.next).toNat = h.next := hroom.toNat_ofNat (Nat.zero_le _)
  rw [hh']
  refine ⟨size, htarget ▸ hsize, rfl, ⟨_, List.mem_cons_self, rfl, hbits.symm, hlength⟩, ?_,
    fun r hr ↦ List.mem_cons_of_mem _ hr, hwf.keptIn_made hroom, ?_, fun i hi ↦ ?_⟩
  · rw [Value.bits, hbits]
    exact hwf.unused_next _
  · rw [decayArray, if_pos rfl]
    rfl
  · obtain ⟨u, hu⟩ := hall values[i] (List.getElem_mem hi)
    obtain ⟨hpos, hcount⟩ := size?_of_convert h.target.pointerSize hu
    obtain rfl := Option.some.inj (hcount.symm.trans hsize)
    have hload := hwf.loadElement_made hroom hsize hpos
      (hlength ▸ Nat.mul_le_mul_right _ hi) values.length
    obtain rfl := type_of_convert hu
    rw [slice_elementBytes hsize hall hi hu,
      Value.seenAs_of_isScalar (isScalar_of_convert hu)] at hload
    obtain ⟨w, hw, htype, hwbits⟩ :=
      Value.exists_ofBytes_toBytes h.target.pointerSize (isScalar_of_convert hu)
    rw [hw] at hload
    exact ⟨u, w, htarget ▸ hu, hload, hload, htype, hwbits⟩

/-- An array of pointers where addresses have 32 bits, behind a region that is in use: the null
constant becomes a pointer, and a pointer with more bits than an address is kept without them. -/
theorem allocArray_holds_values_narrow :
    let h := (empty ⟨.ilp32, .signed⟩).after [.alloc 8, .write 0x10000004 [7]]
    let values : List Value := [.plainInt 0, .pointerTo .plainInt 0x1AB0000CD]
    let a := Value.array (.pointerTo .void) 2 0x10000010
    let h' := h.serve (.allocArray (.pointerTo .void) values)
    ((allocArray (.pointerTo .void) values).run h).1.result = .ok a ∧
      h.Unused 0x10000010 8 ∧ h.KeptIn h' ∧
      (∃ w, (h'.loadElement a 0).result = .ok w ∧ w.bits = 0) ∧
      ∃ w, (h'.loadElement a 1).result = .ok w ∧ (h'.loadElement a.decay 1).result = .ok w ∧
        w.type = .pointerTo .void ∧ w.bits = 0xAB0000CD := by
  have hok : ((allocArray (.pointerTo .void) [.plainInt 0, .pointerTo .plainInt 0x1AB0000CD]).run
      ((empty ⟨.ilp32, .signed⟩).after [.alloc 8, .write 0x10000004 [7]])).1.result
      = .ok (.array (.pointerTo .void) 2 0x10000010) := by decide
  obtain ⟨size, hsize, -, -, hunused, -, hkept, -, helement⟩ :=
    allocArray_holds_values ⟨.ilp32, .signed⟩ defaultLimit [.alloc 8, .write 0x10000004 [7]]
      (.pointerTo .void) [.plainInt 0, .pointerTo .plainInt 0x1AB0000CD] _ hok
  obtain rfl := Option.some.inj hsize
  obtain ⟨u, first, hu, hfirst, -, -, hfirstBits⟩ := helement 0 (by decide)
  obtain ⟨v, second, hv, hsecond, hdecayed, htype, hsecondBits⟩ := helement 1 (by decide)
  obtain rfl := Except.ok.inj hu
  obtain rfl := Except.ok.inj hv
  exact ⟨hok, hunused, hkept, ⟨first, hfirst, hfirstBits⟩,
    ⟨second, hsecond, hdecayed, htype, hsecondBits⟩⟩

end CValues.Heap
