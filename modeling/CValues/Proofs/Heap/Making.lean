import CValues.Proofs.Conversion.Domain
import CValues.Proofs.Heap.Lookup
import CValues.Proofs.Heap.Outcome
import CValues.Proofs.Pointer.Offset
import CValues.Proofs.Value.Codec

/-!
# Making objects

Taking the address of a value and making an array of values first allocate a region and then store
into it. All the while the heap is the one from before with one more region on top, whose bytes are
filled in from the left: `made` is that heap, and a store into the new region is again of this form.

The stores can fail, because a value need not convert to the type of its place, and what was done
until then stays: the new region with the bytes of the values before that one.
-/

namespace CValues

namespace Region

variable {bytes data : List UInt8} {base offset : Nat}

/-- A live region with these bytes. -/
def holding (base : Nat) (bytes : List UInt8) : Region := ⟨base, bytes.length, some bytes⟩

private theorem zeroed_eq_holding (base size : Nat) :
    zeroed base size = holding base (List.replicate size 0) := by
  rw [zeroed, holding, List.length_replicate]

theorem overwrite_nil (bytes : List UInt8) (offset : Nat) : overwrite bytes offset [] = bytes := by
  rw [overwrite, List.length_nil, Nat.add_zero, List.nil_append, List.take_append_drop]

theorem overwrite_all (hlength : data.length = bytes.length) : overwrite bytes 0 data = data := by
  rw [overwrite, List.take_zero, List.nil_append, Nat.zero_add, hlength, List.drop_length,
    List.append_nil]

/-- Bytes that are written one after the other might as well be written together. -/
theorem overwrite_overwrite (hoffset : offset ≤ bytes.length) (first second : List UInt8) :
    overwrite (overwrite bytes offset first) (offset + first.length) second
      = overwrite bytes offset (first ++ second) := by
  have hfront : (bytes.take offset ++ first).length = offset + first.length := by
    rw [List.length_append, List.length_take, Nat.min_eq_left hoffset]
  have hsplit : overwrite bytes offset first
      = (bytes.take offset ++ first) ++ bytes.drop (offset + first.length) :=
    (List.append_assoc _ _ _).symm
  rw [overwrite, hsplit, ← hfront, List.take_left, List.drop_length_add_append, List.drop_drop,
    hfront, overwrite, List.length_append, List.append_assoc, List.append_assoc, Nat.add_assoc]

private theorem write_holding (hfit : offset + data.length ≤ bytes.length) :
    (holding base bytes).write offset data = holding base (overwrite bytes offset data) := by
  rw [holding, holding, length_overwrite hfit]
  rfl

end Region

namespace Heap

open CValues.Heap.Action

variable {h : Heap} {bytes data : List UInt8} {next offset size : Nat}

/-! ## The heap with a new region -/

/-- The heap with a region of these bytes at the next address. -/
def made (h : Heap) (next : Nat) (bytes : List UInt8) : Heap :=
  { h with
    regions := .holding h.next bytes :: h.regions
    next := next
    inUse := h.inUse + bytes.length }

theorem allocated_eq_made (h : Heap) (size next : Nat) :
    h.allocated size next = h.made next (List.replicate size 0) := by
  rw [allocated, made, Region.zeroed_eq_holding, List.length_replicate]

theorem made_ne (h : Heap) (next : Nat) (bytes : List UInt8) : h.made next bytes ≠ h := by
  intro heq
  exact List.cons_ne_self _ _ (congrArg regions heq)

/-- Replacing bytes of the new region leaves the others as they are. -/
theorem WellFormed.overwritten_made (hwf : h.WellFormed) (next : Nat)
    (hfit : offset + data.length ≤ bytes.length) :
    (h.made next bytes).overwritten (.holding h.next bytes) offset data
      = h.made next (Region.overwrite bytes offset data) := by
  have hothers : (h.regions.map fun r ↦ if r.base = h.next then r.write offset data else r)
      = h.regions := by
    refine (List.map_congr_left fun r hr ↦ if_neg ?_).trans (List.map_id h.regions)
    exact (r.base_lt_stop.trans_le (hwf.below r hr)).ne
  have hregions : (h.made next bytes).updateAt h.next (fun r ↦ r.write offset data)
      = .holding h.next (Region.overwrite bytes offset data) :: h.regions := by
    rw [updateAt, made, List.map_cons, hothers, if_pos (by rfl), Region.write_holding hfit]
  conv_rhs => rw [made, ← hregions, Region.length_overwrite hfit]
  rfl

theorem WellFormed.made (hwf : h.WellFormed) (hroom : h.Admits bytes.length next) :
    (h.made next bytes).WellFormed := by
  have hzeroed := hwf.allocated hroom.limit hroom.address
  rw [allocated_eq_made] at hzeroed
  have hlength : bytes.length = (List.replicate bytes.length (0 : UInt8)).length :=
    List.length_replicate.symm
  have hfit : 0 + bytes.length ≤ (List.replicate bytes.length (0 : UInt8)).length := by
    rw [Nat.zero_add, ← hlength]
  -- the new region is filled by one write over all of its bytes
  have hfilled := hzeroed.overwritten (hzeroed.locate?_base List.mem_cons_self rfl) hfit
  rwa [hwf.overwritten_made next hfit, Region.overwrite_all hlength] at hfilled

/-! ## Addresses in the new region -/

theorem Admits.add_lt (hroom : h.Admits size next) (hoffset : offset ≤ size) :
    h.next + offset < pow2 64 ∧ h.target.pointerSize.Fits (h.next + offset) := by
  obtain ⟨rfl, hstop, hfits⟩ := nextAddress?_eq_some hroom.address
  have hle : h.next + max size 1 ≤ alignUp (h.next + max size 1) := le_alignUp _
  rw [PointerSize.Fits] at hfits ⊢
  omega

theorem Admits.toNat_ofNat (hroom : h.Admits size next) (hoffset : offset ≤ size) :
    (BitVec.ofNat 64 (h.next + offset)).toNat = h.next + offset :=
  Nat.mod_eq_of_lt (hroom.add_lt hoffset).1

theorem Admits.fits_next (hroom : h.Admits size next) :
    h.target.pointerSize.Fits (BitVec.ofNat 64 h.next).toNat := by
  have haddress : (BitVec.ofNat 64 h.next).toNat = h.next := hroom.toNat_ofNat (Nat.zero_le _)
  rw [haddress]
  exact (hroom.add_lt (Nat.zero_le _)).2

theorem WellFormed.next_pos (hwf : h.WellFormed) : 0 < h.next :=
  (firstAddress_pos _).trans_le (Nat.le_of_add_right_le hwf.room)

private theorem Admits.ofNat_ne_zero (hroom : h.Admits size next) (hwf : h.WellFormed)
    (hoffset : offset ≤ size) : BitVec.ofNat 64 (h.next + offset) ≠ 0 := by
  intro hzero
  have hnat := hroom.toNat_ofNat hoffset
  rw [hzero] at hnat
  exact Nat.ne_of_gt (Nat.add_pos_left hwf.next_pos offset) hnat.symm

private theorem WellFormed.locate?_made (hwf : h.WellFormed) (hroom : h.Admits bytes.length next)
    (hoffset : offset < bytes.length) :
    (h.made next bytes).locate? (h.next + offset) = some (.holding h.next bytes, offset) := by
  have hmem : h.next + offset ∈ (Region.holding h.next bytes).footprint :=
    ⟨Nat.le_add_right _ _, Nat.add_lt_add_left (Nat.lt_of_lt_of_le hoffset (Nat.le_max_left _ _)) _⟩
  have hlocate := (hwf.made hroom).locate?_of_mem_footprint List.mem_cons_self rfl hmem
  rwa [show h.next + offset - (Region.holding h.next bytes).base = offset from
    Nat.add_sub_cancel_left _ _] at hlocate

/-! ## Storing into the new region -/

section Store

variable {t element : CType} {value u : Value}

theorem size?_of_convert {target : Target} {kind : ConversionKind} (p : PointerSize)
    (hu : (convert target kind value t).result = .ok u) :
    0 < u.byteCount p ∧ t.size? p = some (u.byteCount p) := by
  obtain rfl := type_of_convert hu
  have hscalar := isScalar_of_convert hu
  obtain ⟨n, hpos, hn⟩ := CType.exists_size?_of_isScalar p hscalar
  have hcount := Value.size?_type (p := p) hscalar
  rw [hn] at hcount
  exact ⟨Option.some.inj hcount ▸ hpos, hn.trans hcount⟩

private theorem WellFormed.outcome_store_made (hwf : h.WellFormed)
    (hroom : h.Admits bytes.length next)
    (hu : (convert h.target .implicit value t).result = .ok u) (offset : Nat)
    (hfit : offset + u.byteCount h.target.pointerSize ≤ bytes.length) :
    (store (.pointerTo t (h.next + offset)) value).outcome (h.made next bytes)
      = (.ok (), h.made next
          (Region.overwrite bytes offset (u.toBytes h.target.pointerSize))) := by
  obtain ⟨hpos, hsize⟩ := size?_of_convert h.target.pointerSize hu
  have hvoid : t ≠ .void := by
    rintro rfl
    cases hsize
  have hlocate := hwf.locate?_made hroom
    (Nat.lt_of_lt_of_le (Nat.lt_add_of_pos_right hpos) hfit)
  have hoffset : offset ≤ bytes.length := Nat.le_of_add_right_le hfit
  have hlength : offset + (u.toBytes h.target.pointerSize).length ≤ bytes.length := by
    rwa [Value.length_toBytes]
  calc (store (.pointerTo t (h.next + offset)) value).outcome (h.made next bytes)
    _ = (write (BitVec.ofNat 64 (h.next + offset)).toNat
          (u.toBytes h.target.pointerSize)).outcome (h.made next bytes) :=
      outcome_store_of_ok hvoid (hroom.ofNat_ne_zero hwf hoffset) hu
    _ = (.ok (), (h.made next bytes).overwritten (.holding h.next bytes) offset
          (u.toBytes h.target.pointerSize)) := by
      rw [hroom.toNat_ofNat hoffset, outcome_write_of_fits hlocate hlength]
    _ = _ := by rw [hwf.overwritten_made next hlength]

private theorem Admits.outcome_elementPointer (hroom : h.Admits bytes.length next)
    {length index : Nat} (hsize : element.size? h.target.pointerSize = some length)
    (hpos : 0 < length) (hfit : index * length ≤ bytes.length) :
    (ofHeap fun k ↦ k.elementPointer (.pointerTo element h.next) index).outcome (h.made next bytes)
      = (.ok (.pointerTo element (h.next + index * length)), h.made next bytes) := by
  have hbase : (BitVec.ofNat 64 h.next).toNat = h.next := hroom.toNat_ofNat (Nat.zero_le _)
  have haddress : (h.target.addressWidth.truncate ((h.next : Int) + index * length)).toNat
      = h.next + index * length := by
    rw [← Int.natCast_mul, ← Int.natCast_add]
    exact Width.toNat_truncate_of_lt (hroom.add_lt hfit).2
  refine Prod.ext ?_ rfl
  change (h.elementPointer (.pointerTo element h.next) index).result = _
  rw [Value.pointerTo, result_elementPointer hsize hpos, hbase, haddress]
  rfl

/-- The element of an array of objects without size has no address. -/
theorem elementPointer_of_zero (hsize : element.size? h.target.pointerSize = some 0) (a : Nat)
    (index : Int) : ∃ e, (h.elementPointer (.pointerTo element a) index).result = .error e := by
  have hnone : elementSize h.target .add element
      = .error (.invalidOperands (.binary .add) [.pointerTo element]) := by
    rw [elementSize, hsize]
  refine ⟨.invalidOperands (.binary .add) [.pointerTo element], ?_⟩
  change (liftM (elementSize h.target .add element) >>= _ : Traced Value).result = _
  rw [hnone]
  rfl

/-- The bytes of some values at a type, one after another, up to the first value that does not
convert to the type. -/
def elementBytes (target : Target) (element : CType) : List Value → List UInt8
  | [] => []
  | value :: rest =>
    match (convert target .implicit value element).result with
    | .ok u => u.toBytes target.pointerSize ++ elementBytes target element rest
    | .error _ => []

/-- Every value converts to the type as in an assignment. -/
def AllConvert (target : Target) (element : CType) (values : List Value) : Prop :=
  ∀ value ∈ values, ∃ u, (convert target .implicit value element).result = .ok u

section Elements

variable {target : Target} {length index : Nat} {rest : List Value}

theorem not_allConvert_iff {values : List Value} : ¬ AllConvert target element values ↔
    ∃ value ∈ values, ∀ u, (convert target .implicit value element).result ≠ .ok u := by
  simp [AllConvert]

theorem elementBytes_cons (rest : List Value)
    (hu : (convert target .implicit value element).result = .ok u) :
    elementBytes target element (value :: rest)
      = u.toBytes target.pointerSize ++ elementBytes target element rest := by
  rw [elementBytes, hu]

theorem length_toBytes_of_convert (hsize : element.size? target.pointerSize = some length)
    (hu : (convert target .implicit value element).result = .ok u) :
    (u.toBytes target.pointerSize).length = length := by
  obtain ⟨-, hcount⟩ := size?_of_convert target.pointerSize hu
  rw [Value.length_toBytes, Option.some.inj (hcount.symm.trans hsize)]

theorem length_elementBytes_le (hsize : element.size? target.pointerSize = some length)
    (values : List Value) :
    (elementBytes target element values).length ≤ values.length * length := by
  induction values with
  | nil => exact Nat.zero_le _
  | cons value rest ih =>
    rcases hu : (convert target .implicit value element).result with e | u
    · rw [elementBytes, hu]
      exact Nat.zero_le _
    · rw [elementBytes_cons rest hu, List.length_append, length_toBytes_of_convert hsize hu,
        List.length_cons, Nat.add_one_mul, Nat.add_comm]
      exact Nat.add_le_add_right ih _

/-- An element that converts is stored in its place, and the others follow. -/
theorem WellFormed.outcome_storeElements_of_ok (hwf : h.WellFormed)
    (hroom : h.Admits bytes.length next)
    (hsize : element.size? h.target.pointerSize = some length)
    (hfit : (index + 1) * length ≤ bytes.length)
    (hu : (convert h.target .implicit value element).result = .ok u) :
    (storeElements (.pointerTo element h.next) index (value :: rest)).outcome (h.made next bytes)
      = (storeElements (.pointerTo element h.next) (index + 1) rest).outcome (h.made next
          (Region.overwrite bytes (index * length) (u.toBytes h.target.pointerSize))) := by
  obtain ⟨hpos, hcount⟩ := size?_of_convert h.target.pointerSize hu
  obtain rfl := Option.some.inj (hsize.symm.trans hcount)
  rw [Nat.add_one_mul] at hfit
  rw [storeElements, outcome_bind_of_ok
    (hroom.outcome_elementPointer hsize hpos (Nat.le_of_add_right_le hfit))]
  exact outcome_bind_of_ok (hwf.outcome_store_made hroom hu _ hfit)

/-- An element that does not convert ends the row, and nothing is stored for it. -/
theorem WellFormed.outcome_storeElements_of_error (hwf : h.WellFormed)
    (hroom : h.Admits bytes.length next)
    (hsize : element.size? h.target.pointerSize = some length)
    (hfit : index * length ≤ bytes.length) {e : Error}
    (he : (convert h.target .implicit value element).result = .error e) (rest : List Value) :
    ∃ e', (storeElements (.pointerTo element h.next) index (value :: rest)).outcome
      (h.made next bytes) = (.error e', h.made next bytes) := by
  rw [storeElements]
  rcases Nat.eq_zero_or_pos length with rfl | hpos
  · obtain ⟨e', he'⟩ := elementPointer_of_zero hsize h.next index
    exact ⟨e', outcome_bind_of_error (Prod.ext he' rfl)⟩
  · have hvoid : element ≠ .void := by
      rintro rfl
      cases hsize
    rw [outcome_bind_of_ok (hroom.outcome_elementPointer hsize hpos hfit)]
    exact ⟨e, outcome_bind_of_error
      (outcome_store_of_error hvoid (hroom.ofNat_ne_zero hwf hfit) he)⟩

/-- Storing elements fills the new region with their bytes from the left, up to the first that does
not convert, and succeeds exactly if there is none. -/
theorem WellFormed.outcome_storeElements (hwf : h.WellFormed)
    (hsize : element.size? h.target.pointerSize = some length) (values : List Value) (index : Nat)
    (hroom : h.Admits bytes.length next) (hfit : (index + values.length) * length ≤ bytes.length) :
    ∃ result, (storeElements (.pointerTo element h.next) index values).outcome (h.made next bytes)
        = (result, h.made next
            (Region.overwrite bytes (index * length) (elementBytes h.target element values))) ∧
      (result = .ok () ↔ AllConvert h.target element values) := by
  -- the bytes change with every store, but not their number
  induction values generalizing index bytes with
  | nil =>
    refine ⟨.ok (), ?_, iff_of_true rfl (List.forall_mem_nil _)⟩
    rw [elementBytes, Region.overwrite_nil]
    rfl
  | cons value rest ih =>
    rw [List.length_cons, Nat.add_comm rest.length, ← Nat.add_assoc] at hfit
    have hfirst : (index + 1) * length ≤ bytes.length :=
      (Nat.mul_le_mul_right length (Nat.le_add_right _ _)).trans hfit
    have hindex : index * length ≤ bytes.length :=
      (Nat.mul_le_mul_right length (Nat.le_add_right _ _)).trans hfirst
    rcases hu : (convert h.target .implicit value element).result with e | u
    · obtain ⟨e', he'⟩ := hwf.outcome_storeElements_of_error hroom hsize hindex hu rest
      refine ⟨.error e', ?_, iff_of_false nofun fun hall ↦ ?_⟩
      · rw [he', elementBytes, hu, Region.overwrite_nil]
      · obtain ⟨u, hu'⟩ := hall value List.mem_cons_self
        rw [hu] at hu'
        cases hu'
    · have hcount := length_toBytes_of_convert hsize hu
      have hlength : (Region.overwrite bytes (index * length)
          (u.toBytes h.target.pointerSize)).length = bytes.length := by
        refine Region.length_overwrite ?_
        rwa [hcount, ← Nat.add_one_mul]
      obtain ⟨result, houtcome, hresult⟩ := ih (index + 1) (hlength ▸ hroom) (hlength ▸ hfit)
      refine ⟨result, ?_, ?_⟩
      · have hstart : (index + 1) * length
            = index * length + (u.toBytes h.target.pointerSize).length := by
          rw [hcount, Nat.add_one_mul]
        rw [hwf.outcome_storeElements_of_ok hroom hsize hfirst hu, houtcome, hstart,
          Region.overwrite_overwrite hindex, elementBytes_cons rest hu]
      · rw [hresult, AllConvert, AllConvert, List.forall_mem_cons]
        exact (and_iff_right ⟨u, hu⟩).symm

end Elements

end Store

/-! ## Objects of a type -/

section Sized

variable {α : Type} {operation : Operation} {t : CType} {make : Nat → Action Handle}
  {f : Nat → Handle → Action α}

private theorem outcome_objectSize (hsize : t.size? h.target.pointerSize = some size)
    (operation : Operation) :
    (ofHeap fun h ↦ .ofExcept (h.objectSize operation t)).outcome h = (.ok size, h) := by
  refine Prod.ext ?_ rfl
  change h.objectSize operation t = _
  rw [objectSize, hsize]

/-- What is made for a type of known size, and what is then done with it. -/
theorem outcome_sized {handle : Handle} {h' : Heap}
    (hsize : t.size? h.target.pointerSize = some size)
    (hmake : (make size).outcome h = (.ok handle, h')) :
    (ofHeap (fun h ↦ .ofExcept (h.objectSize operation t)) >>= fun size ↦
      make size >>= f size).outcome h = (f size handle).outcome h' := by
  rw [outcome_bind_of_ok (outcome_objectSize hsize operation), outcome_bind_of_ok hmake]

/-- Nothing is made for a type without a size or where there is no room. -/
theorem declines_sized
    (hfull : ∀ size, t.size? h.target.pointerSize = some size →
      (make size).Declines h) :
    (ofHeap (fun h ↦ .ofExcept (h.objectSize operation t)) >>= fun size ↦
      make size >>= f size).Declines h := by
  rcases hsize : t.size? h.target.pointerSize with _ | size
  · refine ⟨.invalidOperands operation [t], h, outcome_bind_of_error (Prod.ext ?_ rfl), .refused⟩
    change h.objectSize operation t = _
    rw [objectSize, hsize]
  · obtain ⟨e, h', he, hdeclined⟩ := hfull size hsize
    rw [Declines, outcome_bind_of_ok (outcome_objectSize hsize operation)]
    exact ⟨e, h', outcome_bind_of_error he, hdeclined⟩

/-- What has been made for a type that has a size, if all went well, and from what. -/
theorem sized_eq_ok {x : α}
    (hok : ((ofHeap (fun h ↦ .ofExcept (h.objectSize operation t)) >>= fun size ↦
      make size >>= f size).run h).1.result = .ok x) :
    ∃ size handle, t.size? h.target.pointerSize = some size ∧
      ((make size).run h).1.result = .ok handle ∧
      ((f size handle).run ((make size).run h).2).1.result = .ok x := by
  obtain ⟨size, hsize, hok⟩ := result_bind_eq_ok hok
  obtain ⟨handle, hmake, hok⟩ := result_bind_eq_ok hok
  refine ⟨size, handle, ?_, hmake, hok⟩
  change h.objectSize operation t = .ok size at hsize
  rw [objectSize] at hsize
  split at hsize
  · next hsome => rw [hsome, Except.ok.inj hsize]
  · cases hsize

theorem outcome_callocTyped {count : Nat} (hsize : t.size? h.target.pointerSize = some size)
    (hroom : h.Admits (count * size) next) :
    (callocTyped count t).outcome h
      = (.ok (.pointerTo t h.next), h.allocated (count * size) next) :=
  outcome_sized hsize (outcome_calloc hroom)

theorem declines_callocTyped {count : Nat}
    (hfull : ∀ size next, t.size? h.target.pointerSize = some size →
      ¬ h.Admits (count * size) next) : (callocTyped count t).Declines h :=
  declines_sized fun size hsize ↦ declines_calloc fun next ↦ hfull size next hsize

theorem callocTyped_eq_ok {count : Nat} {u : Value}
    (hok : ((callocTyped count t).run h).1.result = .ok u) :
    ∃ size next, t.size? h.target.pointerSize = some size ∧ h.Admits (count * size) next ∧
      u = .pointerTo t h.next := by
  obtain ⟨size, handle, hsize, hmake, hok⟩ := sized_eq_ok hok
  obtain ⟨⟨next, hroom⟩, haddress⟩ := admits_of_calloc hmake
  exact ⟨size, next, hsize, hroom, haddress ▸ (Except.ok.inj hok).symm⟩

end Sized

section AddressOf

variable {v : Value}

theorem WellFormed.outcome_addressOf (hwf : h.WellFormed) (hv : v.type.isScalar = true)
    (hroom : h.Admits (v.byteCount h.target.pointerSize) next) :
    (addressOf v).outcome h = (.ok (.pointerTo v.type h.next),
      h.made next (v.toBytes h.target.pointerSize)) := by
  have hlength : v.byteCount h.target.pointerSize
      = (List.replicate (v.byteCount h.target.pointerSize) (0 : UInt8)).length :=
    List.length_replicate.symm
  have hstore := hwf.outcome_store_made (hlength ▸ hroom)
    (result_convert_self h.target .implicit hv) 0 (by rw [Nat.zero_add, ← hlength])
  rw [Region.overwrite_all (by rw [Value.length_toBytes, ← hlength])] at hstore
  rw [addressOf, outcome_sized (Value.size?_type hv) (outcome_alloc hroom), allocated_eq_made]
  exact outcome_bind_of_ok hstore

/-- The region for an array is made, but an array cannot be stored into it. -/
theorem WellFormed.outcome_addressOf_of_not_scalar (hwf : h.WellFormed)
    (hv : v.type.isScalar = false) (hsize : v.type.size? h.target.pointerSize = some size)
    (hroom : h.Admits size next) :
    ∃ e, (addressOf v).outcome h = (.error e, h.allocated size next) := by
  have hvoid : v.type ≠ .void := by
    intro hvoid
    rw [hvoid] at hsize
    cases hsize
  rcases hu : (convert h.target .implicit v v.type).result with e | u
  · refine ⟨e, ?_⟩
    rw [addressOf, outcome_sized hsize (outcome_alloc hroom)]
    exact outcome_bind_of_error
      (outcome_store_of_error hvoid (hroom.ofNat_ne_zero hwf (Nat.zero_le _)) hu)
  · rw [isScalar_of_convert hu] at hv
    cases hv

theorem declines_addressOf
    (hfull : ∀ size next, v.type.size? h.target.pointerSize = some size → ¬ h.Admits size next) :
    (addressOf v).Declines h :=
  declines_sized fun size hsize ↦ declines_alloc fun next ↦ hfull size next hsize

theorem addressOf_eq_ok {u : Value} (hok : ((addressOf v).run h).1.result = .ok u) :
    ∃ size next, v.type.size? h.target.pointerSize = some size ∧ h.Admits size next ∧
      u = .pointerTo v.type h.next := by
  obtain ⟨size, handle, hsize, hmake, hok⟩ := sized_eq_ok hok
  obtain ⟨⟨next, hroom⟩, haddress⟩ := admits_of_alloc hmake
  obtain ⟨-, -, hok⟩ := result_bind_eq_ok hok
  exact ⟨size, next, hsize, hroom, haddress ▸ (Except.ok.inj hok).symm⟩

end AddressOf

section AllocArray

variable {element : CType} {values : List Value}

/-- An array is a new region with the bytes of its elements, as far as they convert to its type. -/
theorem WellFormed.outcome_allocArray (hwf : h.WellFormed)
    (hsize : element.size? h.target.pointerSize = some size)
    (hroom : h.Admits (values.length * size) next) :
    ∃ result, (allocArray element values).outcome h = (result, h.made next
        (Region.overwrite (List.replicate (values.length * size) 0) 0
          (elementBytes h.target element values))) ∧
      ((∃ a, result = .ok a) ↔ AllConvert h.target element values) := by
  have hlength : values.length * size
      = (List.replicate (values.length * size) (0 : UInt8)).length := List.length_replicate.symm
  obtain ⟨result, houtcome, hresult⟩ := hwf.outcome_storeElements hsize values 0
    (hlength ▸ hroom) (by rw [Nat.zero_add, ← hlength])
  rw [Nat.zero_mul] at houtcome
  rw [allocArray, outcome_sized hsize (outcome_calloc hroom), allocated_eq_made]
  rcases result with e | ⟨⟩
  · refine ⟨.error e, outcome_bind_of_error houtcome, ?_⟩
    rw [← hresult]
    exact iff_of_false nofun nofun
  · exact ⟨_, outcome_bind_of_ok houtcome, iff_of_true ⟨_, rfl⟩ (hresult.mp rfl)⟩

theorem declines_allocArray
    (hfull : ∀ size next, element.size? h.target.pointerSize = some size →
      ¬ h.Admits (values.length * size) next) : (allocArray element values).Declines h :=
  declines_sized fun size hsize ↦ declines_calloc fun next ↦ hfull size next hsize

theorem allocArray_eq_ok {u : Value}
    (hok : ((allocArray element values).run h).1.result = .ok u) :
    ∃ size next, element.size? h.target.pointerSize = some size ∧
      h.Admits (values.length * size) next ∧
      u = .array element values.length (BitVec.ofNat 64 h.next) := by
  obtain ⟨size, handle, hsize, hmake, hok⟩ := sized_eq_ok hok
  obtain ⟨⟨next, hroom⟩, haddress⟩ := admits_of_calloc hmake
  obtain ⟨-, -, hok⟩ := result_bind_eq_ok hok
  exact ⟨size, next, hsize, hroom, haddress ▸ (Except.ok.inj hok).symm⟩

end AllocArray

end Heap

end CValues
