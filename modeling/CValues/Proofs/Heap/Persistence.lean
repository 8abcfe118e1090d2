import CValues.Proofs.Heap.Access
import CValues.Proofs.Heap.Effect

/-!
# Stored values persist

A region stays as it is through every request that neither frees it nor writes to its bytes: new
regions are put beside it, and whatever else a request releases or overwrites is another region,
since no two share an address. So a value whose address was taken is read back from there, bit by
bit, however many requests have been served since, and through every pointer that kept the address
on its way through a pointer to `void`.
-/

namespace CValues

namespace Region

variable {r : Region} {offset : Nat} {data : List UInt8}

private theorem write_nil (r : Region) (offset : Nat) : r.write offset [] = r := by
  have hid : (fun bytes ↦ overwrite bytes offset []) = id :=
    funext fun bytes ↦ overwrite_nil bytes offset
  rw [write, hid, Option.map_id_fun, id]

/-- A write inside the region that meets none of its bytes writes nothing. -/
theorem write_of_disjoint (hfit : offset + data.length ≤ r.size)
    (hdisjoint : Disjoint (Set.Ico (r.base + offset) (r.base + offset + data.length))
      (Set.Ico r.base (r.base + r.size))) : r.write offset data = r := by
  have hempty : data = [] := by
    by_contra hne
    have hpos := List.length_pos_iff.mpr hne
    have hfirst : r.base + offset ∈ Set.Ico (r.base + offset) (r.base + offset + data.length) :=
      ⟨Nat.le_refl _, Nat.lt_add_of_pos_right hpos⟩
    have hinside : r.base + offset ∈ Set.Ico r.base (r.base + r.size) :=
      ⟨Nat.le_add_right _ _, by omega⟩
    exact Set.disjoint_left.mp hdisjoint hfirst hinside
  rw [hempty, write_nil]

end Region

namespace Heap

open CValues.Heap.Action

variable {h : Heap} {r : Region}

/-! ## Regions that are spared -/

/-- The request neither frees the region nor writes to its bytes. -/
def Request.Spares (p : PointerSize) (r : Region) (request : Request) : Prop :=
  request.freed? ≠ some r.base ∧
    Disjoint (request.writes p) (Set.Ico r.base (r.base + r.size))

/-- A request leaves the regions that it spares as they are. -/
theorem Effect.mem_of_spares {h' : Heap} {request : Request} {answer : Except Error Unit}
    (heffect : Effect h request answer h') (hwf : h.WellFormed) (hr : r ∈ h.regions)
    (hspares : request.Spares h.target.pointerSize r) : r ∈ h'.regions := by
  obtain ⟨hfreed, hdisjoint⟩ := hspares
  cases heffect with
  | nothing | ended => exact hr
  | make => exact List.mem_cons_of_mem _ hr
  | release hs hrequest =>
    refine mem_updateAt hr fun hbase ↦ absurd hrequest ?_
    rwa [← hbase]
  | overwrite hs hfit hwrites =>
    refine mem_updateAt hr fun hbase ↦ ?_
    obtain rfl := hwf.eq_of_base_eq hr (mem_of_locate? hs) hbase
    rw [hwrites] at hdisjoint
    exact Region.write_of_disjoint hfit hdisjoint

/-- A region stays through a run of requests that spare it. -/
theorem WellFormed.mem_after (hwf : h.WellFormed) (hr : r ∈ h.regions) {requests : List Request}
    (hspares : ∀ request ∈ requests, request.Spares h.target.pointerSize r) :
    r ∈ (h.after requests).regions := by
  induction requests generalizing h with
  | nil => exact hr
  | cons request rest ih =>
    obtain ⟨hfirst, hrest⟩ := List.forall_mem_cons.mp hspares
    have htarget : (h.serve request).target = h.target :=
      (evolves_serve h request).target_eq_and_limit_eq.1
    exact ih (hwf.serve request) ((hwf.effect request).mem_of_spares hwf hr hfirst)
      (htarget ▸ hrest)

/-! ## Loading -/

section Load

variable {v : Value} {a : BitVec 64}

theorem WellFormed.result_load (hwf : h.WellFormed) (hv : v.Storable h.target.pointerSize)
    (hr : .holding a.toNat (v.toBytes h.target.pointerSize) ∈ h.regions) (q : Qualifiers) :
    (h.load (.pointer v.type q a)).result = .ok v := by
  have hlocate : h.locate? a.toNat
      = some (.holding a.toNat (v.toBytes h.target.pointerSize), 0) := hwf.locate?_base hr rfl
  have hlength : v.byteCount h.target.pointerSize = (v.toBytes h.target.pointerSize).length :=
    (Value.length_toBytes _ _).symm
  have hfit : 0 + v.byteCount h.target.pointerSize
      ≤ (Region.holding a.toNat (v.toBytes h.target.pointerSize)).size := by
    rw [Nat.zero_add, hlength]
    exact Nat.le_refl _
  have hslice : (Region.holding a.toNat (v.toBytes h.target.pointerSize)).slice 0
      (v.byteCount h.target.pointerSize) = v.toBytes h.target.pointerSize := by
    rw [hlength]
    exact List.take_length
  rw [load_of_located (hwf.ne_zero_of_located hlocate) hlocate (Value.size?_type hv.isScalar),
    if_pos hfit, Value.seenAs_of_isScalar hv.isScalar, hslice]
  exact Value.ofBytes_toBytes hv

end Load

/-! ## Taking an address -/

/-- The address of a value that is not an array is given out only if there was room for it. -/
theorem WellFormed.admits_of_addressOf (hwf : h.WellFormed) {v p : Value}
    (hv : v.type.isScalar = true) (hok : ((addressOf v).run h).1.result = .ok p) :
    ∃ next, h.Admits (v.byteCount h.target.pointerSize) next ∧ p = .pointerTo v.type h.next ∧
      h.serve (.addressOf v) = h.made next (v.toBytes h.target.pointerSize) := by
  obtain ⟨size, next, hsize, hroom, rfl⟩ := addressOf_eq_ok hok
  rw [Value.size?_type hv] at hsize
  obtain rfl := Option.some.inj hsize
  exact ⟨next, hroom, rfl, (Prod.mk.inj (hwf.outcome_addressOf hv hroom)).2⟩

/-- The value is loaded after every run that spares its region. -/
theorem WellFormed.load_after_addressOf (hwf : h.WellFormed) {v p : Value}
    (hv : v.Storable h.target.pointerSize) (hok : ((addressOf v).run h).1.result = .ok p)
    {later : List Request}
    (hspared : ∀ request ∈ later, request.freed? ≠ some p.bits ∧
      Disjoint (request.writes h.target.pointerSize)
        (Set.Ico p.bits (p.bits + v.byteCount h.target.pointerSize))) :
    ∃ a, p = .pointer v.type .none a ∧
      (((h.serve (.addressOf v)).after later).load p).result = .ok v := by
  obtain ⟨next, hroom, rfl, hmade⟩ := hwf.admits_of_addressOf hv.isScalar hok
  refine ⟨BitVec.ofNat 64 h.next, rfl, ?_⟩
  have haddress : (BitVec.ofNat 64 h.next).toNat = h.next := hroom.toNat_ofNat (Nat.zero_le _)
  have hwf' : (h.made next (v.toBytes h.target.pointerSize)).WellFormed :=
    hwf.made (by rwa [Value.length_toBytes])
  have hmem : .holding (BitVec.ofNat 64 h.next).toNat (v.toBytes h.target.pointerSize)
      ∈ (h.made next (v.toBytes h.target.pointerSize)).regions := by
    rw [haddress]
    exact List.mem_cons_self
  have hstays := hwf'.mem_after hmem fun request hrequest ↦ ⟨(hspared request hrequest).1, by
    rw [Region.holding, Value.length_toBytes]
    exact (hspared request hrequest).2⟩
  have htarget : ((h.made next (v.toBytes h.target.pointerSize)).after later).target = h.target :=
    (evolves_after _ later).target_eq_and_limit_eq.1
  rw [hmade]
  exact (hwf'.after later).result_load (by rwa [htarget]) (by rwa [htarget]) .none

/-- **A stored value persists.** Once the address of a value has been taken, the value is loaded
from there after every run that does not free the address and does not write to the bytes of the
value: through the pointer itself, through the pointer converted to one to `void` and cast back, and
through the pointer to `void` read again as one to the type. The value is the same in every bit, also
where it is not a number. -/
theorem stored_value_persists (target : Target) (limit : Nat) (before later : List Request)
    (v p : Value) :
    let h := (empty target limit).after before
    let h' := (h.serve (.addressOf v)).after later
    let slot := Set.Ico p.bits (p.bits + v.byteCount target.pointerSize)
    v.Storable target.pointerSize → ((addressOf v).run h).1.result = .ok p →
      (∀ request ∈ later, request.freed? ≠ some p.bits ∧
        Disjoint (request.writes target.pointerSize) slot) →
      (h'.load p).result = .ok v ∧
      ∀ kind,
        (do let anonymous ← convert target kind p (.pointerTo .void)
            let back ← convert target .explicit anonymous (.pointerTo v.type)
            h'.load back).result = .ok v ∧
        (do let anonymous ← convert target kind p (.pointerTo .void)
            let back ← reinterpret anonymous v.type
            h'.load back).result = .ok v := by
  intro h h' slot hv hok hspared
  have hwf : h.WellFormed := wellFormed_after target limit before
  have htarget : h.target = target := (evolves_after _ before).target_eq_and_limit_eq.1
  obtain ⟨a, rfl, hload⟩ := hwf.load_after_addressOf (by rwa [htarget]) hok (by rwa [htarget])
  refine ⟨hload, fun kind ↦ ?_⟩
  have haway : v.type.pointsAlike .void = true := CType.pointsAlike_iff.mpr (.inr (.inr rfl))
  have hreturn : CType.void.pointsAlike v.type = true := CType.pointsAlike_iff.mpr (.inr (.inl rfl))
  have hkept : Qualifiers.none.keptBy .none = true := Qualifiers.keptBy_iff.mpr ⟨id, id⟩
  have hanonymous := result_convert_pointer haway hkept target kind a
  have hback := result_convert_pointer hreturn hkept target .explicit a
  have hagain : (reinterpret (.pointer .void .none a) v.type).result
      = .ok (.pointer v.type .none a) := by
    rw [reinterpret, if_pos hreturn]
    rfl
  constructor
  · exact Traced.result_bind_eq_ok_iff.mpr
      ⟨_, hanonymous, Traced.result_bind_eq_ok_iff.mpr ⟨_, hback, hload⟩⟩
  · exact Traced.result_bind_eq_ok_iff.mpr
      ⟨_, hanonymous, Traced.result_bind_eq_ok_iff.mpr ⟨_, hagain, hload⟩⟩

/-- The payload of a double that is not a number survives a failed write just behind it, a failed
free inside it, a free and a store elsewhere, and a leak. -/
theorem stored_value_persists_payload :
    let v := Value.float .double 0x7FF8000000001234
    let p := Value.pointerTo (.float .double) 0x7FFF00000010
    let later : List Request :=
      [.write 0x7FFF00000018 [1], .free 0x7FFF00000014, .free 0x7FFF00000000,
        .addressOf (.array .plainInt 1 4096),
        .store (.pointerTo .plainInt 0x7FFF00000020) (.plainInt 7)]
    ((addressOf v).run ((empty {}).after [.alloc 8])).1.result = .ok p ∧
      (((((empty {}).after [.alloc 8]).serve (.addressOf v)).after later).load p).result = .ok v ∧
      ((((empty {}).after [.alloc 8]).serve (.addressOf v)).after later).regions.map Region.bytes?
        = [some [7, 0, 0, 0], some [0x34, 0x12, 0, 0, 0, 0, 0xF8, 0x7F], none] := by
  intro v p later
  have hok : ((addressOf v).run ((empty {}).after [.alloc 8])).1.result = .ok p := by decide
  have hbehind : Disjoint ((Request.write 0x7FFF00000018 [1]).writes .bits64)
      (Set.Ico p.bits (p.bits + v.byteCount .bits64)) := Set.Ico_disjoint_Ico.mpr (by decide)
  have helsewhere : Disjoint ((Request.store (.pointerTo .plainInt 0x7FFF00000020)
      (.plainInt 7)).writes .bits64) (Set.Ico p.bits (p.bits + v.byteCount .bits64)) :=
    Set.Ico_disjoint_Ico.mpr (by decide)
  have hspared : ∀ request ∈ later, request.freed? ≠ some p.bits ∧
      Disjoint (request.writes .bits64) (Set.Ico p.bits (p.bits + v.byteCount .bits64)) := by
    intro request hrequest
    simp only [later, List.mem_cons, List.not_mem_nil, or_false] at hrequest
    rcases hrequest with rfl | rfl | rfl | rfl | rfl
    · exact ⟨by decide, hbehind⟩
    · exact ⟨by decide, Set.empty_disjoint _⟩
    · exact ⟨by decide, Set.empty_disjoint _⟩
    · exact ⟨by decide, Set.empty_disjoint _⟩
    · exact ⟨by decide, helsewhere⟩
  obtain ⟨hload, -⟩ :=
    stored_value_persists {} defaultLimit [.alloc 8] later v p trivial hok hspared
  exact ⟨hok, hload, by decide⟩

end Heap

end CValues
