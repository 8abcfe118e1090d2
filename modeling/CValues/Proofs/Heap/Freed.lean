import CValues.Proofs.Heap.Access

/-!
# Freed addresses

A freed region stays in the heap as a mark without bytes. No change of the heap removes or revives
it: a new region is put beside it, and releasing or overwriting a region that has no bytes changes
nothing. So its footprint is taken for ever, no later region covers it, and every access to it is
found out.
-/

namespace CValues

namespace Region

variable {r : Region}

private theorem bytes?_of_freed (h : r.isLive = false) : r.bytes? = none := by
  rw [isLive, Option.isSome_eq_false_iff] at h
  exact Option.isNone_iff_eq_none.mp h

private theorem release_of_freed (h : r.isLive = false) : r.release = r := by
  rw [release, ← bytes?_of_freed h]

private theorem write_of_freed (h : r.isLive = false) (offset : Nat) (data : List UInt8) :
    r.write offset data = r := by
  rw [write, bytes?_of_freed h, Option.map_none, ← bytes?_of_freed h]

end Region

namespace Heap

variable {h h' : Heap} {r : Region} {address : Nat}

theorem Change.mem_of_freed (hchange : Change h h') (hfreed : r.isLive = false)
    (hr : r ∈ h.regions) : r ∈ h'.regions := by
  cases hchange with
  | allocate => exact List.mem_cons_of_mem _ hr
  | skip => exact hr
  | release => exact mem_updateAt hr fun _ ↦ Region.release_of_freed hfreed
  | overwrite => exact mem_updateAt hr fun _ ↦ Region.write_of_freed hfreed _ _

/-- A freed region stays through every run. -/
theorem mem_after_of_freed (requests : List Request) (hfreed : r.isLive = false)
    (hr : r ∈ h.regions) : r ∈ (h.after requests).regions := by
  have hstep : ∀ k k', Change k k' → r ∈ k.regions → r ∈ k'.regions :=
    fun k k' hchange ↦ hchange.mem_of_freed hfreed
  exact (evolves_after h requests).preserves hstep hr

/-! ## Requests that free a region -/

/-- A request that frees a region leaves it as a mark. -/
theorem WellFormed.release_mem_serve (hwf : h.WellFormed) {request : Request}
    (hr : r ∈ h.regions) (hrequest : request.freed? = some r.base)
    (hok : h.respond request = .ok ()) : r.release ∈ (h.serve request).regions := by
  have hfree : (h.respond request, h.serve request) = (free r.base).outcome h := by
    cases request with
    | free address =>
      obtain rfl := Option.some.inj hrequest
      rfl
    | freePointer pointer => exact outcome_freePointer hrequest (hwf.base_ne_zero hr)
    | _ => cases hrequest
  rcases outcome_free_cases r.base h with ⟨e, herror⟩ | ⟨s, hbase, hs, houtcome⟩
  · rw [herror, hok] at hfree
    cases hfree
  · obtain rfl := hwf.eq_of_base_eq hr (regionAt?_eq_some hs).1 hbase.symm
    obtain ⟨-, hserve⟩ := Prod.mk.inj (hfree.trans houtcome)
    rw [hserve]
    exact List.mem_map.mpr ⟨r, hr, if_pos rfl⟩

/-! ## Access to an address that belongs to no live region -/

section NotLocated

variable (hnone : h.locate? address = none)

include hnone

private theorem load_of_not_located {pointer : Value} (hpointer : pointer.address? = some address)
    (v : Value) : (h.load pointer).result ≠ .ok v := by
  intro hok
  obtain ⟨t, q, a, size, r, offset, rfl, -, hr, -⟩ := load_eq_ok hok
  obtain rfl := Option.some.inj hpointer
  rw [hnone] at hr
  cases hr

private theorem store_of_not_located {pointer : Value} (hpointer : pointer.address? = some address)
    (value : Value) : ((store pointer value).run h).1.result ≠ .ok () := by
  intro hok
  rcases outcome_store_cases pointer value h with
    ⟨e, herror⟩ | ⟨t, q, a, u, rfl, -, hwrite⟩
  · have hresult := (Prod.mk.inj herror).1
    rw [hok] at hresult
    cases hresult
  · obtain rfl := Option.some.inj hpointer
    have hresult := (Prod.mk.inj (hwrite.trans (outcome_write_of_none hnone _))).1
    rw [hok] at hresult
    cases hresult

end NotLocated

/-- **A use after free is always found out.** Once a request has freed a region, no later run makes
any address of its footprint valid again: handles, reads and writes there fail by the address, loads
and stores through pointers to it do not succeed, the region cannot be freed a second time, and no
other region, live or freed, ever has the address in its footprint. -/
theorem freed_address_stays_invalid (target : Target) (limit : Nat) (before later : List Request)
    (request : Request) (r : Region) :
    let h := (empty target limit).after before
    let h' := (h.serve request).after later
    r ∈ h.regions → request.freed? = some r.base → h.respond request = .ok () →
      ((free r.base).run h').1.result = .error (.invalidPointer r.base .notAllocated) ∧
      ∀ x ∈ r.footprint,
        h'.isValid x = false ∧
        h'.handleAt x = .error (.invalidPointer x .outsideRegions) ∧
        (∀ size, h'.read x size = .error (.invalidPointer x .outsideRegions)) ∧
        (∀ data, ((write x data).run h').1.result
          = .error (.invalidPointer x .outsideRegions)) ∧
        (∀ pointer, pointer.address? = some x →
          (∀ v, (h'.load pointer).result ≠ .ok v) ∧
          ∀ value, ((store pointer value).run h').1.result ≠ .ok ()) ∧
        ∀ s ∈ h'.regions, x ∈ s.footprint → s = r.release := by
  intro h h' hr hrequest hok
  have hwf : h.WellFormed := wellFormed_after target limit before
  have hwf' : h'.WellFormed := (hwf.serve request).after later
  have hmark : r.release ∈ h'.regions :=
    mem_after_of_freed later rfl (hwf.release_mem_serve hr hrequest hok)
  have hnone : ∀ x ∈ r.footprint, h'.locate? x = none :=
    fun x hx ↦ hwf'.locate?_eq_none hmark rfl hx
  refine ⟨?_, fun x hx ↦ ⟨?_, handleAt_of_not_located (hnone x hx),
    read_of_not_located (hnone x hx), fun data ↦ ?_, fun pointer hpointer ↦ ⟨?_, ?_⟩, ?_⟩⟩
  · have hbase := regionAt?_eq_none_of_locate? (hnone r.base r.base_mem_footprint)
    exact (Prod.mk.inj (outcome_free_of_none hbase)).1
  · rw [isValid, hnone x hx, Option.isSome_none]
  · exact (Prod.mk.inj (outcome_write_of_none (hnone x hx) data)).1
  · exact load_of_not_located (hnone x hx) hpointer
  · exact store_of_not_located (hnone x hx) hpointer
  · exact fun s hs hxs ↦ hwf'.eq_of_mem_footprint hs hmark hxs hx

/-- The last byte of a region freed through a pointer stays invalid while other regions are made and
its own address is freed, written and asked for again. -/
theorem freed_address_stays_invalid_last :
    let h := (empty {}).after [.alloc 24, .alloc 0]
    let h' := (h.serve (.freePointer (.pointerTo .void 0x7FFF00000000))).after
      [.alloc 24, .free 0x7FFF00000000, .write 0x7FFF00000010 [1], .calloc 3 8]
    let r := Region.zeroed 0x7FFF00000000 24
    r ∈ h.regions ∧ 0x7FFF00000017 ∈ r.footprint ∧ h'.isValid 0x7FFF00000017 = false ∧
      h'.isValid 0x7FFF00000047 = true ∧
      h'.regions.map Region.base
        = [0x7FFF00000050, 0x7FFF00000030, 0x7FFF00000020, 0x7FFF00000000] := by
  have hr : Region.zeroed 0x7FFF00000000 24 ∈ ((empty {}).after [.alloc 24, .alloc 0]).regions :=
    .tail _ (.head _)
  have hx : 0x7FFF00000017 ∈ (Region.zeroed 0x7FFF00000000 24).footprint := by
    rw [Region.mem_footprint_iff]
    decide
  obtain ⟨-, hinvalid⟩ := freed_address_stays_invalid {} defaultLimit [.alloc 24, .alloc 0]
    [.alloc 24, .free 0x7FFF00000000, .write 0x7FFF00000010 [1], .calloc 3 8]
    (.freePointer (.pointerTo .void 0x7FFF00000000)) (.zeroed 0x7FFF00000000 24) hr rfl rfl
  exact ⟨hr, hx, (hinvalid _ hx).1, rfl, rfl⟩

end Heap

end CValues
