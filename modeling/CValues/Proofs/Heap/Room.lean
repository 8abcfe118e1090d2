import CValues.Proofs.Heap.Making
import Mathlib.Order.Bounds.Basic

/-!
# Room for an allocation

An allocation is refused for one of two reasons, that the limit would be passed or that no address
would be left. Neither test is made in exact numbers: the sum that is held against the limit stops
at the largest number of 64 bits, and the end of the region is rounded up by adding fifteen first,
which must not leave 64 bits either.

Together they are exact all the same. The number of bytes in use is never greater than the number of
addresses handed out, so a sum that was stopped belongs to a region that does not fit the address
space. And the largest address is one below a multiple of sixteen, so the fifteen only overflow
where the rounded end does. What is left is `HasRoom`, which knows of no machine arithmetic.

Room is not all that an allocation needs. Addresses of 64 bits and a limit to match have room for
regions longer than any the host lays out, and there the program ends.
-/

namespace CValues.Heap

open CValues.Heap.Action

variable {h h' : Heap} {r : Region} {x offset count size next : Nat} {bytes : List UInt8}

/-! ## Room in exact numbers -/

theorem isLeast_alignUp (address : Nat) :
    IsLeast {m | 16 ∣ m ∧ address ≤ m} (alignUp address) := by
  constructor
  · exact ⟨sixteen_dvd_alignUp address, le_alignUp address⟩
  · rintro m ⟨⟨k, rfl⟩, hle⟩
    rw [alignUp]
    omega

/-- There is room for a region of the size: the limit is kept, and the first multiple of sixteen
behind the region is an address of the machine. -/
def HasRoom (h : Heap) (size : Nat) : Prop :=
  h.inUse + size ≤ h.limit ∧
    ∃ next, IsLeast {m | 16 ∣ m ∧ h.next + max size 1 ≤ m} next ∧ h.target.pointerSize.Fits next

theorem hasRoom_iff : h.HasRoom size ↔
    h.inUse + size ≤ h.limit ∧ h.target.pointerSize.Fits (alignUp (h.next + max size 1)) := by
  refine and_congr_right fun _ ↦ ⟨?_, fun hfits ↦ ⟨_, isLeast_alignUp _, hfits⟩⟩
  rintro ⟨next, hleast, hfits⟩
  rwa [(isLeast_alignUp _).unique hleast]

/-- The two tests of an allocation together ask for room and nothing else. -/
theorem WellFormed.exists_places_iff (hwf : h.WellFormed) :
    (∃ next, h.Places size next) ↔ h.HasRoom size := by
  rw [hasRoom_iff]
  constructor
  · rintro ⟨next, hplaces⟩
    have hcount := hwf.inUse_add_lt hplaces.address
    have hlimit := hplaces.limit
    rw [inUseAfter, Nat.min_eq_left (by omega)] at hlimit
    obtain ⟨rfl, -, hfits⟩ := nextAddress?_eq_some hplaces.address
    exact ⟨hlimit, hfits⟩
  · rintro ⟨hlimit, hfits⟩
    have hsixteen : pow2 64 = 16 * pow2 60 := pow2_add 4 60
    have hstop : h.next + max size 1 + 15 < pow2 64 := by
      have hlt := hfits.lt_pow2
      rw [hsixteen] at hlt ⊢
      rw [alignUp] at hlt
      omega
    exact ⟨_, (Nat.min_le_left _ _).trans hlimit, if_pos ⟨hstop, hfits⟩⟩

theorem WellFormed.exists_admits_iff (hwf : h.WellFormed) :
    (∃ next, h.Admits size next) ↔ h.HasRoom size ∧ size ≤ capacity := by
  rw [← hwf.exists_places_iff]
  constructor
  · rintro ⟨next, hroom⟩
    exact ⟨⟨next, hroom.toPlaces⟩, hroom.capacity⟩
  · rintro ⟨⟨next, hplaces⟩, hcapacity⟩
    exact ⟨next, hplaces, hcapacity⟩

/-! ## What an allocation leaves alone -/

/-- No region, live or freed, has kept an address that an object of the size would take. -/
def Unused (h : Heap) (base size : Nat) : Prop :=
  ∀ r ∈ h.regions, Disjoint r.footprint (Set.Ico base (base + max size 1))

/-- Every address that was valid still is, and reading from it ends as it did before. -/
def KeptIn (h h' : Heap) : Prop :=
  ∀ x, h.isValid x = true → h'.isValid x = true ∧ ∀ n, h'.read x n = h.read x n

theorem WellFormed.unused_next (hwf : h.WellFormed) (size : Nat) : h.Unused h.next size := by
  intro r hr
  refine Set.disjoint_left.mpr fun x hx hnew ↦ ?_
  have hbelow := hwf.below r hr
  rw [Region.mem_footprint_iff] at hx
  have hstart := hnew.1
  omega

/-- Beside a new region every address is found where it was. -/
theorem WellFormed.locate?_made_of_located (hwf : h.WellFormed)
    (hroom : h.Admits bytes.length next) (hr : h.locate? x = some (r, offset)) :
    (h.made next bytes).locate? x = some (r, offset) := by
  obtain ⟨hmem, hmeets⟩ := hwf.locate?_eq_some_iff.mp hr
  exact (hwf.made hroom).locate?_eq_some_iff.mpr ⟨List.mem_cons_of_mem _ hmem, hmeets⟩

theorem WellFormed.keptIn_made (hwf : h.WellFormed) (hroom : h.Admits bytes.length next) :
    h.KeptIn (h.made next bytes) := by
  intro x hvalid
  obtain ⟨⟨r, offset⟩, hr⟩ := Option.isSome_iff_exists.mp hvalid
  have hmade := hwf.locate?_made_of_located hroom hr
  constructor
  · rw [isValid, hmade, Option.isSome_some]
  · intro n
    rw [read, read, find, find, hmade, hr]

/-! ## Allocating -/

/-- A new region is read as zeros from its first address to its last. -/
theorem WellFormed.read_allocated (hwf : h.WellFormed) (hroom : h.Admits size next) :
    (h.allocated size next).read h.next size = .ok (List.replicate size 0) := by
  have hlocate : (h.allocated size next).locate? h.next = some (.zeroed h.next size, 0) :=
    (hwf.allocated hroom.limit hroom.address).locate?_base List.mem_cons_self rfl
  rw [read_of_located hlocate (Nat.le_of_eq (Nat.zero_add size)), Region.zeroed, Option.getD_some,
    List.drop_zero, List.take_of_length_le (Nat.le_of_eq List.length_replicate)]

/-- **An allocation succeeds exactly if there is room for it and the host lays out its bytes.** Room
is counted in exact numbers, whatever the limit and the size. Without it the error gives the bytes
in use and the limit; with it, a region beyond the capacity of the host ends the program. The handle
that is given out has an aligned address that is not null and belonged to no region before; its
bytes are zeros, and whatever could be read can be read as before. An allocation for some objects of
one size is one of their exact product, and fails if that is no number of 64 bits. -/
theorem alloc_succeeds_iff (target : Target) (limit : Nat) (requests : List Request) :
    let h := (empty target limit).after requests
    (∀ size,
      ((∃ handle, ((alloc size).run h).1.result = .ok handle) ↔
        h.HasRoom size ∧ size ≤ capacity) ∧
      (¬ h.HasRoom size →
        (alloc size).outcome h = (.error (.allocationLimit h.inUse limit), h)) ∧
      (h.HasRoom size → capacity < size →
        ((alloc size).run h).1.result = .error .capacityOverflow) ∧
      ∀ handle, ((alloc size).run h).1.result = .ok handle →
        let h' := h.serve (.alloc size)
        handle.address ≠ 0 ∧ 16 ∣ handle.address ∧ handle.size = size ∧
        h.Unused handle.address size ∧
        h'.read handle.address size = .ok (List.replicate size 0) ∧ h.KeptIn h') ∧
    ∀ count size,
      (calloc count size).outcome h = (alloc (count * size)).outcome h ∧
      (pow2 64 ≤ count * size →
        (calloc count size).outcome h = (.error (.allocationLimit h.inUse limit), h)) := by
  intro h
  have hwf : h.WellFormed := wellFormed_after target limit requests
  have hlimit : h.limit = limit := (evolves_after _ requests).target_eq_and_limit_eq.2
  refine ⟨fun size ↦ ⟨?_, fun hfull ↦ ?_, fun hroom hlong ↦ ?_, fun handle hok ↦ ?_⟩,
    fun count size ↦ ⟨outcome_calloc_eq h count size, fun hlarge ↦ ?_⟩⟩
  · rw [← hwf.exists_admits_iff]
    constructor
    · rintro ⟨handle, hok⟩
      exact (admits_of_alloc hok).1
    · rintro ⟨next, hroom⟩
      exact ⟨_, (Prod.mk.inj (outcome_alloc hroom)).1⟩
  · rw [← hwf.exists_places_iff, not_exists] at hfull
    rw [outcome_alloc_of_full hfull, hlimit]
  · obtain ⟨next, hplaces⟩ := hwf.exists_places_iff.mpr hroom
    exact (Prod.mk.inj (outcome_alloc_of_long hplaces hlong)).1
  · obtain ⟨⟨next, hroom⟩, -⟩ := admits_of_alloc hok
    obtain ⟨hresult, hserve⟩ := Prod.mk.inj (outcome_alloc hroom)
    obtain rfl := Except.ok.inj (hok.symm.trans hresult)
    have hh' : h.serve (.alloc size) = h.allocated size next := hserve
    rw [hh']
    refine ⟨hwf.next_pos.ne', hwf.next_aligned, rfl, hwf.unused_next size,
      hwf.read_allocated hroom, ?_⟩
    rw [allocated_eq_made]
    exact hwf.keptIn_made (by rwa [List.length_replicate])
  · have hfull : ∀ next, ¬ h.Places (count * size) next :=
      fun next hplaces ↦ hlarge.not_gt hplaces.size_lt
    rw [outcome_calloc_eq, outcome_alloc_of_full hfull, hlimit]

/-- Where addresses have 32 bits and the limit is the greatest there is, a region can fill the
address space up to the last sixteen bytes and no further. The largest size of all passes the limit,
since the sum stops there, and is refused for want of an address. -/
theorem alloc_succeeds_iff_last :
    let h := (empty ⟨.ilp32, .signed⟩ (pow2 64 - 1)).after [.alloc 8]
    let full := Error.allocationLimit 8 (pow2 64 - 1)
    (∃ handle, ((alloc 0xEFFFFFE0).run h).1.result = .ok handle ∧ 16 ∣ handle.address ∧
      h.KeptIn (h.serve (.alloc 0xEFFFFFE0))) ∧
    (alloc 0xEFFFFFE1).outcome h = (.error full, h) ∧
    h.inUseAfter (pow2 64 - 1) ≤ h.limit ∧ (alloc (pow2 64 - 1)).outcome h = (.error full, h) ∧
    (calloc (pow2 32) (pow2 32)).outcome h = (.error full, h) := by
  obtain ⟨halloc, hcalloc⟩ := alloc_succeeds_iff ⟨.ilp32, .signed⟩ (pow2 64 - 1) [.alloc 8]
  obtain ⟨hfits, -, -, hgood⟩ := halloc 0xEFFFFFE0
  obtain ⟨handle, hok⟩ := hfits.mpr ⟨hasRoom_iff.mpr (by decide), by decide⟩
  obtain ⟨-, haligned, -, -, -, hkept⟩ := hgood handle hok
  refine ⟨⟨handle, hok, haligned, hkept⟩, ?_, by decide, ?_, ?_⟩
  · exact (halloc 0xEFFFFFE1).2.1 (mt hasRoom_iff.mp (by decide))
  · exact (halloc (pow2 64 - 1)).2.1 (mt hasRoom_iff.mp (by decide))
  · exact (hcalloc (pow2 32) (pow2 32)).2 (by decide)

/-- Room alone is not enough: half of the addresses of 64 bits are free, and no host lays out as
many bytes. -/
theorem not_forall_alloc_succeeds_iff_hasRoom :
    ¬ ∀ target limit requests size,
      let h := (empty target limit).after requests
      (∃ handle, ((alloc size).run h).1.result = .ok handle) ↔ h.HasRoom size := by
  intro hall
  obtain ⟨handle, hok⟩ := (hall {} (pow2 64 - 1) [] (pow2 63)).mpr (hasRoom_iff.mpr (by decide))
  have hends : ((alloc (pow2 63)).run (empty {} (pow2 64 - 1))).1.result
      = .error .capacityOverflow := by decide
  cases hends.symm.trans hok

end CValues.Heap
