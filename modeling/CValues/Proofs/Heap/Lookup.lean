import CValues.Proofs.Heap.Invariant
import Mathlib.Data.List.Find
import Mathlib.Data.List.Pairwise

/-!
# Finding a region

In a well-formed heap the footprints of regions do not meet, so an address belongs to one region at
most. The two ways of looking it up, by its base and by its bytes, therefore find the same region,
and what is found does not depend on the order in which regions are tried.
-/

namespace CValues

namespace Region

variable {r : Region} {address offset : Nat}

theorem mem_footprint_iff : address ∈ r.footprint ↔ r.base ≤ address ∧ address < r.stop := Iff.rfl

theorem base_mem_footprint (r : Region) : r.base ∈ r.footprint := ⟨r.base.le_refl, r.base_lt_stop⟩

theorem covers_iff : r.covers address = true ↔
    r.base ≤ address ∧ address - r.base < r.size := by
  rw [covers, Bool.and_eq_true, decide_eq_true_iff, decide_eq_true_iff]

private theorem mem_footprint_of_covers (h : r.covers address = true) : address ∈ r.footprint := by
  obtain ⟨hbase, hsize⟩ := covers_iff.mp h
  rw [mem_footprint_iff, stop]
  omega

/-- The region is live and the address lies in it, at this offset from its base: the address is one
of its bytes, or the base itself, which counts also where there are no bytes. -/
def MeetsAt (r : Region) (address offset : Nat) : Prop :=
  r.isLive = true ∧ address = r.base + offset ∧ (offset < r.size ∨ offset = 0)

private theorem MeetsAt.mem_footprint (h : r.MeetsAt address offset) : address ∈ r.footprint := by
  obtain ⟨-, rfl, hinside⟩ := h
  rw [mem_footprint_iff, stop]
  omega

private theorem meetsAt_of_mem_footprint (hlive : r.isLive = true)
    (haddress : address = r.base + offset) (hx : address ∈ r.footprint) :
    r.MeetsAt address offset := by
  rw [mem_footprint_iff, stop] at hx
  exact ⟨hlive, haddress, by omega⟩

end Region

namespace Heap

variable {h : Heap} {r s : Region} {address offset : Nat}

/-- Two regions that share an address are one. -/
theorem WellFormed.eq_of_mem_footprint (hwf : h.WellFormed) (hr : r ∈ h.regions)
    (hs : s ∈ h.regions) (hxr : address ∈ r.footprint) (hxs : address ∈ s.footprint) : r = s := by
  have hdisjoint : h.regions.Pairwise fun r s ↦ Disjoint r.footprint s.footprint := by
    refine hwf.stacked.imp fun hle ↦ Disjoint.symm ?_
    exact Set.Ico_disjoint_Ico_same.mono_left (Set.Ico_subset_Ico_right hle)
  have : Std.Symm fun r s : Region ↦ Disjoint r.footprint s.footprint :=
    ⟨fun _ _ hrs ↦ hrs.symm⟩
  by_contra hne
  exact Set.disjoint_left.mp (hdisjoint.forall hr hs hne) hxr hxs

theorem WellFormed.base_ne_zero (hwf : h.WellFormed) (hr : r ∈ h.regions) : r.base ≠ 0 :=
  ((firstAddress_pos _).trans_le (hwf.above r hr)).ne'

theorem regionAt?_eq_some (hr : h.regionAt? address = some r) :
    r ∈ h.regions ∧ r.isLive = true ∧ r.base = address :=
  ⟨List.mem_of_find?_eq_some hr, isLive_of_regionAt? hr, base_eq_of_regionAt? hr⟩

private theorem WellFormed.regionAt?_base (hwf : h.WellFormed) (hr : r ∈ h.regions)
    (hlive : r.isLive = true) : h.regionAt? r.base = some r := by
  have hfound : (h.regionAt? r.base).isSome := by
    rw [regionAt?, List.find?_isSome]
    exact ⟨r, hr, by rw [hlive, beq_self_eq_true, Bool.and_self]⟩
  obtain ⟨s, hs⟩ := Option.isSome_iff_exists.mp hfound
  obtain ⟨hmem, -, hbase⟩ := regionAt?_eq_some hs
  rwa [hwf.eq_of_base_eq hmem hr hbase] at hs

/-- The live region that has the address among its bytes, the first one in the order of the
regions. -/
def scan? (h : Heap) (address : Nat) : Option (Region × Nat) :=
  (h.regions.find? fun r ↦ r.isLive && r.covers address).map fun r ↦ (r, address - r.base)

/-- An address is looked up as a base first and among the bytes only if it is none. -/
theorem locate?_eq_or (h : Heap) (address : Nat) :
    h.locate? address
      = ((h.regionAt? address).map fun r ↦ (r, 0)).or (h.scan? address) := by
  rw [locate?]
  cases h.regionAt? address <;> rfl

private theorem scan?_eq_some (hr : h.scan? address = some (r, offset)) :
    r ∈ h.regions ∧ r.isLive = true ∧ address = r.base + offset ∧ address ∈ r.footprint := by
  obtain ⟨s, hs, heq⟩ := Option.map_eq_some_iff.mp hr
  obtain ⟨rfl, rfl⟩ := Prod.mk.inj heq
  have hfound := List.find?_some hs
  obtain ⟨hlive, hcovers⟩ := Bool.and_eq_true_iff.mp hfound
  refine ⟨List.mem_of_find?_eq_some hs, hlive, ?_, Region.mem_footprint_of_covers hcovers⟩
  exact (Nat.add_sub_of_le (Region.covers_iff.mp hcovers).1).symm

theorem locate?_eq_some (hr : h.locate? address = some (r, offset)) :
    r ∈ h.regions ∧ r.isLive = true ∧ address = r.base + offset ∧ address ∈ r.footprint := by
  rw [locate?_eq_or, Option.or_eq_some_iff] at hr
  rcases hr with hbase | ⟨-, hscan⟩
  · obtain ⟨s, hs, heq⟩ := Option.map_eq_some_iff.mp hbase
    obtain ⟨hmem, hlive, rfl⟩ := regionAt?_eq_some hs
    obtain ⟨rfl, rfl⟩ := Prod.mk.inj heq
    exact ⟨hmem, hlive, rfl, s.base_mem_footprint⟩
  · exact scan?_eq_some hscan

/-- The bytes behind an address, up to the end of its region, are the region's own. -/
theorem mem_footprint_of_located {k : Nat} (hr : h.locate? address = some (r, offset))
    (hk : offset + k < r.size) : address + k ∈ r.footprint := by
  obtain ⟨-, -, rfl, -⟩ := locate?_eq_some hr
  rw [Region.mem_footprint_iff, Region.stop]
  omega

/-- A live region is found at each address of its footprint. -/
theorem WellFormed.locate?_of_mem_footprint (hwf : h.WellFormed) (hr : r ∈ h.regions)
    (hlive : r.isLive = true) (hx : address ∈ r.footprint) :
    h.locate? address = some (r, address - r.base) := by
  rw [locate?]
  split
  · next s hs =>
    obtain ⟨hmem, -, rfl⟩ := regionAt?_eq_some hs
    obtain rfl := hwf.eq_of_mem_footprint hr hmem hx s.base_mem_footprint
    rw [Nat.sub_self]
  · next hnone =>
    -- the address is not the base, so it is one of the bytes
    have hbase : address ≠ r.base := by
      rintro rfl
      rw [hwf.regionAt?_base hr hlive] at hnone
      cases hnone
    have hcovers : r.covers address = true := by
      rw [Region.mem_footprint_iff, Region.stop] at hx
      rw [Region.covers_iff]
      omega
    have hfound : (h.regions.find? fun r ↦ r.isLive && r.covers address).isSome := by
      rw [List.find?_isSome]
      exact ⟨r, hr, by rw [hlive, hcovers, Bool.and_self]⟩
    obtain ⟨s, hs⟩ := Option.isSome_iff_exists.mp hfound
    have hscovers := List.find?_some hs
    obtain rfl := hwf.eq_of_mem_footprint hr (List.mem_of_find?_eq_some hs) hx
      (Region.mem_footprint_of_covers (Bool.and_eq_true_iff.mp hscovers).2)
    rw [hs, Option.map_some]

theorem WellFormed.locate?_base (hwf : h.WellFormed) (hr : r ∈ h.regions)
    (hlive : r.isLive = true) : h.locate? r.base = some (r, 0) := by
  rw [hwf.locate?_of_mem_footprint hr hlive r.base_mem_footprint, Nat.sub_self]

/-- An address of a freed region is in no live one. -/
theorem WellFormed.locate?_eq_none (hwf : h.WellFormed) (hr : r ∈ h.regions)
    (hfreed : r.isLive = false) (hx : address ∈ r.footprint) : h.locate? address = none := by
  rw [Option.eq_none_iff_forall_ne_some]
  rintro ⟨s, offset⟩ hs
  obtain ⟨hmem, hlive, -, hxs⟩ := locate?_eq_some hs
  obtain rfl := hwf.eq_of_mem_footprint hr hmem hx hxs
  rw [hfreed] at hlive
  cases hlive

theorem regionAt?_eq_none_of_locate? (hnone : h.locate? address = none) :
    h.regionAt? address = none := by
  rw [locate?] at hnone
  split at hnone
  · cases hnone
  · assumption

theorem WellFormed.locate?_eq_some_iff (hwf : h.WellFormed) :
    h.locate? address = some (r, offset) ↔ r ∈ h.regions ∧ r.MeetsAt address offset := by
  constructor
  · intro hr
    obtain ⟨hmem, hlive, haddress, hx⟩ := locate?_eq_some hr
    exact ⟨hmem, Region.meetsAt_of_mem_footprint hlive haddress hx⟩
  · rintro ⟨hmem, hmeets⟩
    rw [hwf.locate?_of_mem_footprint hmem hmeets.1 hmeets.mem_footprint, hmeets.2.1,
      Nat.add_sub_cancel_left]

/-! ## The order of the regions -/

/-- A search for a region that has the address in its footprint finds the same in every order. -/
theorem WellFormed.find?_of_perm (hwf : h.WellFormed) {order : List Region}
    (hperm : order.Perm h.regions) (address : Nat) (test : Region → Bool)
    (htest : ∀ r, test r = true → address ∈ r.footprint) :
    order.find? test = h.regions.find? test := by
  refine List.find?_eq_find?_of_perm hperm fun r hr s hs ↦ ?_
  exact hwf.eq_of_mem_footprint (hperm.subset hr.1) (hperm.subset hs.1) (htest r hr.2)
    (htest s hs.2)

private theorem WellFormed.regionAt?_of_perm (hwf : h.WellFormed) {order : List Region}
    (hperm : order.Perm h.regions) (address : Nat) :
    { h with regions := order }.regionAt? address = h.regionAt? address := by
  refine hwf.find?_of_perm hperm address _ fun r hr ↦ ?_
  rw [Bool.and_eq_true, beq_iff_eq] at hr
  exact hr.2 ▸ r.base_mem_footprint

private theorem WellFormed.scan?_of_perm (hwf : h.WellFormed) {order : List Region}
    (hperm : order.Perm h.regions) (address : Nat) :
    { h with regions := order }.scan? address = h.scan? address := by
  have hfind := hwf.find?_of_perm hperm address (fun r ↦ r.isLive && r.covers address)
    fun r hr ↦ Region.mem_footprint_of_covers (Bool.and_eq_true_iff.mp hr).2
  rw [scan?, scan?, hfind]

theorem WellFormed.locate?_of_perm (hwf : h.WellFormed) {order : List Region}
    (hperm : order.Perm h.regions) (address : Nat) :
    { h with regions := order }.locate? address = h.locate? address := by
  rw [locate?_eq_or, locate?_eq_or, hwf.regionAt?_of_perm hperm, hwf.scan?_of_perm hperm]

/-- Where the address is a base, the scan finds no other region than the one that begins there. -/
theorem WellFormed.scan?_of_regionAt? (hwf : h.WellFormed) (hr : h.regionAt? address = some r)
    (hs : h.scan? address = some (s, offset)) : s = r ∧ offset = 0 := by
  obtain ⟨hmem, -, rfl⟩ := regionAt?_eq_some hr
  obtain ⟨hs, -, hoffset, hx⟩ := scan?_eq_some hs
  obtain rfl := hwf.eq_of_mem_footprint hs hmem hx r.base_mem_footprint
  exact ⟨rfl, Nat.left_eq_add.mp hoffset⟩

/-- **Looking up an address is exact, in whatever order the regions are tried.** What is found is
the live region that the address meets, with its offset; there is at most one, so the look-up by the
base and the scan over the bytes never disagree, and no order of the regions finds another. -/
theorem locate?_exact_in_every_order (target : Target) (limit : Nat) (requests : List Request)
    (order : List Region) (address : Nat) :
    let h := (empty target limit).after requests
    let h' := { h with regions := order }
    order.Perm h.regions →
      (∀ r offset, h'.locate? address = some (r, offset) ↔
        r ∈ h.regions ∧ r.MeetsAt address offset) ∧
      (∀ r ∈ h.regions, ∀ s ∈ h.regions, ∀ i j,
        r.MeetsAt address i → s.MeetsAt address j → r = s ∧ i = j) ∧
      (∀ r s offset, h'.regionAt? address = some r → h'.scan? address = some (s, offset) →
        s = r ∧ offset = 0) ∧
      h'.locate? address = h.locate? address := by
  intro h h' hperm
  have hwf : h.WellFormed := wellFormed_after target limit requests
  have hsame : h'.locate? address = h.locate? address := hwf.locate?_of_perm hperm address
  refine ⟨fun r offset ↦ ?_, fun r hr s hs i j hi hj ↦ ?_, fun r s offset hr hs ↦ ?_, hsame⟩
  · rw [hsame]
    exact hwf.locate?_eq_some_iff
  · have hboth := (hwf.locate?_eq_some_iff.mpr ⟨hr, hi⟩).symm.trans
      (hwf.locate?_eq_some_iff.mpr ⟨hs, hj⟩)
    exact Prod.mk.inj (Option.some.inj hboth)
  · rw [hwf.regionAt?_of_perm hperm] at hr
    rw [hwf.scan?_of_perm hperm] at hs
    exact hwf.scan?_of_regionAt? hr hs

/-- In reverse order, too, a region without bytes is found at its base and there by the base alone,
a byte is found by the scan alone, and a freed region is passed over. -/
theorem locate?_exact_in_every_order_reverse :
    let h := (empty {}).after [.alloc 24, .alloc 0, .free 0x7FFF00000000, .alloc 8]
    let h' := { h with regions := h.regions.reverse }
    h'.regions.map (fun r ↦ (r.base, r.size, r.isLive))
        = [(0x7FFF00000000, 24, false), (0x7FFF00000020, 0, true), (0x7FFF00000030, 8, true)] ∧
      h'.locate? 0x7FFF00000020 = some (.zeroed 0x7FFF00000020 0, 0) ∧
      h'.scan? 0x7FFF00000020 = none ∧
      h'.locate? 0x7FFF00000034 = h.locate? 0x7FFF00000034 ∧
      h'.regionAt? 0x7FFF00000034 = none ∧ h'.locate? 0x7FFF00000008 = none := by
  obtain ⟨hexact, -⟩ := locate?_exact_in_every_order {} defaultLimit
    [.alloc 24, .alloc 0, .free 0x7FFF00000000, .alloc 8] _ 0x7FFF00000020
    (List.reverse_perm _)
  obtain ⟨-, -, -, hsame⟩ := locate?_exact_in_every_order {} defaultLimit
    [.alloc 24, .alloc 0, .free 0x7FFF00000000, .alloc 8] _ 0x7FFF00000034
    (List.reverse_perm _)
  refine ⟨rfl, (hexact _ _).mpr ⟨?_, rfl, rfl, .inr rfl⟩, rfl, hsame, rfl, rfl⟩
  exact .tail _ (.head _)

/-! ## Looking at an address -/

private theorem find_of_not_located (hnone : h.locate? address = none) :
    h.find address = .error (.invalidPointer address .outsideRegions) := by
  rw [find, hnone]

theorem handleAt_of_not_located (hnone : h.locate? address = none) :
    h.handleAt address = .error (.invalidPointer address .outsideRegions) := by
  rw [handleAt, find_of_not_located hnone]
  rfl

theorem read_of_not_located (hnone : h.locate? address = none) (size : Nat) :
    h.read address size = .error (.invalidPointer address .outsideRegions) := by
  rw [read, find_of_not_located hnone]
  rfl

theorem handleAt_of_located (hr : h.locate? address = some (r, offset)) :
    h.handleAt address = .ok ⟨address, r.size - offset⟩ := by
  rw [handleAt, find, hr]
  rfl

theorem read_of_located (hr : h.locate? address = some (r, offset)) {size : Nat}
    (hfit : offset + size ≤ r.size) :
    h.read address size = .ok (((r.bytes?.getD []).drop offset).take size) := by
  rw [read, find, hr]
  exact if_neg (Nat.not_lt.mpr hfit)

theorem read_of_overrun (hr : h.locate? address = some (r, offset)) {size : Nat}
    (hlong : r.size < offset + size) : h.read address size = .error .outOfBounds := by
  rw [read, find, hr]
  exact if_pos hlong

/-! ## A region that is not touched stays -/

theorem mem_updateAt {base : Nat} {change : Region → Region} (hr : r ∈ h.regions)
    (hsame : r.base = base → change r = r) : r ∈ h.updateAt base change := by
  refine List.mem_map.mpr ⟨r, hr, ?_⟩
  split_ifs with hbase
  · exact hsame hbase
  · rfl

end Heap

end CValues
