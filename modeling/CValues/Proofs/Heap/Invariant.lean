import CValues.Proofs.Heap.Run
import Mathlib.Algebra.GroupWithZero.Nat
import Mathlib.Data.List.Nodup
import Mathlib.Order.CompletePartialOrder
import Mathlib.Order.Interval.Set.Disjoint

/-!
# The layout of the heap

Regions lie one after the other, the latest on top, each on its own footprint of at least one byte,
between the first address and the next one to be handed out. A live region holds as many bytes as it
was made with, and the bytes in use are those of the live regions.

The count of bytes in use is kept in 64 bits, and the check against the limit stops at the largest
such number, so the limit alone does not keep the count from overflowing. What does is the address
space: the live regions lie side by side between the first address and the next one, so there are
never more bytes in use than addresses handed out. `WellFormed.room` is this link.
-/

namespace CValues

namespace Region

/-- The address after the last one that the region keeps for itself. -/
def stop (r : Region) : Nat := r.base + max r.size 1

/-- The addresses that the region keeps for itself. A region of size zero keeps one. -/
def footprint (r : Region) : Set Nat := Set.Ico r.base r.stop

/-- The bytes that count as in use. -/
def used (r : Region) : Nat := if r.isLive then r.size else 0

/-- A live region holds as many bytes as its size says, and a freed one none. -/
def Filled (r : Region) : Prop := (r.bytes?.getD []).length = r.used

theorem base_lt_stop (r : Region) : r.base < r.stop := by
  rw [stop]
  omega

private theorem base_lt_of_stop_le {r s : Region} (h : s.stop ≤ r.base) : s.base < r.base :=
  s.base_lt_stop.trans_le h

theorem used_of_isLive {r : Region} (h : r.isLive = true) : r.used = r.size := if_pos h

@[simp] theorem used_zeroed (base size : Nat) : (zeroed base size).used = size := rfl

@[simp] theorem used_release (r : Region) : r.release.used = 0 := rfl

@[simp] theorem isLive_write (r : Region) (offset : Nat) (data : List UInt8) :
    (r.write offset data).isLive = r.isLive := Option.isSome_map

private theorem used_write (r : Region) (offset : Nat) (data : List UInt8) :
    (r.write offset data).used = r.used := by
  rw [used, isLive_write]
  rfl

private theorem filled_zeroed (base size : Nat) : (zeroed base size).Filled := List.length_replicate

private theorem filled_release (r : Region) : r.release.Filled := rfl

theorem length_overwrite {bytes data : List UInt8} {offset : Nat}
    (h : offset + data.length ≤ bytes.length) :
    (overwrite bytes offset data).length = bytes.length := by
  rw [overwrite, List.length_append, List.length_append, List.length_take, List.length_drop]
  omega

theorem Filled.write {r : Region} (h : r.Filled) {offset : Nat} {data : List UInt8}
    (hfit : offset + data.length ≤ r.size) : (r.write offset data).Filled := by
  rw [Filled, used_write, ← h]
  cases hbytes : r.bytes? with
  | none => simp only [Region.write, hbytes, Option.map_none]
  | some bytes =>
    have hlive : r.isLive = true := by rw [isLive, hbytes]; rfl
    have hlength : bytes.length = r.size := by
      rw [Filled, used_of_isLive hlive, hbytes] at h
      exact h
    simp only [Region.write, hbytes, Option.map_some, Option.getD_some]
    exact length_overwrite (by omega)

end Region

namespace Heap

theorem firstAddress_pos (p : PointerSize) : 0 < firstAddress p := by cases p <;> decide

private theorem sixteen_dvd_firstAddress (p : PointerSize) : 16 ∣ firstAddress p := by
  cases p <;> decide

private theorem fits_firstAddress (p : PointerSize) :
    p.Fits (firstAddress p) := by cases p <;> decide

theorem le_alignUp (address : Nat) : address ≤ alignUp address := by
  rw [alignUp]
  omega

theorem sixteen_dvd_alignUp (address : Nat) : 16 ∣ alignUp address := Nat.dvd_mul_left _ _

/-- The heap is laid out as its allocations were made. -/
structure WellFormed (h : Heap) : Prop where
  /-- The next address is aligned. -/
  next_aligned : 16 ∣ h.next
  /-- The next address is one of the machine. -/
  next_fits : h.target.pointerSize.Fits h.next
  /-- Every region begins at an aligned address. -/
  aligned : ∀ r ∈ h.regions, 16 ∣ r.base
  /-- No region begins before the first address. -/
  above : ∀ r ∈ h.regions, firstAddress h.target.pointerSize ≤ r.base
  /-- No region reaches beyond the next address. -/
  below : ∀ r ∈ h.regions, r.stop ≤ h.next
  /-- A region begins where every earlier one has ended. -/
  stacked : h.regions.Pairwise fun later earlier ↦ earlier.stop ≤ later.base
  /-- Live regions hold their bytes and freed ones none. -/
  filled : ∀ r ∈ h.regions, r.Filled
  /-- The count of bytes in use is exact. -/
  inUse_eq : h.inUse = (h.regions.map Region.used).sum
  /-- The count stays within the limit. -/
  inUse_le : h.inUse ≤ h.limit
  /-- There are no more bytes in use than addresses handed out. -/
  room : firstAddress h.target.pointerSize + h.inUse ≤ h.next

theorem WellFormed.eq_of_base_eq {h : Heap} (hwf : h.WellFormed) {r s : Region}
    (hr : r ∈ h.regions) (hs : s ∈ h.regions) (hbase : r.base = s.base) : r = s := by
  have hdistinct : (h.regions.map Region.base).Nodup :=
    List.pairwise_map.mpr (hwf.stacked.imp fun hle ↦ (Region.base_lt_of_stop_le hle).ne')
  exact List.inj_on_of_nodup_map hdistinct hr hs hbase

theorem wellFormed_empty (target : Target) (limit : Nat) : (empty target limit).WellFormed where
  next_aligned := sixteen_dvd_firstAddress _
  next_fits := fits_firstAddress _
  aligned := by simp [empty]
  above := by simp [empty]
  below := by simp [empty]
  stacked := .nil
  filled := by simp [empty]
  inUse_eq := rfl
  inUse_le := Nat.zero_le _
  room := Nat.le_refl _

/-! ## Finding a region -/

theorem isLive_of_regionAt? {h : Heap} {address : Nat} {r : Region}
    (hr : h.regionAt? address = some r) : r.isLive = true :=
  (Bool.and_eq_true _ _ ▸ List.find?_some hr).1

theorem mem_of_locate? {h : Heap} {address offset : Nat} {r : Region}
    (hr : h.locate? address = some (r, offset)) : r ∈ h.regions := by
  rw [locate?] at hr
  split at hr
  · next s hs =>
    obtain rfl := (Prod.mk.inj (Option.some.inj hr)).1
    exact List.mem_of_find?_eq_some hs
  · obtain ⟨s, hs, heq⟩ := Option.map_eq_some_iff.mp hr
    obtain rfl := (Prod.mk.inj heq).1
    exact List.mem_of_find?_eq_some hs

/-! ## Making a region -/

theorem nextAddress?_eq_some {h : Heap} {size next : Nat}
    (hnext : h.nextAddress? size = some next) :
    next = alignUp (h.next + max size 1) ∧ h.next + max size 1 + 15 < pow2 64
      ∧ h.target.pointerSize.Fits next := by
  rw [nextAddress?] at hnext
  split_ifs at hnext with hroom
  obtain rfl := Option.some.inj hnext
  exact ⟨rfl, hroom⟩

namespace WellFormed

variable {h : Heap}

/-- An allocation that finds an address does not overflow the count of bytes in use. -/
theorem inUse_add_lt (hwf : h.WellFormed) {size next : Nat}
    (hnext : h.nextAddress? size = some next) : h.inUse + size < pow2 64 := by
  obtain ⟨-, hstop, -⟩ := nextAddress?_eq_some hnext
  have hroom := hwf.room
  omega

theorem allocated (hwf : h.WellFormed) {size next : Nat} (hlimit : h.inUseAfter size ≤ h.limit)
    (hnext : h.nextAddress? size = some next) : (h.allocated size next).WellFormed := by
  have hcount := hwf.inUse_add_lt hnext
  obtain ⟨rfl, -, hfits⟩ := nextAddress?_eq_some hnext
  have hstop : h.next + max size 1 ≤ alignUp (h.next + max size 1) := le_alignUp _
  have hroom := hwf.room
  -- the new region begins at the old next address, which no other region reaches beyond
  refine ⟨sixteen_dvd_alignUp _, hfits, ?_, ?_, ?_, ?_, ?_, ?_, ?_, ?_⟩
  · exact List.forall_mem_cons.mpr ⟨hwf.next_aligned, hwf.aligned⟩
  · exact List.forall_mem_cons.mpr ⟨Nat.le_of_add_right_le hroom, hwf.above⟩
  · refine List.forall_mem_cons.mpr ⟨hstop, fun r hr ↦ (hwf.below r hr).trans ?_⟩
    exact (Nat.le_add_right _ _).trans hstop
  · exact List.pairwise_cons.mpr ⟨hwf.below, hwf.stacked⟩
  · exact List.forall_mem_cons.mpr ⟨Region.filled_zeroed _ _, hwf.filled⟩
  · change h.inUse + size = _
    rw [Heap.allocated, List.map_cons, List.sum_cons, ← hwf.inUse_eq, Region.used_zeroed,
      Nat.add_comm]
  · -- the sum that was checked is the exact one, since it stays below the number it stops at
    have hmin : h.inUseAfter size = h.inUse + size := Nat.min_eq_left (by omega)
    rwa [hmin] at hlimit
  · change firstAddress h.target.pointerSize + (h.inUse + size) ≤ alignUp _
    omega

theorem skipped (hwf : h.WellFormed) {size next : Nat}
    (hnext : h.nextAddress? size = some next) : (h.skipped next).WellFormed := by
  obtain ⟨rfl, -, hfits⟩ := nextAddress?_eq_some hnext
  have hle : h.next ≤ alignUp (h.next + max size 1) :=
    (Nat.le_add_right _ _).trans (le_alignUp _)
  exact
    { hwf with
      next_aligned := sixteen_dvd_alignUp _
      next_fits := hfits
      below := fun r hr ↦ (hwf.below r hr).trans hle
      room := hwf.room.trans hle }

end WellFormed

/-! ## Changing the region at a base -/

section UpdateAt

variable {h : Heap} {base : Nat} {change : Region → Region}

private theorem forall_mem_updateAt {P : Region → Prop} (hP : ∀ r ∈ h.regions, P r)
    (hchange : ∀ r ∈ h.regions, r.base = base → P (change r)) :
    ∀ r ∈ h.updateAt base change, P r := by
  intro r hr
  obtain ⟨s, hs, rfl⟩ := List.mem_map.mp hr
  split_ifs with hbase
  · exact hchange s hs hbase
  · exact hP s hs

private theorem pairwise_updateAt (hbase : ∀ r, (change r).base = r.base)
    (hsize : ∀ r, (change r).size = r.size)
    (hstacked : h.regions.Pairwise fun later earlier ↦ earlier.stop ≤ later.base) :
    (h.updateAt base change).Pairwise fun later earlier ↦ earlier.stop ≤ later.base := by
  refine hstacked.map _ fun later earlier hle ↦ ?_
  have hstop : ∀ r, (if r.base = base then change r else r).stop = r.stop := by
    intro r
    split_ifs
    · rw [Region.stop, Region.stop, hbase, hsize]
    · rfl
  have hstart : ∀ r, (if r.base = base then change r else r).base = r.base := by
    intro r
    split_ifs
    · exact hbase r
    · rfl
  rwa [hstop, hstart]

end UpdateAt

namespace WellFormed

variable {h : Heap}

/-- Releasing a live region takes its bytes off the sum over all regions and nothing else, since no
other region begins where it does. -/
theorem sum_used_release {regions : List Region} {r : Region} (hr : r ∈ regions)
    (hlive : r.isLive = true)
    (hstacked : regions.Pairwise fun later earlier ↦ earlier.stop ≤ later.base) :
    ((regions.map fun s ↦ if s.base = r.base then s.release else s).map Region.used).sum + r.size
      = (regions.map Region.used).sum := by
  induction regions with
  | nil => exact absurd hr List.not_mem_nil
  | cons s rest ih =>
    obtain ⟨hbelow, hrest⟩ := List.pairwise_cons.mp hstacked
    rcases List.mem_cons.mp hr with rfl | hr
    · have hothers : (rest.map fun s ↦ if s.base = r.base then s.release else s) = rest := by
        refine (List.map_congr_left fun s hs ↦ if_neg ?_).trans (List.map_id rest)
        exact (Region.base_lt_of_stop_le (hbelow s hs)).ne
      rw [List.map_cons, if_pos rfl, hothers, List.map_cons, List.sum_cons, List.map_cons,
        List.sum_cons, Region.used_release, Region.used_of_isLive hlive]
      omega
    · have hne : s.base ≠ r.base := (Region.base_lt_of_stop_le (hbelow r hr)).ne'
      rw [List.map_cons, if_neg hne, List.map_cons, List.sum_cons, List.map_cons, List.sum_cons,
        ← ih hr hrest]
      omega

/-- Freeing a region never takes more off the count of bytes in use than there are. -/
theorem size_le_inUse (hwf : h.WellFormed) {address : Nat} {r : Region}
    (hr : h.regionAt? address = some r) : r.size ≤ h.inUse := by
  have hsum := sum_used_release (List.mem_of_find?_eq_some hr) (isLive_of_regionAt? hr) hwf.stacked
  rw [hwf.inUse_eq, ← hsum]
  exact Nat.le_add_left _ _

theorem released (hwf : h.WellFormed) {r : Region} (hr : h.regionAt? r.base = some r) :
    (h.released r).WellFormed := by
  have hsum := sum_used_release (List.mem_of_find?_eq_some hr) (isLive_of_regionAt? hr) hwf.stacked
  have hcount : h.inUse - r.size ≤ h.inUse := Nat.sub_le _ _
  refine ⟨hwf.next_aligned, hwf.next_fits, ?_, ?_, ?_, ?_, ?_, ?_, ?_, ?_⟩
  · exact forall_mem_updateAt hwf.aligned fun s hs _ ↦ hwf.aligned s hs
  · exact forall_mem_updateAt hwf.above fun s hs _ ↦ hwf.above s hs
  · exact forall_mem_updateAt hwf.below fun s hs _ ↦ hwf.below s hs
  · exact pairwise_updateAt (fun _ ↦ rfl) (fun _ ↦ rfl) hwf.stacked
  · exact forall_mem_updateAt hwf.filled fun s _ _ ↦ s.filled_release
  · change h.inUse - r.size = _
    rw [hwf.inUse_eq, ← hsum]
    exact Nat.add_sub_cancel _ _
  · exact hcount.trans hwf.inUse_le
  · exact (Nat.add_le_add_left hcount _).trans hwf.room

theorem overwritten (hwf : h.WellFormed) {address offset : Nat} {r : Region} {data : List UInt8}
    (hr : h.locate? address = some (r, offset)) (hfit : offset + data.length ≤ r.size) :
    (h.overwritten r offset data).WellFormed := by
  refine ⟨hwf.next_aligned, hwf.next_fits, ?_, ?_, ?_, ?_, ?_, ?_, hwf.inUse_le, hwf.room⟩
  · exact forall_mem_updateAt hwf.aligned fun s hs _ ↦ hwf.aligned s hs
  · exact forall_mem_updateAt hwf.above fun s hs _ ↦ hwf.above s hs
  · exact forall_mem_updateAt hwf.below fun s hs _ ↦ hwf.below s hs
  · exact pairwise_updateAt (fun _ ↦ rfl) (fun _ ↦ rfl) hwf.stacked
  · refine forall_mem_updateAt hwf.filled fun s hs hbase ↦ (hwf.filled s hs).write ?_
    -- the region that was found is the only one at its base
    rwa [hwf.eq_of_base_eq hs (mem_of_locate? hr) hbase]
  · change h.inUse = _
    rw [hwf.inUse_eq, Heap.overwritten, updateAt, List.map_map]
    refine congrArg List.sum (List.map_congr_left fun s _ ↦ ?_)
    rw [Function.comp_apply]
    split_ifs
    · exact (s.used_write offset data).symm
    · rfl

end WellFormed

/-! ## Every run -/

theorem WellFormed.change {h h' : Heap} (hchange : Change h h') (hwf : h.WellFormed) :
    h'.WellFormed := by
  cases hchange with
  | allocate hlimit hnext => exact hwf.allocated hlimit hnext
  | skip hnext => exact hwf.skipped hnext
  | release hr => exact hwf.released hr
  | overwrite hr hfit => exact hwf.overwritten hr hfit

theorem WellFormed.serve {h : Heap} (hwf : h.WellFormed) (request : Request) :
    (h.serve request).WellFormed :=
  (evolves_serve h request).preserves (fun _ _ ↦ WellFormed.change) hwf

theorem WellFormed.after {h : Heap} (hwf : h.WellFormed) (requests : List Request) :
    (h.after requests).WellFormed :=
  (evolves_after h requests).preserves (fun _ _ ↦ WellFormed.change) hwf

/-- A heap that began empty is well formed after every run. -/
theorem wellFormed_after (target : Target) (limit : Nat) (requests : List Request) :
    ((empty target limit).after requests).WellFormed :=
  (wellFormed_empty target limit).after requests

private theorem sum_map_used (regions : List Region) :
    (regions.map Region.used).sum = ((regions.filter Region.isLive).map Region.size).sum := by
  induction regions with
  | nil => rfl
  | cons r rest ih =>
    rw [List.map_cons, List.sum_cons, ih, Region.used]
    cases hlive : r.isLive with
    | false => rw [List.filter_cons_of_neg (by simp [hlive]), if_neg (by simp), Nat.zero_add]
    | true => rw [List.filter_cons_of_pos hlive, if_pos rfl, List.map_cons, List.sum_cons]

/-- **The layout of every heap that a program can reach.** Regions begin at aligned addresses that
are not null and keep footprints of their own between the first address and the next; live regions
are full and freed ones empty; the count of bytes in use is exact and within the limit. So neither
the sum in an allocation leaves 64 bits nor does the difference in a release stop at zero, whatever
the limit. -/
theorem layout_after (target : Target) (limit : Nat) (requests : List Request) :
    let h := (empty target limit).after requests
    (∀ r ∈ h.regions, r.base ≠ 0 ∧ 16 ∣ r.base) ∧
      h.regions.Pairwise (fun r s ↦ Disjoint r.footprint s.footprint) ∧
      (∀ r ∈ h.regions, r.footprint ⊆ Set.Ico (firstAddress target.pointerSize) h.next) ∧
      target.pointerSize.Fits h.next ∧
      (∀ r ∈ h.regions, (r.bytes?.getD []).length = if r.isLive then r.size else 0) ∧
      h.inUse = ((h.regions.filter Region.isLive).map Region.size).sum ∧
      h.inUse ≤ limit ∧
      (∀ size handle, ((alloc size).run h).1.result = .ok handle → h.inUse + size < pow2 64) ∧
      (∀ address r, h.regionAt? address = some r → r.size ≤ h.inUse) := by
  intro h
  have hwf : h.WellFormed := wellFormed_after target limit requests
  obtain ⟨htarget, hlimit⟩ : h.target = target ∧ h.limit = limit :=
    (evolves_after _ requests).target_eq_and_limit_eq
  refine ⟨fun r hr ↦ ⟨?_, hwf.aligned r hr⟩, ?_, fun r hr ↦ ?_, htarget ▸ hwf.next_fits,
    hwf.filled, hwf.inUse_eq.trans (sum_map_used _), hlimit ▸ hwf.inUse_le, ?_, ?_⟩
  · exact ((firstAddress_pos _).trans_le (hwf.above r hr)).ne'
  · refine hwf.stacked.imp fun hle ↦ Disjoint.symm ?_
    exact Set.Ico_disjoint_Ico_same.mono_left (Set.Ico_subset_Ico_right hle)
  · exact Set.Ico_subset_Ico (htarget ▸ hwf.above r hr) (hwf.below r hr)
  · intro size handle hok
    obtain ⟨next, hnext⟩ := nextAddress?_of_alloc_ok hok
    exact hwf.inUse_add_lt hnext
  · exact fun address r ↦ hwf.size_le_inUse

/-- A freed region keeps its addresses, and a region of size zero has one of its own, also where the
limit is the greatest there is. -/
theorem layout_after_free :
    let h := (empty {} (pow2 64 - 1)).after
      [.alloc 24, .alloc 0, .free 0x7FFF00000000, .write 0x7FFF00000000 [1], .alloc 8]
    h.regions.map (fun r ↦ (r.base, r.size, r.isLive))
        = [(0x7FFF00000030, 8, true), (0x7FFF00000020, 0, true), (0x7FFF00000000, 24, false)] ∧
      h.regions.Pairwise (fun r s ↦ Disjoint r.footprint s.footprint) ∧
      h.regionAt? 0x7FFF00000030 = some (.zeroed 0x7FFF00000030 8) ∧ 8 ≤ h.inUse ∧
      ((alloc 16).run h).1.result = .ok ⟨0x7FFF00000040, 16⟩ ∧ h.inUse + 16 < pow2 64 := by
  obtain ⟨-, hdisjoint, -, -, -, -, -, halloc, hfree⟩ := layout_after {} (pow2 64 - 1)
    [.alloc 24, .alloc 0, .free 0x7FFF00000000, .write 0x7FFF00000000 [1], .alloc 8]
  exact ⟨rfl, hdisjoint, rfl, hfree 0x7FFF00000030 _ rfl, rfl, halloc 16 _ rfl⟩

end Heap

end CValues
