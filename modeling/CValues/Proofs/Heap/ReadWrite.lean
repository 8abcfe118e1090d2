import CValues.Proofs.Heap.Access

/-!
# Reading what was written

Seen from outside, the heap is a partial map from addresses to bytes: `byteAt?` is the byte of the
live region that an address lies in. A read gives the bytes of this map at a row of addresses, and
whether it succeeds is decided by the shape of the regions alone, that is by where they begin, how
large they are and whether they are live.

A write keeps all shapes, and changes the map at the addresses it was given and nowhere else. Since
no two regions share an address, it does not matter here whether an address lies in the region that
is written to or in another one, nor from which of its addresses that region was found.
-/

namespace CValues

namespace Region

variable {bytes data : List UInt8} {offset : Nat}

/-- What is known of a region without its bytes: base, size, and whether it is live. -/
def shape (r : Region) : Nat × Nat × Bool := (r.base, r.size, r.isLive)

private theorem shape_write (r : Region) (offset : Nat) (data : List UInt8) :
    (r.write offset data).shape = r.shape := by
  rw [shape, isLive_write]
  rfl

/-- The bytes after a replacement, one by one. -/
theorem getElem?_overwrite (hfit : offset + data.length ≤ bytes.length) (i : Nat) :
    (overwrite bytes offset data)[i]?
      = if offset ≤ i ∧ i < offset + data.length then data[i - offset]? else bytes[i]? := by
  have hfront : (bytes.take offset).length = offset := List.length_take_of_le (by omega)
  rw [overwrite]
  by_cases hbefore : i < offset
  · rw [List.getElem?_append_left (by omega), List.getElem?_take_of_lt hbefore, if_neg (by omega)]
  · rw [List.getElem?_append_right (by omega), hfront]
    by_cases hinside : i < offset + data.length
    · rw [List.getElem?_append_left (by omega), if_pos (by omega)]
    · rw [List.getElem?_append_right (by omega), List.getElem?_drop, if_neg (by omega)]
      congr 1
      omega

private theorem Filled.getElem?_write {r : Region} (hfilled : r.Filled) (hlive : r.isLive = true)
    (hfit : offset + data.length ≤ r.size) (i : Nat) :
    ((r.write offset data).bytes?.getD [])[i]?
      = if offset ≤ i ∧ i < offset + data.length then data[i - offset]?
        else (r.bytes?.getD [])[i]? := by
  obtain ⟨bytes, hbytes⟩ := Option.isSome_iff_exists.mp hlive
  rw [Filled, used_of_isLive hlive, hbytes, Option.getD_some] at hfilled
  rw [Region.write, hbytes, Option.map_some, Option.getD_some, Option.getD_some]
  exact getElem?_overwrite (hfilled.symm ▸ hfit) i

end Region

namespace Heap

variable {h : Heap} {r : Region} {address offset size : Nat} {data : List UInt8}

/-! ## Changes that keep the shapes -/

section UpdateAt

variable {base : Nat} {change : Region → Region} (hshape : ∀ r, (change r).shape = r.shape)
include hshape

private theorem map_shape_updateAt (h : Heap) :
    (h.updateAt base change).map Region.shape = h.regions.map Region.shape := by
  rw [updateAt, List.map_map]
  refine List.map_congr_left fun r _ ↦ ?_
  rw [Function.comp_apply]
  split_ifs
  · exact hshape r
  · rfl

/-- A search that asks for shapes finds the same region, changed if it is the one at the base. -/
theorem find?_updateAt (h : Heap) {test : Region → Bool}
    (htest : ∀ r s : Region, r.shape = s.shape → test r = test s) :
    (h.updateAt base change).find? test
      = (h.regions.find? test).map fun r ↦ if r.base = base then change r else r := by
  have hsame : (test ∘ fun r ↦ if r.base = base then change r else r) = test := by
    funext r
    rw [Function.comp_apply]
    split_ifs
    · exact htest _ _ (hshape r)
    · rfl
  rw [updateAt, List.find?_map, hsame]

private theorem locate?_updateAt (h : Heap) (address : Nat) :
    { h with regions := h.updateAt base change }.locate? address
      = (h.locate? address).map fun (r, offset) ↦
          (if r.base = base then change r else r, offset) := by
  have hbase : ∀ r, (if r.base = base then change r else r).base = r.base := by
    intro r
    split_ifs
    · exact congrArg Prod.fst (hshape r)
    · rfl
  rw [locate?_eq_or, locate?_eq_or, regionAt?, scan?, find?_updateAt hshape, find?_updateAt hshape,
    regionAt?, scan?]
  · simp [Option.map_or, Function.comp_def, hbase]
  · intro r s hrs
    simp only [Region.shape, Prod.mk.injEq] at hrs
    simp [Region.covers, hrs]
  · intro r s hrs
    simp only [Region.shape, Prod.mk.injEq] at hrs
    simp [hrs]

end UpdateAt

/-! ## The heap as a map of bytes -/

/-- The byte at an address, if it is one of a live region. -/
def byteAt? (h : Heap) (address : Nat) : Option UInt8 :=
  (h.locate? address).bind fun (r, offset) ↦ (r.bytes?.getD [])[offset]?

theorem read_eq (h : Heap) (address size : Nat) :
    h.read address size =
      match h.locate? address with
      | none => .error (.invalidPointer address .outsideRegions)
      | some (r, offset) =>
        if r.size < offset + size then .error .outOfBounds else .ok (r.slice offset size) := by
  rw [read, find]
  cases h.locate? address <;> rfl

private theorem read_eq_ok {bytes : List UInt8} (hread : h.read address size = .ok bytes) :
    ∃ r offset, h.locate? address = some (r, offset) ∧ offset + size ≤ r.size ∧
      bytes = r.slice offset size := by
  rw [read_eq] at hread
  split at hread
  · cases hread
  · next r offset hr =>
    split_ifs at hread with hfit
    exact ⟨r, offset, hr, Nat.le_of_not_lt hfit, (Except.ok.inj hread).symm⟩

theorem WellFormed.length_read (hwf : h.WellFormed) {bytes : List UInt8}
    (hread : h.read address size = .ok bytes) : bytes.length = size := by
  obtain ⟨r, offset, hr, hfit, rfl⟩ := read_eq_ok hread
  obtain ⟨hmem, hlive, -, -⟩ := locate?_eq_some hr
  exact (hwf.filled r hmem).length_slice hlive hfit

/-- A read gives the bytes of the map, in the order of their addresses. -/
theorem WellFormed.getElem?_read (hwf : h.WellFormed) {bytes : List UInt8}
    (hread : h.read address size = .ok bytes) {i : Nat} (hi : i < size) :
    bytes[i]? = h.byteAt? (address + i) := by
  obtain ⟨r, offset, hr, hfit, rfl⟩ := read_eq_ok hread
  have hinside := mem_footprint_of_located hr (Nat.lt_of_lt_of_le (Nat.add_lt_add_left hi _) hfit)
  obtain ⟨hmem, hlive, rfl, -⟩ := locate?_eq_some hr
  rw [byteAt?, hwf.locate?_of_mem_footprint hmem hlive hinside, Region.slice,
    List.getElem?_take_of_lt hi, List.getElem?_drop, Nat.add_assoc, Nat.add_sub_cancel_left]
  rfl

/-! ## Writing -/

theorem locate?_overwritten (h : Heap) (r : Region) (offset : Nat) (data : List UInt8)
    (address : Nat) :
    (h.overwritten r offset data).locate? address
      = (h.locate? address).map fun (s, i) ↦
          (if s.base = r.base then s.write offset data else s, i) :=
  locate?_updateAt (fun s ↦ s.shape_write offset data) h address

/-- A write inside a region changes the map at its own addresses, to the bytes that are written. -/
theorem WellFormed.byteAt?_overwritten (hwf : h.WellFormed)
    (hr : h.locate? address = some (r, offset)) (hfit : offset + data.length ≤ r.size) (y : Nat) :
    (h.overwritten r offset data).byteAt? y
      = if address ≤ y ∧ y < address + data.length then data[y - address]? else h.byteAt? y := by
  obtain ⟨hmem, hlive, rfl, -⟩ := locate?_eq_some hr
  have hwritten : r.base + offset ≤ y ∧ y < r.base + offset + data.length → y ∈ r.footprint := by
    rw [Region.mem_footprint_iff, Region.stop]
    omega
  rw [byteAt?, byteAt?, locate?_overwritten]
  by_cases hy : y ∈ r.footprint
  · rw [hwf.locate?_of_mem_footprint hmem hlive hy]
    simp only [Option.map_some, Option.bind_some, if_true,
      (hwf.filled r hmem).getElem?_write hlive hfit]
    have hbase := (Region.mem_footprint_iff.mp hy).1
    by_cases hdata : r.base + offset ≤ y ∧ y < r.base + offset + data.length
    · rw [if_pos hdata, if_pos (by omega), Nat.sub_sub]
    · rw [if_neg hdata, if_neg (by omega)]
  · rw [if_neg (mt hwritten hy)]
    rcases hs : h.locate? y with _ | ⟨s, i⟩
    · rfl
    · -- another region than the one written to, since that one does not have the address
      obtain ⟨hmem', -, -, hy'⟩ := locate?_eq_some hs
      have hother : s.base ≠ r.base := by
        intro hbase
        exact hy (hwf.eq_of_base_eq hmem' hmem hbase ▸ hy')
      simp only [Option.map_some, if_neg hother]

/-- Whether a read succeeds, and how it fails, is not changed by a write. -/
theorem read_overwritten_eq_error_iff (h : Heap) (r : Region) (offset : Nat) (data : List UInt8)
    (address size : Nat) (e : Error) :
    (h.overwritten r offset data).read address size = .error e ↔
      h.read address size = .error e := by
  rw [read_eq, read_eq, locate?_overwritten]
  rcases h.locate? address with _ | ⟨s, i⟩
  · rfl
  · have hsize : (if s.base = r.base then s.write offset data else s).size = s.size := by
      split_ifs <;> rfl
    simp only [Option.map_some, hsize]
    split_ifs <;> simp

/-- **Reading over a write.** After a write that succeeded, a read of any length from any address
fails exactly as it failed before, and otherwise gives at each address the byte that was written
there, or the one it gave before if none was. The regions keep their places, sizes and validity, and
the counts of the heap stay. -/
theorem read_over_write (target : Target) (limit : Nat) (requests : List Request) (a : Nat)
    (data : List UInt8) :
    let h := (empty target limit).after requests
    let h' := h.serve (.write a data)
    h.respond (.write a data) = .ok () →
      (∀ x n,
        (∀ e, h'.read x n = .error e ↔ h.read x n = .error e) ∧
        ∀ old, h.read x n = .ok old →
          ∃ new, h'.read x n = .ok new ∧ new.length = n ∧
            ∀ y, x ≤ y → y < x + n →
              new[y - x]? = if a ≤ y ∧ y < a + data.length then data[y - a]? else old[y - x]?) ∧
      h'.regions.map Region.shape = h.regions.map Region.shape ∧
      h'.next = h.next ∧ h'.inUse = h.inUse := by
  intro h h' hok
  have hwf : h.WellFormed := wellFormed_after target limit requests
  obtain ⟨e, he⟩ | ⟨r, offset, hr, hfit, hwrite⟩ := outcome_write_cases a data h
  · have herror := hok.symm.trans (Prod.mk.inj he).1
    cases herror
  have hh' : h' = h.overwritten r offset data := (Prod.mk.inj hwrite).2
  have hwf' : h'.WellFormed := hwf.serve _
  rw [hh'] at hwf' ⊢
  refine ⟨fun x n ↦ ⟨read_overwritten_eq_error_iff h r offset data x n, fun old hold ↦ ?_⟩,
    map_shape_updateAt (fun s ↦ s.shape_write offset data) h, rfl, rfl⟩
  rcases hnew : (h.overwritten r offset data).read x n with e | new
  · rw [read_overwritten_eq_error_iff, hold] at hnew
    cases hnew
  · refine ⟨new, rfl, hwf'.length_read hnew, fun y hxy hyn ↦ ?_⟩
    have hi : y - x < n := by omega
    have hy : x + (y - x) = y := by omega
    rw [hwf'.getElem?_read hnew hi, hwf.getElem?_read hold hi, hy,
      hwf.byteAt?_overwritten hr hfit]

/-- Two bytes are written up to the end of a region that another one follows directly. A read that
begins one byte before them finds both, and a read that is one byte longer still fails. -/
theorem read_over_write_end :
    ((empty {}).after [.alloc 16, .alloc 8]).respond (.write 0x7FFF0000000E [7, 9]) = .ok () ∧
      ((empty {}).after [.alloc 16, .alloc 8]).read 0x7FFF0000000D 3 = .ok [0, 0, 0] ∧
      (∃ new, (((empty {}).after [.alloc 16, .alloc 8]).serve
          (.write 0x7FFF0000000E [7, 9])).read 0x7FFF0000000D 3 = .ok new ∧
        new[0]? = some 0 ∧ new[1]? = some 7 ∧ new[2]? = some 9) ∧
      (((empty {}).after [.alloc 16, .alloc 8]).serve
        (.write 0x7FFF0000000E [7, 9])).read 0x7FFF0000000D 4 = .error .outOfBounds := by
  obtain ⟨hreads, -⟩ := read_over_write {} defaultLimit [.alloc 16, .alloc 8] 0x7FFF0000000E [7, 9]
    rfl
  obtain ⟨-, hbytes⟩ := hreads 0x7FFF0000000D 3
  obtain ⟨new, hnew, -, hbyte⟩ := hbytes [0, 0, 0] rfl
  obtain ⟨herror, -⟩ := hreads 0x7FFF0000000D 4
  refine ⟨rfl, rfl, ⟨new, hnew, ?_, ?_, ?_⟩, (herror .outOfBounds).mpr rfl⟩
  · exact hbyte 0x7FFF0000000D (by decide) (by decide)
  · exact hbyte 0x7FFF0000000E (by decide) (by decide)
  · exact hbyte 0x7FFF0000000F (by decide) (by decide)

end Heap

end CValues
