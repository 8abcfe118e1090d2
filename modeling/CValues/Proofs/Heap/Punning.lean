import CValues.Proofs.Heap.Making
import CValues.Proofs.Heap.ReadWrite

/-!
# Reading a stored value at another type

The heap keeps bytes and not values, so what was stored through a pointer to one type can be loaded
through a pointer to another, from the address itself or from one further on. The value that is
loaded is a part of the pattern that was stored, cut out at whole bytes, as far as the bytes of the
first type reach. Nothing of the stored value beyond these bytes is seen again: where an address
has four bytes, a pointer that carried more loses the rest.
-/

namespace CValues

/-! ## Bytes inside a write -/

private theorem Region.slice_write {r : Region} {offset k size : Nat} {data : List UInt8}
    (hfilled : r.Filled) (hlive : r.isLive = true) (hfit : offset + data.length ≤ r.size)
    (hslice : k + size ≤ data.length) :
    (r.write offset data).slice (offset + k) size = (data.drop k).take size := by
  obtain ⟨bytes, hbytes⟩ := Option.isSome_iff_exists.mp hlive
  rw [Filled, used_of_isLive hlive, hbytes, Option.getD_some] at hfilled
  have hfront : (bytes.take offset).length = offset := List.length_take_of_le (by omega)
  have hlength : size ≤ (data.drop k).length := by
    rw [List.length_drop]
    omega
  rw [slice, write, hbytes, Option.map_some, Option.getD_some, overwrite, ← List.drop_drop,
    List.drop_left' hfront, List.drop_append_of_le_length (by omega),
    List.take_append_of_le_length hlength]

namespace Heap

variable {h : Heap} {r : Region} {address offset k size : Nat} {data : List UInt8} {t : CType}

/-- The addresses that regions keep for themselves are addresses of the machine, which a pointer
holds as they are. -/
theorem WellFormed.toNat_ofNat_of_mem_footprint (hwf : h.WellFormed) (hr : r ∈ h.regions)
    (hx : address ∈ r.footprint) : (BitVec.ofNat 64 address).toNat = address := by
  have hbelow : address < h.next := (Region.mem_footprint_iff.mp hx).2.trans_le (hwf.below r hr)
  exact Nat.mod_eq_of_lt (hbelow.trans hwf.next_fits.lt_pow2)

/-- What a pointer reads inside a row of bytes that was just written. -/
theorem WellFormed.load_overwritten (hwf : h.WellFormed)
    (hr : h.locate? address = some (r, offset)) (hfit : offset + data.length ≤ r.size)
    (ht : t.isScalar = true) (hsize : t.size? h.target.pointerSize = some size)
    (hslice : k + size ≤ data.length) (q : Qualifiers) :
    ((h.overwritten r offset data).load (.pointer t q (BitVec.ofNat 64 (address + k)))).result
      = Value.ofBytes h.target.pointerSize t ((data.drop k).take size) := by
  obtain ⟨n, hpos, hn⟩ := CType.exists_size?_of_isScalar h.target.pointerSize ht
  obtain rfl := Option.some.inj (hsize.symm.trans hn)
  have hx : address + k ∈ r.footprint := mem_footprint_of_located hr (by omega)
  obtain ⟨hmem, hlive, rfl, -⟩ := locate?_eq_some hr
  have haddress := hwf.toNat_ofNat_of_mem_footprint hmem hx
  have hoffset : r.base + offset + k - r.base = offset + k := by omega
  have hlocate : (h.overwritten r offset data).locate? (r.base + offset + k)
      = some (r.write offset data, offset + k) := by
    simp [locate?_overwritten, hwf.locate?_of_mem_footprint hmem hlive hx, hoffset]
  rw [← haddress] at hlocate
  have hnull := (hwf.overwritten hr hfit).ne_zero_of_located hlocate
  have hinside : offset + k + size ≤ (r.write offset data).size := by
    change offset + k + size ≤ r.size
    omega
  rw [load_of_located hnull hlocate hsize, if_pos hinside, Value.seenAs_of_isScalar ht,
    Region.slice_write (hwf.filled r hmem) hlive hfit hslice]
  rfl

/-- **A stored value can be read at every type, byte by byte.** After a store through a pointer to a
type, a load of any scalar that lies inside the bytes of that type succeeds, wherever it begins. It
gives the part of the pattern that lies there, where the pattern is that of the value converted to
the type as in an assignment and cut to the bytes of the type; a `_Bool` is whether any bit of its
byte is set. -/
theorem load_slice_of_store (target : Target) (limit : Nat) (requests : List Request) (t : CType)
    (q : Qualifiers) (a : BitVec 64) (v : Value) :
    let h := (empty target limit).after requests
    let h' := h.serve (.store (.pointer t q a) v)
    h.respond (.store (.pointer t q a) v) = .ok () →
      ∃ stored size, (convert target .implicit v t).result = .ok stored ∧
        t.size? target.pointerSize = some size ∧
        ∀ s width k q', s.isScalar = true → s.size? target.pointerSize = some width →
          k + width ≤ size →
          (BitVec.ofNat 64 (a.toNat + k)).toNat = a.toNat + k ∧
          ∃ w, (h'.load (.pointer s q' (BitVec.ofNat 64 (a.toNat + k)))).result = .ok w ∧
            w.type = s ∧
            w.bits = s.canonicalBits
              (stored.bits % pow2 (8 * size) / pow2 (8 * k) % pow2 (8 * width)) := by
  intro h h' hok
  have hwf : h.WellFormed := wellFormed_after target limit requests
  have htarget : h.target = target := (evolves_after _ requests).target_eq_and_limit_eq.1
  obtain ⟨stored, r, offset, hstored, hr, hfit, hstore⟩ := store_eq_ok hok
  have hh' : h' = h.overwritten r offset (stored.toBytes h.target.pointerSize) := hstore
  obtain ⟨-, hsize⟩ := size?_of_convert h.target.pointerSize hstored
  rw [htarget] at hstored hsize hfit hh'
  refine ⟨stored, _, hstored, hsize, fun s width k q' hs hwidth hslice ↦ ⟨?_, ?_⟩⟩
  · obtain ⟨n, hpos, hn⟩ := CType.exists_size?_of_isScalar target.pointerSize hs
    obtain rfl := Option.some.inj (hwidth.symm.trans hn)
    rw [Value.length_toBytes] at hfit
    exact hwf.toNat_ofNat_of_mem_footprint (mem_of_locate? hr)
      (mem_footprint_of_located hr (by omega))
  · have hload := hwf.load_overwritten hr hfit hs (htarget ▸ hwidth)
      (by rwa [Value.length_toBytes]) q'
    obtain ⟨w, hw, htype, hbits⟩ := Value.exists_ofBytes_slice hs hwidth stored hslice
    exact ⟨w, by rw [hh', hload, htarget, hw], htype, hbits⟩

/-- A pointer with more bits than an address of the target is stored without them. The upper half
of its address is read as an integer, and the two upper bytes as truth values. -/
theorem load_slice_of_store_narrow :
    let h := (empty ⟨.ilp32, .signed⟩).after [.alloc 8]
    let v := Value.pointerTo .plainInt 0x1AB0000CD
    let h' := h.serve (.store (.pointerTo (.pointerTo .void) 0x10000004) v)
    h.respond (.store (.pointerTo (.pointerTo .void) 0x10000004) v) = .ok () ∧
      (∃ w, (h'.load (.pointerTo (.int .w16 .unsigned) 0x10000006)).result = .ok w ∧
        w.bits = 0xAB00) ∧
      (∃ w, (h'.load (.pointerTo .bool 0x10000006)).result = .ok w ∧ w.bits = 0) ∧
      ∃ w, (h'.load (.pointerTo .bool 0x10000007)).result = .ok w ∧ w.bits = 1 := by
  intro h v h'
  have hok : ((empty ⟨.ilp32, .signed⟩).after [.alloc 8]).respond
      (.store (.pointerTo (.pointerTo .void) 0x10000004) (.pointerTo .plainInt 0x1AB0000CD))
      = .ok () := by decide
  obtain ⟨stored, size, hstored, hsize, hslice⟩ := load_slice_of_store ⟨.ilp32, .signed⟩
    defaultLimit [.alloc 8] (.pointerTo .void) .none 0x10000004 v hok
  obtain rfl := Except.ok.inj hstored
  obtain rfl := Option.some.inj hsize
  obtain ⟨-, w, hw, -, hbits⟩ := hslice (.int .w16 .unsigned) 2 2 .none rfl rfl (by decide)
  obtain ⟨-, low, hlow, -, hlowBits⟩ := hslice .bool 1 2 .none rfl rfl (by decide)
  obtain ⟨-, high, hhigh, -, hhighBits⟩ := hslice .bool 1 3 .none rfl rfl (by decide)
  exact ⟨hok, ⟨w, hw, hbits⟩, ⟨low, hlow, hlowBits⟩, ⟨high, hhigh, hhighBits⟩⟩

end Heap

end CValues
