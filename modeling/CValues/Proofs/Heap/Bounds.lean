import CValues.Proofs.Heap.Access
import CValues.Proofs.Heap.Making

/-!
# Array elements and the bounds of an array

An element of an array is found by its address alone, which is that of the array moved by the index
and reduced to the width of an address. So it is the regions that bound an access and not the array:
an index outside the array reads whatever live region lies there as a whole. This is another region
than the array's own, unless the address left the address space on the way: an index that is large
enough leads back into the array.
-/

namespace CValues

/-! ## Where an element lies -/

section ElementAddress

variable {target : Target} {base size : Nat} {index : Int}

/-- The address of an element: the one it has in unbounded integers, reduced to the width of an
address. -/
def elementAddress (target : Target) (base size : Nat) (index : Int) : Nat :=
  ((base + index * size) % pow2 target.addressWidth.bits : Int).toNat

private theorem toNat_ofNat_truncate (target : Target) (base size : Nat) (index : Int) :
    (BitVec.ofNat 64 (target.addressWidth.truncate (base + index * size)).toNat).toNat
      = elementAddress target base size index := by
  rw [Target.ofNat_truncate_eq_addressAt, elementAddress, ← Target.toNat_addressAt,
    Int.toNat_natCast]

private theorem elementAddress_of_fits (hnonneg : 0 ≤ (base + index * size : Int))
    (hlt : (base + index * size : Int) < pow2 target.addressWidth.bits) :
    (elementAddress target base size index : Int) = base + index * size := by
  rw [elementAddress, Int.emod_eq_of_lt hnonneg hlt, Int.toNat_of_nonneg hnonneg]

/-- An element inside the address space lies where it would in unbounded numbers. -/
theorem elementAddress_natCast {i : Nat} (hfits : target.pointerSize.Fits (base + i * size)) :
    elementAddress target base size i = base + i * size := by
  have hcast : (base + (i : Int) * size : Int) = (base + i * size : Nat) := by simp
  have haddress : (elementAddress target base size i : Int) = base + i * size :=
    elementAddress_of_fits (hcast ▸ Int.natCast_nonneg _) (hcast ▸ Int.ofNat_lt.mpr hfits)
  exact Int.ofNat_inj.mp (haddress.trans hcast)

end ElementAddress

/-- The region is live, and these bytes are all among its own. -/
def Region.Holds (r : Region) (address size : Nat) : Prop :=
  r.isLive = true ∧ r.base ≤ address ∧ address + size ≤ r.base + r.size

instance (r : Region) (address size : Nat) : Decidable (r.Holds address size) :=
  inferInstanceAs (Decidable (_ ∧ _ ∧ _))

namespace Heap

variable {h h' : Heap} {r : Region} {address size : Nat} {t element : CType}

private theorem WellFormed.locate?_of_holds (hwf : h.WellFormed) (hr : r ∈ h.regions)
    (hholds : r.Holds address size) (hpos : 0 < size) :
    h.locate? address = some (r, address - r.base) := by
  obtain ⟨hlive, hbase, hstop⟩ := hholds
  refine hwf.locate?_of_mem_footprint hr hlive ?_
  rw [Region.mem_footprint_iff, Region.stop]
  omega

/-- What is found at an address and has room for the bytes is the region that holds them. -/
theorem WellFormed.exists_locate?_iff (hwf : h.WellFormed) (hpos : 0 < size) :
    (∃ r offset, h.locate? address = some (r, offset) ∧ offset + size ≤ r.size) ↔
      ∃ r ∈ h.regions, r.Holds address size := by
  constructor
  · rintro ⟨r, offset, hr, hfit⟩
    obtain ⟨hmem, hlive, rfl, -⟩ := locate?_eq_some hr
    exact ⟨r, hmem, hlive, Nat.le_add_right _ _, by omega⟩
  · rintro ⟨r, hmem, hholds⟩
    have hfit : address - r.base + size ≤ r.size := by
      obtain ⟨-, hbase, hstop⟩ := hholds
      omega
    exact ⟨r, _, hwf.locate?_of_holds hmem hholds hpos, hfit⟩

/-! ## Loading an element -/

private theorem exists_eq_error_iff {α : Type} {x : Except Error α} :
    (∃ e, x = .error e) ↔ ¬ ∃ y, x = .ok y := by
  cases x <;> simp

section LoadElement

variable {length : Nat} {a : BitVec 64} {index : Int}

/-- An element is loaded from its address. -/
theorem result_loadElement (hsize : t.size? h.target.pointerSize = some size) (hpos : 0 < size)
    (length : Nat) (a : BitVec 64) (index : Int) :
    ∃ b : BitVec 64, b.toNat = elementAddress h.target a.toNat size index ∧
      (h.loadElement (.array t length a) index).result = (h.load (.pointer t .none b)).result := by
  have helement := result_elementPointer hsize hpos .none a index
  refine ⟨_, toNat_ofNat_truncate h.target a.toNat size index, ?_⟩
  rw [loadElement, Traced.result_bind]
  change ((h.elementPointer (.pointer t .none a) index).result.bind _) = _
  rw [helement]
  rfl

/-- An element is there exactly if a live region holds all of its bytes. -/
theorem WellFormed.exists_loadElement_iff (hwf : h.WellFormed)
    (hsize : t.size? h.target.pointerSize = some size) :
    (∃ v, (h.loadElement (.array t length a) index).result = .ok v) ↔
      0 < size ∧ ∃ r ∈ h.regions, r.Holds (elementAddress h.target a.toNat size index) size := by
  rcases Nat.eq_zero_or_pos size with rfl | hpos
  · -- objects without size are refused before any address is formed
    refine iff_of_false ?_ fun hpos ↦ Nat.lt_irrefl 0 hpos.1
    rintro ⟨v, hok⟩
    obtain ⟨slot, hslot, -⟩ := Traced.result_bind_eq_ok_iff.mp hok
    obtain ⟨e, he⟩ := elementPointer_of_zero hsize a.toNat index
    rw [Value.pointerTo, BitVec.ofNat_toNat, BitVec.setWidth_eq] at he
    have herror := he.symm.trans hslot
    cases herror
  · obtain ⟨b, hb, hload⟩ := result_loadElement hsize hpos length a index
    rw [hload, hwf.exists_load_iff hsize, hb, hwf.exists_locate?_iff hpos]
    exact (and_iff_right hpos).symm

/-- The element is what the bytes there stand for, whatever they were written for. -/
theorem WellFormed.loadElement_of_holds (hwf : h.WellFormed)
    (hsize : t.size? h.target.pointerSize = some size) (hpos : 0 < size) (hr : r ∈ h.regions)
    (hholds : r.Holds (elementAddress h.target a.toNat size index) size) (length : Nat) :
    (h.loadElement (.array t length a) index).result
      = Value.seenAs h.target.pointerSize t (elementAddress h.target a.toNat size index)
          (r.slice (elementAddress h.target a.toNat size index - r.base) size) := by
  obtain ⟨b, hb, hload⟩ := result_loadElement hsize hpos length a index
  rw [← hb] at hholds ⊢
  have hlocate := hwf.locate?_of_holds hr hholds hpos
  obtain ⟨-, hbase, hstop⟩ := hholds
  rw [hload, load_of_located (hwf.ne_zero_of_located hlocate) hlocate hsize, if_pos (by omega)]

end LoadElement

/-! ## The region of an array -/

/-- No change moves a region or gives it another size. -/
theorem Change.exists_mem (hchange : Change h h') (hr : r ∈ h.regions) :
    ∃ s ∈ h'.regions, s.base = r.base ∧ s.size = r.size := by
  -- a region that is changed in place is found again at the same position of the row
  have hupdate : ∀ base change, (∀ s : Region, (change s).base = s.base) →
      (∀ s : Region, (change s).size = s.size) →
      ∃ s ∈ h.updateAt base change, s.base = r.base ∧ s.size = r.size := by
    intro base change hbase hsize
    refine ⟨_, List.mem_map_of_mem hr, ?_⟩
    split_ifs
    · exact ⟨hbase r, hsize r⟩
    · exact ⟨rfl, rfl⟩
  cases hchange with
  | allocate => exact ⟨r, List.mem_cons_of_mem _ hr, rfl, rfl⟩
  | skip => exact ⟨r, hr, rfl, rfl⟩
  | release => exact hupdate _ _ (fun _ ↦ rfl) fun _ ↦ rfl
  | overwrite => exact hupdate _ _ (fun _ ↦ rfl) fun _ ↦ rfl

private theorem exists_mem_after (requests : List Request) (hr : r ∈ h.regions) :
    ∃ s ∈ (h.after requests).regions, s.base = r.base ∧ s.size = r.size := by
  refine (evolves_after h requests).preserves
    (P := fun k ↦ ∃ s ∈ k.regions, s.base = r.base ∧ s.size = r.size) ?_ ⟨r, hr, rfl, rfl⟩
  rintro k k' hchange ⟨s, hs, hbase, hsize⟩
  obtain ⟨s', hs', hbase', hsize'⟩ := hchange.exists_mem hs
  exact ⟨s', hs', hbase'.trans hbase, hsize'.trans hsize⟩

/-- An array is a region of its own, with room for its elements and no more. -/
theorem WellFormed.region_of_allocArray (hwf : h.WellFormed) {values : List Value} {a : Value}
    (hok : ((allocArray element values).run h).1.result = .ok a) :
    ∃ size, element.size? h.target.pointerSize = some size ∧
      ∃ r ∈ (h.serve (.allocArray element values)).regions,
        r.size = values.length * size ∧
        a = .array element values.length (BitVec.ofNat 64 r.base) ∧ a.bits = r.base := by
  obtain ⟨size, next, hsize, hroom, rfl⟩ := allocArray_eq_ok hok
  obtain ⟨result, houtcome, -⟩ := hwf.outcome_allocArray hsize hroom
  have hserve : h.serve (.allocArray element values) = _ := (Prod.mk.inj houtcome).2
  have hlength : (Region.overwrite (List.replicate (values.length * size) 0) 0
      (elementBytes h.target element values)).length = values.length * size := by
    rw [Region.length_overwrite, List.length_replicate]
    rw [Nat.zero_add, List.length_replicate]
    exact length_elementBytes_le hsize values
  refine ⟨size, hsize, .holding h.next _, ?_, hlength, rfl, hroom.toNat_ofNat (Nat.zero_le _)⟩
  rw [hserve]
  exact List.mem_cons_self

/-- A region that has room for some objects and no more holds, of the objects in a row from its
base, only these. -/
theorem index_of_holds {length : Nat} {index : Int} (hpos : 0 < size)
    (hsize : r.size = length * size) (haddress : (address : Int) = r.base + index * size)
    (hholds : r.Holds address size) : 0 ≤ index ∧ index < length := by
  obtain ⟨-, hbase, hstop⟩ := hholds
  have hpos' : (0 : Int) < size := by omega
  rw [hsize] at hstop
  constructor
  · have hfirst : 0 * (size : Int) ≤ index * size := by omega
    exact Int.le_of_mul_le_mul_right hfirst hpos'
  · have hlast : (index + 1) * (size : Int) ≤ length * size := by
      rw [Int.add_mul, Int.one_mul]
      omega
    exact Int.le_of_mul_le_mul_right hlast hpos'

/-- **Access to an array is bounded by the regions of the heap.** Loading an element fails exactly
if its type has size zero or no live region holds all the bytes at its address. If a region holds
them they are read, whatever region it is; and if the index is outside the array it is not the
array's own, unless the address left the address space and came back. -/
theorem loadElement_fails_iff (target : Target) (limit : Nat) (before later : List Request)
    (element : CType) (values : List Value) (a : Value) (index : Int) :
    let h := (empty target limit).after before
    let h' := (h.serve (.allocArray element values)).after later
    ((allocArray element values).run h).1.result = .ok a →
      ∃ size, element.size? target.pointerSize = some size ∧
        let x := elementAddress target a.bits size index
        ((∃ e, (h'.loadElement a index).result = .error e) ↔
          size = 0 ∨ ∀ r ∈ h'.regions, ¬ r.Holds x size) ∧
        (0 < size → ∀ r ∈ h'.regions, r.Holds x size →
          (h'.loadElement a index).result
            = Value.seenAs target.pointerSize element x (r.slice (x - r.base) size) ∧
          (index < 0 ∨ values.length ≤ index → r.base = a.bits →
            (a.bits + index * size : Int) < 0 ∨
              pow2 target.addressWidth.bits ≤ (a.bits + index * size : Int))) := by
  intro h h' hok
  have hwf : h.WellFormed := wellFormed_after target limit before
  have hwf' : h'.WellFormed := (hwf.serve _).after later
  have htarget : h.target = target := (evolves_after _ before).target_eq_and_limit_eq.1
  have htarget' : h'.target = target :=
    (evolves_after _ later).target_eq_and_limit_eq.1.trans
      ((evolves_serve h _).target_eq_and_limit_eq.1.trans htarget)
  obtain ⟨size, hsize, own, hown, hroom, rfl, hbits⟩ := hwf.region_of_allocArray hok
  rw [htarget] at hsize
  have hsize' : element.size? h'.target.pointerSize = some size := by rwa [htarget']
  refine ⟨size, hsize, ?_, fun hpos r hr hholds ↦ ⟨?_, fun houtside hbase ↦ ?_⟩⟩
  · rw [exists_eq_error_iff, hwf'.exists_loadElement_iff hsize', htarget', not_and_or,
      Nat.pos_iff_ne_zero, not_not]
    simp only [not_exists, not_and]
    rfl
  · have hload := hwf'.loadElement_of_holds hsize' hpos hr (by rwa [htarget']) values.length
    rwa [htarget'] at hload
  · -- the region has kept the size it was made with, and its base tells it from all others
    obtain ⟨s, hs, hbase', hsize''⟩ := exists_mem_after later hown
    obtain rfl := hwf'.eq_of_base_eq hs hr (hbase'.trans (hbits.symm.trans hbase.symm))
    by_contra hinside
    rw [not_or, Int.not_lt, Int.not_le] at hinside
    have haddress := elementAddress_of_fits hinside.1 hinside.2
    rw [← hbase] at haddress
    have hindex := index_of_holds hpos (hsize''.trans hroom) haddress (hbase ▸ hholds)
    omega

/-- Behind four elements lies the next region, whose value is read as the fifth; the bytes just
before the first are padding and belong to no region; and an index of a quarter of the address space
leads back to the first element. -/
theorem loadElement_fails_iff_neighbour :
    let values : List Value := [.plainInt 1, .plainInt 2, .plainInt 3, .plainInt 4]
    let a := Value.array .plainInt 4 0x7FFF00000020
    let h := (empty {}).after [.alloc 24]
    let h' := (h.serve (.allocArray .plainInt values)).after [.addressOf (.plainInt 99)]
    ((allocArray .plainInt values).run h).1.result = .ok a ∧
      (∃ e, (h'.loadElement a (-1)).result = .error e) ∧
      (h'.loadElement a 4).result = .ok (.plainInt 99) ∧
      (h'.loadElement a (pow2 62)).result = .ok (.plainInt 1) := by
  intro values a
  have hok : ((allocArray .plainInt values).run ((empty {}).after [.alloc 24])).1.result
      = .ok a := by decide
  have happly := fun index ↦ loadElement_fails_iff {} defaultLimit [.alloc 24]
    [.addressOf (.plainInt 99)] .plainInt values a index hok
  have hnext : Region.holding 0x7FFF00000030 [99, 0, 0, 0]
      ∈ ((((empty {}).after [.alloc 24]).serve (.allocArray .plainInt values)).after
        [.addressOf (.plainInt 99)]).regions := by decide
  have hown : Region.holding 0x7FFF00000020 [1, 0, 0, 0, 2, 0, 0, 0, 3, 0, 0, 0, 4, 0, 0, 0]
      ∈ ((((empty {}).after [.alloc 24]).serve (.allocArray .plainInt values)).after
        [.addressOf (.plainInt 99)]).regions := by decide
  have hfour : ∀ size, CType.plainInt.size? .bits64 = some size → size = 4 := by
    intro size hsize
    exact (Option.some.inj hsize).symm
  refine ⟨hok, ?_, ?_, ?_⟩
  · obtain ⟨size, hsize, hfails, -⟩ := happly (-1)
    obtain rfl := hfour size hsize
    exact hfails.mpr (.inr (by decide))
  · obtain ⟨size, hsize, -, hreads⟩ := happly 4
    obtain rfl := hfour size hsize
    exact (hreads (by decide) _ hnext (by decide)).1.trans (by decide)
  · obtain ⟨size, hsize, -, hreads⟩ := happly (pow2 62)
    obtain rfl := hfour size hsize
    exact (hreads (by decide) _ hown (by decide)).1.trans (by decide)

/-- An index outside an array that has not been freed need not fail, in the range of 64 bits either:
the bytes behind the array can be those of the next region. -/
theorem not_forall_loadElement_outside_fails :
    ¬ ∀ (target : Target) (limit : Nat) (before later : List Request) (element : CType)
        (values : List Value) (a : Value) (index : Int),
      let h := (empty target limit).after before
      let h' := (h.serve (.allocArray element values)).after later
      ((allocArray element values).run h).1.result = .ok a →
        (∃ r ∈ h'.regions, r.base = a.bits ∧ r.isLive = true) →
        -(pow2 63 : Int) ≤ index → index < pow2 63 → (index < 0 ∨ values.length ≤ index) →
        ∃ e, (h'.loadElement a index).result = .error e := by
  intro hfails
  obtain ⟨e, he⟩ := hfails {} defaultLimit [] [.addressOf (.plainInt 99)] .plainInt
    [.plainInt 1, .plainInt 2, .plainInt 3, .plainInt 4] (.array .plainInt 4 0x7FFF00000000) 4
    (by decide) ⟨_, .tail _ (.head _), rfl, rfl⟩ (by decide) (by decide) (by decide)
  have hok : (((((empty {}).after []).serve (.allocArray .plainInt
      [.plainInt 1, .plainInt 2, .plainInt 3, .plainInt 4])).after
        [.addressOf (.plainInt 99)]).loadElement (.array .plainInt 4 0x7FFF00000000) 4).result
      = .ok (.plainInt 99) := by decide
  have herror := hok.symm.trans he
  cases herror

end Heap

end CValues
