import CValues.Proofs.Heap.ReadWrite

/-!
# The extent of a handle

A handle says how many bytes can be reached from an address. This is all that decides an access
there: raw reads, raw writes and loads through pointers each compare with the region anew, one by an
end that must not lie behind it and another by the rest that must suffice, and all of them come to
the same bound. An address has a handle exactly if it is valid, which is also when zero bytes can be
read from it.

A region is never asked for bytes that it does not have. Its bytes are as many as its size says, so
an end that was compared with the size lies inside them.
-/

namespace CValues.Heap

open CValues.Heap.Action

variable {α : Type} {h : Heap} {r : Region} {t : CType} {x offset bound size : Nat}

/-! ## Access up to a bound -/

/-- An access to this many bytes has succeeded if the bound allows it, and was out of bounds if it
does not. -/
def SucceedsUpTo (bound size : Nat) (result : Except Error α) : Prop :=
  ((∃ y, result = .ok y) ↔ size ≤ bound) ∧ (bound < size → result = .error .outOfBounds)

private theorem succeedsUpTo_of_cases {result : Except Error α}
    (hfits : size ≤ bound → ∃ y, result = .ok y)
    (hlong : bound < size → result = .error .outOfBounds) : SucceedsUpTo bound size result := by
  refine ⟨⟨?_, hfits⟩, hlong⟩
  rintro ⟨y, hy⟩
  by_contra hnot
  rw [hlong (Nat.lt_of_not_le hnot)] at hy
  simp at hy

section Located

variable (hr : h.locate? x = some (r, offset))
include hr

private theorem succeedsUpTo_read (size : Nat) :
    SucceedsUpTo (r.size - offset) size (h.read x size) := by
  have hoffset := offset_le_of_locate? hr
  apply succeedsUpTo_of_cases
  · intro hfits
    exact ⟨_, read_of_located hr (by omega)⟩
  · intro hlong
    exact read_of_overrun hr (by omega)

private theorem succeedsUpTo_write (data : List UInt8) :
    SucceedsUpTo (r.size - offset) data.length ((write x data).run h).1.result := by
  have hoffset := offset_le_of_locate? hr
  apply succeedsUpTo_of_cases
  · intro hfits
    exact ⟨(), (Prod.mk.inj (outcome_write_of_fits hr (by omega))).1⟩
  · intro hlong
    exact (Prod.mk.inj (outcome_write_of_overrun hr (by omega))).1

private theorem WellFormed.succeedsUpTo_load (hwf : h.WellFormed) {a : BitVec 64} (ha : a.toNat = x)
    (hsize : t.size? h.target.pointerSize = some size) (q : Qualifiers) :
    SucceedsUpTo (r.size - offset) size (h.load (.pointer t q a)).result := by
  subst ha
  have hoffset := offset_le_of_locate? hr
  apply succeedsUpTo_of_cases
  · intro hfits
    exact (hwf.exists_load_iff hsize q a).mpr ⟨r, offset, hr, by omega⟩
  · intro hlong
    rw [load_of_located (hwf.ne_zero_of_located hr) hr hsize, if_neg (by omega)]

/-- Wherever a region is found, the rest of it is a number, and its bytes reach to its end. -/
theorem WellFormed.exists_bytes_of_located (hwf : h.WellFormed) :
    ∃ bytes, r.bytes? = some bytes ∧ offset ≤ r.size ∧ bytes.length = r.size := by
  obtain ⟨hmem, hlive, -, -⟩ := locate?_eq_some hr
  obtain ⟨bytes, hbytes⟩ := Option.isSome_iff_exists.mp hlive
  have hfilled := hwf.filled r hmem
  rw [Region.Filled, Region.used_of_isLive hlive, hbytes, Option.getD_some] at hfilled
  exact ⟨bytes, hbytes, offset_le_of_locate? hr, hfilled⟩

end Located

/-! ## Valid addresses -/

private theorem exists_handleAt_iff :
    (∃ handle, h.handleAt x = .ok handle) ↔ h.isValid x = true := by
  rcases hr : h.locate? x with _ | ⟨r, offset⟩
  · simp [isValid, hr, handleAt_of_not_located hr]
  · simp [isValid, hr, handleAt_of_located hr]

private theorem exists_read_zero_iff : (∃ bytes, h.read x 0 = .ok bytes) ↔ h.isValid x = true := by
  rcases hr : h.locate? x with _ | ⟨r, offset⟩
  · simp [isValid, hr, read_of_not_located hr]
  · have hread := (succeedsUpTo_read hr 0).1.mpr (Nat.zero_le _)
    simp [isValid, hr, hread]

private theorem handleAt_eq_ok {handle : Handle} (hhandle : h.handleAt x = .ok handle) :
    ∃ r offset, h.locate? x = some (r, offset) ∧ handle = ⟨x, r.size - offset⟩ := by
  rcases hr : h.locate? x with _ | ⟨r, offset⟩
  · simp [handleAt_of_not_located hr] at hhandle
  · rw [handleAt_of_located hr] at hhandle
    exact ⟨r, offset, rfl, (Except.ok.inj hhandle).symm⟩

theorem WellFormed.exists_readAs_iff (hwf : h.WellFormed)
    (hsize : t.size? h.target.pointerSize = some size) (handle : Handle) :
    (∃ v, h.readAs handle t = .ok v) ↔
      size ≤ handle.size ∧ ∃ bytes, h.read handle.address size = .ok bytes := by
  rw [readAs_eq hsize]
  by_cases hfits : size ≤ handle.size
  · rw [if_neg (Nat.not_lt.mpr hfits)]
    rcases hread : h.read handle.address size with e | bytes
    · simp [Except.bind]
    · obtain ⟨v, hv⟩ := Value.exists_seenAs (hwf.length_read hread ▸ hsize) handle.address
      simp [Except.bind, hfits, hv]
  · rw [if_pos (Nat.lt_of_not_le hfits)]
    simp [hfits]

/-- **A handle gives the exact extent of every access.** An address has a handle exactly if it is
valid, and then reads, writes and loads from it succeed up to the size of the handle and are out of
bounds beyond; from an address that is not valid nothing is read or written. A handle of any other
size is read if it is large enough for the object and the bytes are there. The offset of an address
never exceeds the size of its region, whose bytes are as many as the size says, and what is read of
them is as long as it was asked for; so no access leaves the bytes it is made from, be it those of a
region or the eight that hold a scalar. -/
theorem handleAt_gives_extent (target : Target) (limit : Nat) (requests : List Request) (x : Nat) :
    let h := (empty target limit).after requests
    ((∃ handle, h.handleAt x = .ok handle) ↔ h.isValid x = true) ∧
    ((∃ bytes, h.read x 0 = .ok bytes) ↔ h.isValid x = true) ∧
    (∀ handle, h.handleAt x = .ok handle →
      handle.address = x ∧
      (∀ n, SucceedsUpTo handle.size n (h.read x n)) ∧
      (∀ data, SucceedsUpTo handle.size data.length ((write x data).run h).1.result) ∧
      ∀ t q a size, a.toNat = x → t.size? target.pointerSize = some size →
        SucceedsUpTo handle.size size (h.load (.pointer t q a)).result) ∧
    (h.isValid x = false →
      (∀ n, h.read x n = .error (.invalidPointer x .outsideRegions)) ∧
      ∀ data, ((write x data).run h).1.result = .error (.invalidPointer x .outsideRegions)) ∧
    (∀ m t size, t.size? target.pointerSize = some size →
      ((∃ v, h.readAs ⟨x, m⟩ t = .ok v) ↔ size ≤ m ∧ ∃ bytes, h.read x size = .ok bytes) ∧
      (t.isScalar = true → size ≤ 8)) ∧
    (∀ n bytes, h.read x n = .ok bytes → bytes.length = n) ∧
    ∀ r offset, h.locate? x = some (r, offset) →
      ∃ bytes, r.bytes? = some bytes ∧ offset ≤ r.size ∧ bytes.length = r.size := by
  intro h
  have hwf : h.WellFormed := wellFormed_after target limit requests
  have htarget : h.target = target := (evolves_after _ requests).target_eq_and_limit_eq.1
  refine ⟨exists_handleAt_iff, exists_read_zero_iff, fun handle hhandle ↦ ?_, fun hinvalid ↦ ?_,
    fun m t size hsize ↦ ⟨?_, fun ht ↦ CType.size?_le_eight ht hsize⟩,
    fun n bytes ↦ hwf.length_read, fun r offset hr ↦ hwf.exists_bytes_of_located hr⟩
  · obtain ⟨r, offset, hr, rfl⟩ := handleAt_eq_ok hhandle
    refine ⟨rfl, succeedsUpTo_read hr, succeedsUpTo_write hr, fun t q a size ha hsize ↦ ?_⟩
    exact hwf.succeedsUpTo_load hr ha (htarget ▸ hsize) q
  · have hnone : h.locate? x = none := by simpa [isValid] using hinvalid
    exact ⟨read_of_not_located hnone,
      fun data ↦ (Prod.mk.inj (outcome_write_of_none hnone data)).1⟩
  · exact hwf.exists_readAs_iff (htarget ▸ hsize) ⟨x, m⟩

/-- From the fifth byte before the end of a region an `int` can be loaded and a `double` cannot, nor
can an `int` be read at a handle of two bytes. A region without bytes has a handle of size zero, and
the address behind a region has none. -/
theorem handleAt_gives_extent_interior :
    let h := (empty {}).after [.alloc 24, .alloc 0]
    h.handleAt 0x7FFF00000013 = .ok ⟨0x7FFF00000013, 5⟩ ∧
      h.read 0x7FFF00000013 6 = .error .outOfBounds ∧
      ((write 0x7FFF00000013 [1, 2, 3, 4, 5]).run h).1.result = .ok () ∧
      (∃ v, (h.load (.pointerTo .plainInt 0x7FFF00000013)).result = .ok v) ∧
      (h.load (.pointerTo (.float .double) 0x7FFF00000013)).result = .error .outOfBounds ∧
      (¬ ∃ v, h.readAs ⟨0x7FFF00000013, 2⟩ .plainInt = .ok v) ∧
      h.handleAt 0x7FFF00000020 = .ok ⟨0x7FFF00000020, 0⟩ ∧
      h.read 0x7FFF00000020 1 = .error .outOfBounds ∧
      h.isValid 0x7FFF00000018 = false ∧
      h.read 0x7FFF00000018 0 = .error (.invalidPointer 0x7FFF00000018 .outsideRegions) := by
  obtain ⟨-, -, hinside, -, htyped, -⟩ :=
    handleAt_gives_extent {} defaultLimit [.alloc 24, .alloc 0] 0x7FFF00000013
  obtain ⟨-, -, hempty, -⟩ :=
    handleAt_gives_extent {} defaultLimit [.alloc 24, .alloc 0] 0x7FFF00000020
  obtain ⟨-, -, -, hbehind, -⟩ :=
    handleAt_gives_extent {} defaultLimit [.alloc 24, .alloc 0] 0x7FFF00000018
  obtain ⟨-, hread, hwrite, hload⟩ := hinside ⟨0x7FFF00000013, 5⟩ rfl
  obtain ⟨-, hnone, -⟩ := hempty ⟨0x7FFF00000020, 0⟩ rfl
  have hint := hload .plainInt .none 0x7FFF00000013 4 rfl rfl
  have hdouble := hload (.float .double) .none 0x7FFF00000013 8 rfl rfl
  have hsmall := (htyped 2 .plainInt 4 rfl).1
  refine ⟨rfl, (hread 6).2 (by decide), ?_, hint.1.mpr (by decide), hdouble.2 (by decide), ?_, rfl,
    (hnone 1).2 (by decide), rfl, (hbehind rfl).1 0⟩
  · obtain ⟨⟨⟩, hok⟩ := (hwrite [1, 2, 3, 4, 5]).1.mpr (by decide)
    exact hok
  · rw [hsmall]
    exact fun hread ↦ absurd hread.1 (by decide)

end CValues.Heap
