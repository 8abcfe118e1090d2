import CValues.Proofs.Heap.Invariant

/-!
# What an action gives and leaves behind

The outcome of an action is its result together with the heap it leaves, without the records of the
log. Outcomes of sequences are found from those of their parts, so each action needs to be opened
only once: an elementary action fails and leaves the heap as it was, or succeeds with one change of
it. An allocation has a third end, where the program ends with it.
-/

namespace CValues.Heap

namespace Action

variable {α β : Type} {a : Action α} {f : α → Action β} {h h' : Heap}

/-- The result of an action, and the heap after it. -/
def outcome (a : Action α) (h : Heap) : Except Error α × Heap := ((a.run h).1.result, (a.run h).2)

theorem outcome_bind_of_ok {x : α} (ha : a.outcome h = (.ok x, h')) :
    (a >>= f).outcome h = (f x).outcome h' := by
  obtain ⟨hresult, hheap⟩ := Prod.mk.inj ha
  rw [outcome, run_bind_of_ok hresult, hheap]
  rfl

theorem outcome_bind_of_error {e : Error} (ha : a.outcome h = (.error e, h')) :
    (a >>= f).outcome h = (.error e, h') := by
  obtain ⟨hresult, hheap⟩ := Prod.mk.inj ha
  rw [outcome, run_bind_of_error hresult, hheap]

theorem result_bind_eq_ok {y : β} (hok : ((a >>= f).run h).1.result = .ok y) :
    ∃ x, (a.run h).1.result = .ok x ∧ ((f x).run (a.run h).2).1.result = .ok y := by
  cases hx : (a.run h).1.result with
  | ok x =>
    rw [run_bind_of_ok hx] at hok
    exact ⟨x, rfl, hok⟩
  | error e =>
    rw [run_bind_of_error hx] at hok
    cases hok

end Action

open CValues.Heap.Action

variable {h : Heap} {address : Nat}

/-! ## Allocating -/

section Alloc

variable {count size next : Nat}

/-- The region of the size passes the tests of an allocation, and the one after it begins at
`next`. -/
structure Places (h : Heap) (size next : Nat) : Prop where
  /-- The limit is kept. -/
  limit : h.inUseAfter size ≤ h.limit
  /-- The address space has a next address. -/
  address : h.nextAddress? size = some next

/-- There is room for a region of the size, and the one after it begins at `next`. -/
structure Admits (h : Heap) (size next : Nat) : Prop extends h.Places size next where
  /-- The host lays out so many bytes. -/
  capacity : size ≤ capacity

theorem outcome_alloc (hroom : h.Admits size next) :
    (alloc size).outcome h = (.ok ⟨h.next, size⟩, h.allocated size next) := by
  rw [outcome, run, alloc, if_neg (Nat.not_lt.mpr hroom.limit), hroom.address]
  change Prod.mk (ite (capacity < size) _ _ : Traced Handle × Heap).1.result
    (ite (capacity < size) _ _ : Traced Handle × Heap).2 = _
  rw [if_neg (Nat.not_lt.mpr hroom.capacity)]
  rfl

/-- Where a test fails, the error is the same whether the limit or the address space is at an
end. -/
theorem outcome_alloc_of_full (hfull : ∀ next, ¬ h.Places size next) :
    (alloc size).outcome h = (.error (.allocationLimit h.inUse h.limit), h) := by
  by_cases hlimit : h.limit < h.inUseAfter size
  · rw [outcome, run, alloc, if_pos hlimit]
    rfl
  · rcases hnext : h.nextAddress? size with _ | next
    · rw [outcome, run, alloc, if_neg hlimit, hnext]
      rfl
    · exact absurd ⟨Nat.le_of_not_lt hlimit, hnext⟩ (hfull next)

/-- Where the tests are passed and the host does not lay out so many bytes, the program ends with
the next address moved on. -/
theorem outcome_alloc_of_long (hplaces : h.Places size next) (hlong : capacity < size) :
    (alloc size).outcome h = (.error .capacityOverflow, h.skipped next) := by
  rw [outcome, run, alloc, if_neg (Nat.not_lt.mpr hplaces.limit), hplaces.address]
  change Prod.mk (ite (capacity < size) _ _ : Traced Handle × Heap).1.result
    (ite (capacity < size) _ _ : Traced Handle × Heap).2 = _
  rw [if_pos hlong]
  rfl

theorem Places.size_lt (hplaces : h.Places size next) : size < pow2 64 := by
  obtain ⟨-, hstop, -⟩ := nextAddress?_eq_some hplaces.address
  omega

/-- An allocation for some objects of one size is one of their product, also where the product is no
number of 64 bits: there is no room for so many bytes. -/
theorem outcome_calloc_eq (h : Heap) (count size : Nat) :
    (calloc count size).outcome h = (alloc (count * size)).outcome h := by
  by_cases hproduct : count * size < pow2 64
  · rw [outcome, run, calloc, if_pos hproduct]
    rfl
  · rw [outcome_alloc_of_full fun _ hplaces ↦ hproduct hplaces.size_lt, outcome, run, calloc,
      if_neg hproduct]
    rfl

theorem outcome_calloc (hroom : h.Admits (count * size) next) :
    (calloc count size).outcome h
      = (.ok ⟨h.next, count * size⟩, h.allocated (count * size) next) := by
  rw [outcome_calloc_eq, outcome_alloc hroom]

/-- The ends of a request that makes no region: it is refused and nothing has changed, or the
program ends with the next address moved on. -/
inductive Declined (h : Heap) : Error → Heap → Prop
  | refused {e : Error} : Declined h e h
  | ended {next : Nat} : Declined h .capacityOverflow (h.skipped next)

/-- The action makes no region. -/
def Action.Declines {α : Type} (a : Action α) (h : Heap) : Prop :=
  ∃ e h', a.outcome h = (.error e, h') ∧ h.Declined e h'

theorem declines_alloc (hfull : ∀ next, ¬ h.Admits size next) : (alloc size).Declines h := by
  by_cases hplaces : ∃ next, h.Places size next
  · obtain ⟨next, hplaces⟩ := hplaces
    have hlong : capacity < size := Nat.lt_of_not_le fun hle ↦ hfull next ⟨hplaces, hle⟩
    exact ⟨_, _, outcome_alloc_of_long hplaces hlong, .ended⟩
  · exact ⟨_, _, outcome_alloc_of_full (not_exists.mp hplaces), .refused⟩

theorem declines_calloc (hfull : ∀ next, ¬ h.Admits (count * size) next) :
    (calloc count size).Declines h := by
  rw [Declines, outcome_calloc_eq]
  exact declines_alloc hfull

/-- A region is given out only if there was room for it, and then at the next address. -/
theorem admits_of_ok {make : Action Handle} {handle : Handle}
    (hmade : ∀ next, h.Admits size next →
      make.outcome h = (.ok ⟨h.next, size⟩, h.allocated size next))
    (hfull : (∀ next, ¬ h.Admits size next) → make.Declines h)
    (hok : (make.run h).1.result = .ok handle) :
    (∃ next, h.Admits size next) ∧ handle.address = h.next := by
  by_cases hroom : ∃ next, h.Admits size next
  · obtain ⟨next, hnext⟩ := hroom
    have hhandle := hok.symm.trans (Prod.mk.inj (hmade next hnext)).1
    obtain rfl := Except.ok.inj hhandle
    exact ⟨⟨next, hnext⟩, rfl⟩
  · obtain ⟨e, h', he, -⟩ := hfull (not_exists.mp hroom)
    have herror := hok.symm.trans (Prod.mk.inj he).1
    cases herror

theorem admits_of_alloc {handle : Handle} (hok : ((alloc size).run h).1.result = .ok handle) :
    (∃ next, h.Admits size next) ∧ handle.address = h.next :=
  admits_of_ok (fun _ ↦ outcome_alloc) declines_alloc hok

theorem admits_of_calloc {handle : Handle}
    (hok : ((calloc count size).run h).1.result = .ok handle) :
    (∃ next, h.Admits (count * size) next) ∧ handle.address = h.next :=
  admits_of_ok (fun _ ↦ outcome_calloc) declines_calloc hok

end Alloc

/-! ## Freeing -/

private theorem outcome_free_of_regionAt? {r : Region} (hr : h.regionAt? r.base = some r) :
    (free r.base).outcome h = (.ok (), h.released r) := by
  rw [outcome, run, free, hr]
  rfl

theorem outcome_free_of_none (hnone : h.regionAt? address = none) :
    (free address).outcome h = (.error (.invalidPointer address .notAllocated), h) := by
  rw [outcome, run, free, hnone]
  rfl

theorem outcome_free_cases (address : Nat) (h : Heap) :
    (∃ e, (free address).outcome h = (.error e, h)) ∨
      ∃ r, r.base = address ∧ h.regionAt? r.base = some r ∧
        (free address).outcome h = (.ok (), h.released r) := by
  rcases hr : h.regionAt? address with _ | r
  · exact .inl ⟨_, outcome_free_of_none hr⟩
  · obtain rfl := base_eq_of_regionAt? hr
    exact .inr ⟨r, rfl, hr, outcome_free_of_regionAt? hr⟩

theorem outcome_freePointer {pointer : Value} (hpointer : pointer.address? = some address)
    (hnull : address ≠ 0) : (freePointer pointer).outcome h = (free address).outcome h := by
  have hfree : freePointer pointer = free address := by
    rw [freePointer, hpointer]
    obtain ⟨n, rfl⟩ := Nat.exists_eq_succ_of_ne_zero hnull
    rfl
  rw [hfree]

/-! ## Writing -/

theorem outcome_write_of_none (hnone : h.locate? address = none) (data : List UInt8) :
    (write address data).outcome h = (.error (.invalidPointer address .outsideRegions), h) := by
  rw [outcome, run, write, find, hnone]
  rfl

theorem outcome_write_of_fits {offset : Nat} {r : Region} {data : List UInt8}
    (hr : h.locate? address = some (r, offset)) (hfit : offset + data.length ≤ r.size) :
    (write address data).outcome h = (.ok (), h.overwritten r offset data) := by
  rw [outcome, run, write, find, hr]
  dsimp only
  rw [if_neg (Nat.not_lt.mpr hfit)]
  rfl

theorem outcome_write_of_overrun {offset : Nat} {r : Region} {data : List UInt8}
    (hr : h.locate? address = some (r, offset)) (hlong : r.size < offset + data.length) :
    (write address data).outcome h = (.error .outOfBounds, h) := by
  rw [outcome, run, write, find, hr]
  dsimp only
  rw [if_pos hlong]
  rfl

theorem outcome_write_cases (address : Nat) (data : List UInt8) (h : Heap) :
    (∃ e, (write address data).outcome h = (.error e, h)) ∨
      ∃ r offset, h.locate? address = some (r, offset) ∧ offset + data.length ≤ r.size ∧
        (write address data).outcome h = (.ok (), h.overwritten r offset data) := by
  rcases hr : h.locate? address with _ | ⟨r, offset⟩
  · exact .inl ⟨_, outcome_write_of_none hr data⟩
  · by_cases hfit : offset + data.length ≤ r.size
    · exact .inr ⟨r, offset, rfl, hfit, outcome_write_of_fits hr hfit⟩
    · exact .inl ⟨.outOfBounds, outcome_write_of_overrun hr (Nat.lt_of_not_le hfit)⟩

/-! ## Storing -/

theorem dereference_eq_ok {operation : Operation} {pointer : Value} {t : CType}
    (hok : (dereference operation pointer).result = .ok (address, t)) :
    ∃ q a, pointer = .pointer t q a ∧ a ≠ 0 ∧ t ≠ .void ∧ a.toNat = address := by
  unfold dereference at hok
  split at hok
  · cases hok
  · next t' q a hvoid =>
    split_ifs at hok with hnull
    · cases hok
    · obtain ⟨rfl, rfl⟩ := Prod.mk.inj (Except.ok.inj hok)
      exact ⟨q, a, rfl, hnull, hvoid, rfl⟩
  · cases hok

theorem dereference_pointer {t : CType} {a : BitVec 64} (ht : t ≠ .void) (ha : a ≠ 0)
    (operation : Operation) (q : Qualifiers) :
    dereference operation (.pointer t q a) = pure (a.toNat, t) := by
  rw [dereference]
  · exact if_neg ha
  · exact ht

section Store

variable {t : CType} {q : Qualifiers} {a : BitVec 64} {value u : Value}

private theorem outcome_dereference (ht : t ≠ .void) (ha : a ≠ 0) (operation : Operation) :
    (liftM (dereference operation (.pointer t q a)) : Action (Nat × CType)).outcome h
      = (.ok (a.toNat, t), h) := by
  rw [dereference_pointer ht ha]
  rfl

/-- A store through a pointer that can be followed writes the converted value. -/
theorem outcome_store_of_ok (ht : t ≠ .void) (ha : a ≠ 0)
    (hu : (convert h.target .implicit value t).result = .ok u) :
    (store (.pointer t q a) value).outcome h
      = (write a.toNat (u.toBytes h.target.pointerSize)).outcome h := by
  rw [store, outcome_bind_of_ok (outcome_dereference ht ha .store)]
  refine outcome_bind_of_ok (Prod.ext ?_ rfl)
  exact Traced.result_bind_eq_ok_iff.mpr ⟨u, hu, rfl⟩

theorem outcome_store_of_error {e : Error} (ht : t ≠ .void) (ha : a ≠ 0)
    (he : (convert h.target .implicit value t).result = .error e) :
    (store (.pointer t q a) value).outcome h = (.error e, h) := by
  rw [store, outcome_bind_of_ok (outcome_dereference ht ha .store)]
  refine outcome_bind_of_error (Prod.ext ?_ rfl)
  change (convert h.target .implicit value t >>= _).result = _
  rw [Traced.bind_of_error he]

end Store

theorem outcome_store_cases (pointer value : Value) (h : Heap) :
    (∃ e, (store pointer value).outcome h = (.error e, h)) ∨
      ∃ t q a u, pointer = .pointer t q a ∧
        (convert h.target .implicit value t).result = .ok u ∧
        (store pointer value).outcome h
          = (write a.toNat (u.toBytes h.target.pointerSize)).outcome h := by
  rcases hpointer : (dereference .store pointer).result with e | ⟨address, t⟩
  · exact .inl ⟨e, outcome_bind_of_error (Prod.ext hpointer rfl)⟩
  · obtain ⟨q, a, rfl, ha, ht, -⟩ := dereference_eq_ok hpointer
    rcases hu : (convert h.target .implicit value t).result with e | u
    · exact .inl ⟨e, outcome_store_of_error ht ha hu⟩
    · exact .inr ⟨t, q, a, u, rfl, hu, outcome_store_of_ok ht ha hu⟩

theorem store_eq_ok {t : CType} {q : Qualifiers} {a : BitVec 64} {value : Value}
    (hok : ((store (.pointer t q a) value).run h).1.result = .ok ()) :
    ∃ u r offset, (convert h.target .implicit value t).result = .ok u ∧
      h.locate? a.toNat = some (r, offset) ∧
      offset + (u.toBytes h.target.pointerSize).length ≤ r.size ∧
      ((store (.pointer t q a) value).run h).2
        = h.overwritten r offset (u.toBytes h.target.pointerSize) := by
  obtain ⟨e, he⟩ | ⟨_, _, _, u, hpointer, hu, hwrite⟩ :=
    outcome_store_cases (.pointer t q a) value h
  · exact nomatch hok.symm.trans (Prod.mk.inj he).1
  obtain ⟨rfl, rfl, rfl⟩ := Value.pointer.inj hpointer
  obtain ⟨e, he⟩ | ⟨r, offset, hr, hfit, hwritten⟩ :=
    outcome_write_cases a.toNat (u.toBytes h.target.pointerSize) h
  · exact nomatch hok.symm.trans (Prod.mk.inj (hwrite.trans he)).1
  · exact ⟨u, r, offset, hu, hr, hfit, (Prod.mk.inj (hwrite.trans hwritten)).2⟩

end CValues.Heap
