import CValues.Proofs.Conversion.Acceptance
import CValues.Proofs.Heap.Making

/-!
# How a program ends

Every failure but one is an answer, and the program goes on after it. The one is that of a region
with more bytes than the host lays out. It comes of allocating and of nothing else: no other part of
a request fails like that, the parts before the allocation leave the heap as it is, and those behind
it are not reached. So a request that ends the program has moved the next address on, and that is
all it has done.
-/

namespace CValues

/-- The computation does not end the program. -/
def Traced.GoesOn {α : Type} (x : Traced α) : Prop := x.result ≠ .error .capacityOverflow

namespace Traced

variable {α β : Type}

private theorem goesOn_pure (a : α) : (pure a : Traced α).GoesOn := by
  intro hend
  cases hend

theorem GoesOn.bind {x : Traced α} {f : α → Traced β} (hx : x.GoesOn) (hf : ∀ a, (f a).GoesOn) :
    (x >>= f).GoesOn := by
  intro hend
  rcases hresult : x.result with e | a
  · rw [bind_of_error hresult] at hend
    obtain rfl := Except.error.inj hend
    exact hx hresult
  · rw [bind_of_ok hresult] at hend
    exact hf a hend

end Traced

private theorem goesOn_convert (target : Target) (kind : ConversionKind) (v : Value) (t : CType) :
    (convert target kind v t).GoesOn := by
  intro hend
  have hverdict := verdict_convert target kind v t
  rw [hend] at hverdict
  cases hverdict

namespace Heap

open CValues.Heap.Action

private theorem goesOn_dereference (operation : Operation) (pointer : Value) :
    (dereference operation pointer).GoesOn := by
  intro hend
  unfold dereference at hend
  split at hend
  · cases hend
  · split_ifs at hend
    · cases hend
    · cases hend
  · cases hend

private theorem goesOn_elementPointer (h : Heap) (element : CType) (a : Nat) (index : Int) :
    (h.elementPointer (.pointerTo element a) index).GoesOn := by
  intro hend
  rcases elementSize_cases h.target .add element with ⟨size, hsize, hpos, -⟩ | hnone
  · rw [Value.pointerTo, result_elementPointer hsize hpos] at hend
    cases hend
  · change (liftM (elementSize h.target .add element) >>= _ : Traced Value).result = _ at hend
    rw [hnone] at hend
    cases hend

namespace Action

variable {α β : Type} {a : Action α} {f : α → Action β}

/-- The action does not end the program. -/
def GoesOn (a : Action α) : Prop := ∀ h, (a.run h).1.GoesOn

/-- If the action ends the program, it does so before anything but the next address has changed. -/
def EndsAtOnce (a : Action α) : Prop :=
  ∀ h, (a.run h).1.result = .error .capacityOverflow → ∃ next, (a.run h).2 = h.skipped next

private theorem goesOn_pure (x : α) : (pure x : Action α).GoesOn := fun _ ↦ Traced.goesOn_pure x

theorem GoesOn.bind (ha : a.GoesOn) (hf : ∀ x, (f x).GoesOn) : (a >>= f).GoesOn := by
  intro h hend
  rcases hx : (a.run h).1.result with e | x
  · rw [run_bind_of_error hx] at hend
    obtain rfl := Except.error.inj hend
    exact ha h hx
  · rw [run_bind_of_ok hx] at hend
    exact hf x _ hend

theorem EndsAtOnce.bind (ha : a.EndsAtOnce) (hf : ∀ x, (f x).GoesOn) : (a >>= f).EndsAtOnce := by
  intro h hend
  rcases hx : (a.run h).1.result with e | x
  · rw [run_bind_of_error hx] at hend ⊢
    obtain rfl := Except.error.inj hend
    exact ha h hx
  · rw [run_bind_of_ok hx] at hend
    exact absurd hend (hf x _)

end Action

/-! ## Parts that go on -/

private theorem goesOn_free (address : Nat) : (free address).GoesOn := by
  intro h hend
  rw [run, free] at hend
  split at hend
  · cases hend
  · cases hend

private theorem goesOn_freePointer (pointer : Value) : (freePointer pointer).GoesOn := by
  unfold freePointer
  split
  · exact goesOn_pure ()
  · exact goesOn_free _
  · intro h hend
    cases hend

private theorem goesOn_write (address : Nat) (data : List UInt8) : (write address data).GoesOn := by
  intro h hend
  rcases hr : h.locate? address with _ | ⟨r, offset⟩
  · cases hend.symm.trans (Prod.mk.inj (outcome_write_of_none hr data)).1
  · by_cases hfit : offset + data.length ≤ r.size
    · cases hend.symm.trans (Prod.mk.inj (outcome_write_of_fits hr hfit)).1
    · have hlong := Nat.lt_of_not_le hfit
      cases hend.symm.trans (Prod.mk.inj (outcome_write_of_overrun hr hlong)).1

private theorem goesOn_store (pointer value : Value) : (store pointer value).GoesOn := by
  have hdereference : (liftM (dereference .store pointer) : Action (Nat × CType)).GoesOn :=
    fun _ ↦ goesOn_dereference .store pointer
  refine hdereference.bind fun (address, t) ↦ ?_
  refine GoesOn.bind (fun h ↦ ?_) fun bytes ↦ goesOn_write address bytes
  exact (goesOn_convert h.target .implicit value t).bind fun _ ↦ Traced.goesOn_pure _

private theorem goesOn_storeElements (element : CType) (a : Nat) (values : List Value)
    (index : Nat) : (storeElements (.pointerTo element a) index values).GoesOn := by
  induction values generalizing index with
  | nil => exact goesOn_pure ()
  | cons value rest ih =>
    have hslot : (ofHeap fun h ↦ h.elementPointer (.pointerTo element a) index).GoesOn :=
      fun h ↦ goesOn_elementPointer h element a index
    exact hslot.bind fun slot ↦ (goesOn_store slot value).bind fun _ ↦ ih (index + 1)

/-! ## Parts that allocate -/

private theorem endsAtOnce_alloc (size : Nat) : (alloc size).EndsAtOnce := by
  intro h hend
  by_cases hplaces : ∃ next, h.Places size next
  · obtain ⟨next, hplaces⟩ := hplaces
    by_cases hlong : capacity < size
    · exact ⟨next, (Prod.mk.inj (outcome_alloc_of_long hplaces hlong)).2⟩
    · have hroom : h.Admits size next := ⟨hplaces, Nat.le_of_not_lt hlong⟩
      cases hend.symm.trans (Prod.mk.inj (outcome_alloc hroom)).1
  · have hfull := outcome_alloc_of_full (not_exists.mp hplaces)
    cases hend.symm.trans (Prod.mk.inj hfull).1

private theorem endsAtOnce_calloc (count size : Nat) : (calloc count size).EndsAtOnce := by
  intro h hend
  obtain ⟨hresult, hheap⟩ := Prod.mk.inj (outcome_calloc_eq h count size)
  rw [hresult] at hend
  rw [hheap]
  exact endsAtOnce_alloc (count * size) h hend

private theorem endsAtOnce_sized {α : Type} {operation : Operation} {t : CType}
    {make : Nat → Action Handle} {f : Nat → Handle → Action α}
    (hmake : ∀ size, (make size).EndsAtOnce) (hf : ∀ size handle, (f size handle).GoesOn) :
    (ofHeap (fun h ↦ .ofExcept (h.objectSize operation t)) >>= fun size ↦
      make size >>= f size).EndsAtOnce := by
  intro h hend
  rcases hsize : t.size? h.target.pointerSize with _ | size
  · have hnone : ((ofHeap fun h ↦ .ofExcept (h.objectSize operation t)).run h).1.result
        = .error (.invalidOperands operation [t]) := by
      change h.objectSize operation t = _
      rw [objectSize, hsize]
    rw [run_bind_of_error hnone] at hend
    cases hend
  · have hsome : ((ofHeap fun h ↦ .ofExcept (h.objectSize operation t)).run h).1.result
        = .ok size := by
      change h.objectSize operation t = _
      rw [objectSize, hsize]
    rw [run_bind_of_ok hsome] at hend ⊢
    exact (hmake size).bind (hf size) h hend

/-! ## Requests -/

private theorem eq_error_of_map {α β : Type} {x : Except Error α} {g : α → β} {e : Error}
    (h : x.map g = .error e) : x = .error e := by
  cases x with
  | ok => cases h
  | error => exact congrArg Except.error (Except.error.inj h)

/-- A request that ends the program has moved the next address on and changed nothing else. -/
theorem skipped_of_respond {h : Heap} {request : Request}
    (hend : h.respond request = .error .capacityOverflow) :
    ∃ next, h.serve request = h.skipped next := by
  cases request with
  | alloc size => exact endsAtOnce_alloc size h (eq_error_of_map hend)
  | calloc count size => exact endsAtOnce_calloc count size h (eq_error_of_map hend)
  | callocTyped count t =>
    have hends : (callocTyped count t).EndsAtOnce :=
      endsAtOnce_sized (endsAtOnce_calloc count) fun _ _ ↦ goesOn_pure _
    exact hends h (eq_error_of_map hend)
  | free address => exact absurd hend (goesOn_free address h)
  | freePointer pointer => exact absurd hend (goesOn_freePointer pointer h)
  | write address data => exact absurd hend (goesOn_write address data h)
  | store pointer value => exact absurd hend (goesOn_store pointer value h)
  | addressOf value =>
    have hends : (addressOf value).EndsAtOnce :=
      endsAtOnce_sized endsAtOnce_alloc fun _ _ ↦
        (goesOn_store _ value).bind fun _ ↦ goesOn_pure _
    exact hends h (eq_error_of_map hend)
  | allocArray element values =>
    have hends : (allocArray element values).EndsAtOnce :=
      endsAtOnce_sized (endsAtOnce_calloc values.length) fun _ handle ↦
        (goesOn_storeElements element handle.address values 0).bind fun _ ↦ goesOn_pure _
    exact hends h (eq_error_of_map hend)

end Heap

end CValues
