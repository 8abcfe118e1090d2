import CValues.Heap.Object
import Mathlib.Logic.Relation
import Mathlib.Tactic.SplitIfs

/-!
# Runs of the heap

A program drives the heap by a row of requests. Each request is an action, which may succeed or
fail, and the next one meets the heap that was left behind either way.

Whatever a request asks for, it changes the heap in four ways only: a region is made, a region is
released, bytes of a live region are replaced, or the next address is moved on for a region that the
host does not lay out. `Change` says what each of them needs and does, and `Evolves` is a row of
such changes. An action built from actions that only evolve the heap does so too, whether it ends
early or not, so a property that survives the four changes survives every run.
-/

namespace CValues.Heap

/-! ## The four changes -/

/-- The heap with a new region at the next address. -/
def allocated (h : Heap) (size next : Nat) : Heap :=
  { h with regions := .zeroed h.next size :: h.regions, next := next, inUse := h.inUse + size }

/-- The heap without the bytes of a region. -/
def released (h : Heap) (r : Region) : Heap :=
  { h with regions := h.updateAt r.base Region.release, inUse := h.inUse - r.size }

/-- The heap with some bytes of a region replaced. -/
def overwritten (h : Heap) (r : Region) (offset : Nat) (data : List UInt8) : Heap :=
  { h with regions := h.updateAt r.base fun r ↦ r.write offset data }

/-- The heap with the next address moved on and no region for it. -/
def skipped (h : Heap) (next : Nat) : Heap := { h with next := next }

/-- One change of the heap, with what it needs. -/
inductive Change (h : Heap) : Heap → Prop
  | allocate {size next : Nat} (hlimit : h.inUseAfter size ≤ h.limit)
      (hnext : h.nextAddress? size = some next) : Change h (h.allocated size next)
  | skip {size next : Nat} (hnext : h.nextAddress? size = some next) : Change h (h.skipped next)
  | release {r : Region} (hr : h.regionAt? r.base = some r) : Change h (h.released r)
  | overwrite {address offset : Nat} {r : Region} {data : List UInt8}
      (hr : h.locate? address = some (r, offset)) (hfit : offset + data.length ≤ r.size) :
      Change h (h.overwritten r offset data)

/-- Some changes one after the other. -/
def Evolves : Heap → Heap → Prop := Relation.ReflTransGen Change

/-- What survives each change survives a row of them. -/
theorem Evolves.preserves {P : Heap → Prop} (hstep : ∀ h h', Change h h' → P h → P h')
    {h h' : Heap} (hevolves : Evolves h h') (hP : P h) : P h' := by
  induction hevolves with
  | refl => exact hP
  | tail _ hchange ih => exact hstep _ _ hchange ih

theorem Evolves.target_eq_and_limit_eq {h h' : Heap} (hevolves : Evolves h h') :
    h'.target = h.target ∧ h'.limit = h.limit := by
  refine hevolves.preserves (P := fun k ↦ k.target = h.target ∧ k.limit = h.limit) ?_ ⟨rfl, rfl⟩
  intro k k' hchange hk
  cases hchange <;> exact hk

/-! ## Actions that only evolve the heap -/

theorem base_eq_of_regionAt? {h : Heap} {address : Nat} {r : Region}
    (hr : h.regionAt? address = some r) : r.base = address := by
  have hfound := List.find?_some hr
  rw [Bool.and_eq_true, beq_iff_eq] at hfound
  exact hfound.2

namespace Action

variable {α β : Type}

/-- Wherever it starts and however it ends, the action only evolves the heap. -/
def OnlyEvolves (a : Action α) : Prop := ∀ h, Evolves h (a.run h).2

theorem onlyEvolves_ofHeap (f : Heap → Traced α) : OnlyEvolves (ofHeap f) := fun _ ↦ .refl

theorem onlyEvolves_pure (x : α) : OnlyEvolves (pure x : Action α) := fun _ ↦ .refl

theorem onlyEvolves_monadLift (x : Traced α) : OnlyEvolves (liftM x : Action α) := fun _ ↦ .refl

theorem OnlyEvolves.bind {a : Action α} {f : α → Action β} (ha : a.OnlyEvolves)
    (hf : ∀ x, (f x).OnlyEvolves) : (a >>= f).OnlyEvolves := by
  intro h
  cases hx : (a.run h).1.result with
  | ok x =>
    rw [run_bind_of_ok hx]
    exact (ha h).trans (hf x _)
  | error e =>
    -- nothing is taken back: the heap stays as the action had left it when it failed
    rw [run_bind_of_error hx]
    exact ha h

end Action

open CValues.Heap.Action

theorem onlyEvolves_alloc (size : Nat) : (alloc size).OnlyEvolves := by
  intro h
  rw [run, alloc]
  by_cases hlimit : h.limit < h.inUseAfter size
  · rw [if_pos hlimit]
    exact .refl
  · rw [if_neg hlimit]
    split
    · exact .refl
    · next next hnext =>
      split_ifs
      · exact .single (.skip hnext)
      · exact .single (.allocate (Nat.le_of_not_lt hlimit) hnext)

theorem nextAddress?_of_alloc_ok {h : Heap} {size : Nat} {handle : Handle}
    (hok : ((alloc size).run h).1.result = .ok handle) :
    ∃ next, h.nextAddress? size = some next := by
  rw [run, alloc] at hok
  by_cases hlimit : h.limit < h.inUseAfter size
  · rw [if_pos hlimit] at hok
    cases hok
  · rw [if_neg hlimit] at hok
    split at hok
    · cases hok
    · next next hnext => exact ⟨next, hnext⟩

theorem onlyEvolves_calloc (count size : Nat) : (calloc count size).OnlyEvolves := by
  intro h
  rw [run, calloc]
  split_ifs
  · exact onlyEvolves_alloc _ h
  · exact .refl

theorem onlyEvolves_free (address : Nat) : (free address).OnlyEvolves := by
  intro h
  rw [run, free]
  split
  · next r hr =>
    -- a release asks for the region by its own base, which is the address it was found at
    obtain rfl := base_eq_of_regionAt? hr
    exact .single (.release hr)
  · exact .refl

theorem onlyEvolves_write (address : Nat) (data : List UInt8) :
    (write address data).OnlyEvolves := by
  intro h
  rw [run, write, find]
  cases hr : h.locate? address with
  | none => exact .refl
  | some found =>
    obtain ⟨r, offset⟩ := found
    dsimp only
    split_ifs with hfit
    · exact .refl
    · exact .single (.overwrite hr (Nat.le_of_not_lt hfit))

theorem onlyEvolves_store (pointer value : Value) : (store pointer value).OnlyEvolves :=
  (onlyEvolves_monadLift _).bind fun (_, _) ↦
    (onlyEvolves_ofHeap _).bind fun _ ↦ onlyEvolves_write _ _

theorem onlyEvolves_callocTyped (count : Nat) (t : CType) : (callocTyped count t).OnlyEvolves :=
  (onlyEvolves_ofHeap _).bind fun _ ↦ (onlyEvolves_calloc _ _).bind fun _ ↦ onlyEvolves_pure _

theorem onlyEvolves_addressOf (value : Value) : (addressOf value).OnlyEvolves :=
  (onlyEvolves_ofHeap _).bind fun _ ↦ (onlyEvolves_alloc _).bind fun _ ↦
    (onlyEvolves_store _ _).bind fun _ ↦ onlyEvolves_pure _

theorem onlyEvolves_storeElements (first : Value) (index : Nat) (values : List Value) :
    (storeElements first index values).OnlyEvolves := by
  induction values generalizing index with
  | nil => exact onlyEvolves_pure ()
  | cons value rest ih =>
    exact (onlyEvolves_ofHeap _).bind fun _ ↦ (onlyEvolves_store _ _).bind fun _ ↦ ih _

theorem onlyEvolves_allocArray (element : CType) (values : List Value) :
    (allocArray element values).OnlyEvolves :=
  (onlyEvolves_ofHeap _).bind fun _ ↦ (onlyEvolves_calloc _ _).bind fun _ ↦
    (onlyEvolves_storeElements _ _ _).bind fun _ ↦ onlyEvolves_pure _

theorem onlyEvolves_freePointer (pointer : Value) : (freePointer pointer).OnlyEvolves := by
  rw [freePointer]
  split
  · exact onlyEvolves_pure ()
  · exact onlyEvolves_free _
  · exact onlyEvolves_ofHeap _

/-! ## Requests -/

/-- What a program can ask of the heap, apart from looking at it. -/
inductive Request where
  | alloc (size : Nat)
  | calloc (count size : Nat)
  | callocTyped (count : Nat) (t : CType)
  | free (address : Nat)
  | freePointer (pointer : Value)
  | write (address : Nat) (data : List UInt8)
  | store (pointer value : Value)
  | addressOf (value : Value)
  | allocArray (element : CType) (values : List Value)
  deriving DecidableEq, Repr

/-- The address of the region that a request asks to be freed. -/
def Request.freed? : Request → Option Nat
  | .free address => some address
  | .freePointer pointer => pointer.address?
  | _ => none

/-- The heap that a request leaves behind, whether it succeeded or failed. -/
def serve (h : Heap) : Request → Heap
  | .alloc size => ((alloc size).run h).2
  | .calloc count size => ((calloc count size).run h).2
  | .callocTyped count t => ((callocTyped count t).run h).2
  | .free address => ((free address).run h).2
  | .freePointer pointer => ((freePointer pointer).run h).2
  | .write address data => ((write address data).run h).2
  | .store pointer value => ((store pointer value).run h).2
  | .addressOf value => ((addressOf value).run h).2
  | .allocArray element values => ((allocArray element values).run h).2

/-- Whether a request succeeds, and the error it fails with if not. What it gives beyond that is
left out. -/
def respond (h : Heap) : Request → Except Error Unit
  | .alloc size => ((alloc size).run h).1.result.map fun _ ↦ ()
  | .calloc count size => ((calloc count size).run h).1.result.map fun _ ↦ ()
  | .callocTyped count t => ((callocTyped count t).run h).1.result.map fun _ ↦ ()
  | .free address => ((free address).run h).1.result
  | .freePointer pointer => ((freePointer pointer).run h).1.result
  | .write address data => ((write address data).run h).1.result
  | .store pointer value => ((store pointer value).run h).1.result
  | .addressOf value => ((addressOf value).run h).1.result.map fun _ ↦ ()
  | .allocArray element values => ((allocArray element values).run h).1.result.map fun _ ↦ ()

/-- The heap after some requests in a row. -/
def after (h : Heap) (requests : List Request) : Heap := requests.foldl serve h

theorem evolves_serve (h : Heap) (request : Request) : Evolves h (h.serve request) := by
  cases request with
  | alloc size => exact onlyEvolves_alloc size h
  | calloc count size => exact onlyEvolves_calloc count size h
  | callocTyped count t => exact onlyEvolves_callocTyped count t h
  | free address => exact onlyEvolves_free address h
  | freePointer pointer => exact onlyEvolves_freePointer pointer h
  | write address data => exact onlyEvolves_write address data h
  | store pointer value => exact onlyEvolves_store pointer value h
  | addressOf value => exact onlyEvolves_addressOf value h
  | allocArray element values => exact onlyEvolves_allocArray element values h

/-- A whole run only evolves the heap. -/
theorem evolves_after (h : Heap) (requests : List Request) : Evolves h (h.after requests) := by
  induction requests generalizing h with
  | nil => exact .refl
  | cons request rest ih => exact (evolves_serve h request).trans (ih _)

end CValues.Heap
