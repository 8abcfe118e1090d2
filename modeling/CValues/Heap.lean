import CValues.Traced
import CValues.Value.Bytes

/-!
# The heap

Memory is a set of regions, each made by one allocation at an address of its own. Addresses are
handed out in ascending order, sixteen bytes apart at least, and never again: a freed region stays as
a mark of where it was, without its bytes. So an address that was freed is never valid later.

An allocation counts against a limit on the bytes in use. It fails if the limit would be passed or
if no address would be left for the next allocation. Beyond these two tests the bytes themselves are
needed, and no host lays out more than `Heap.capacity` of them in a row: a larger region ends the
program, which a limit of that size and addresses of 64 bits do not prevent.

Actions on the heap may fail, and what an action did before it failed stays done.
-/

namespace CValues

/-- One allocation. -/
structure Region where
  /-- The address of the first byte. -/
  base : Nat
  /-- The number of bytes asked for. -/
  size : Nat
  /-- The bytes, until the region is freed. -/
  bytes? : Option (List UInt8)
  deriving DecidableEq, Repr

namespace Region

/-- A new region, all of whose bytes are zero. -/
def zeroed (base size : Nat) : Region := ⟨base, size, some (List.replicate size 0)⟩

/-- The region has not been freed. -/
def isLive (r : Region) : Bool := r.bytes?.isSome

/-- The region without its bytes. -/
def release (r : Region) : Region := { r with bytes? := none }

/-- The address is one of the region's bytes. -/
def covers (r : Region) (address : Nat) : Bool :=
  decide (r.base ≤ address) && decide (address - r.base < r.size)

/-- The bytes with some of them replaced, from an offset on. -/
def overwrite (bytes : List UInt8) (offset : Nat) (data : List UInt8) : List UInt8 :=
  bytes.take offset ++ (data ++ bytes.drop (offset + data.length))

/-- The region with some of its bytes replaced. -/
def write (r : Region) (offset : Nat) (data : List UInt8) : Region :=
  { r with bytes? := r.bytes?.map fun bytes ↦ overwrite bytes offset data }

end Region

/-- An address together with the number of bytes that can be reached from it. -/
structure Handle where
  /-- The address. -/
  address : Nat
  /-- The number of bytes from there to the end of the region. -/
  size : Nat
  deriving DecidableEq, Repr

namespace Handle

/-- The address as a pointer to no type in particular. -/
def toPointer (h : Handle) : Value := .pointerTo .void h.address

end Handle

/-- The memory of a program on a target. -/
structure Heap where
  /-- The machine. -/
  target : Target
  /-- The most bytes that may be in use. -/
  limit : Nat
  /-- The allocations, the latest first. -/
  regions : List Region
  /-- The address of the next allocation. -/
  next : Nat
  /-- The number of bytes in use. -/
  inUse : Nat
  deriving DecidableEq, Repr

namespace Heap

/-- The limit if none is given: 16 MiB. -/
def defaultLimit : Nat := 16 * 1024 * 1024

/-- The address of the first allocation. -/
def firstAddress : PointerSize → Nat
  | .bits64 => 0x7FFF00000000
  | .bits32 => 0x10000000

/-- A heap without allocations. -/
def empty (target : Target) (limit : Nat := defaultLimit) : Heap :=
  ⟨target, limit, [], firstAddress target.pointerSize, 0⟩

/-! ## Finding regions -/

/-- The live region that begins at an address. -/
def regionAt? (h : Heap) (address : Nat) : Option Region :=
  h.regions.find? fun r ↦ r.isLive && r.base == address

/-- The live region that an address lies in, and the offset from its base. A region of size zero is
found at its base. -/
def locate? (h : Heap) (address : Nat) : Option (Region × Nat) :=
  match h.regionAt? address with
  | some r => some (r, 0)
  | none =>
    (h.regions.find? fun r ↦ r.isLive && r.covers address).map fun r ↦ (r, address - r.base)

/-- A live region is found at the address. -/
def isValid (h : Heap) (address : Nat) : Bool := (h.locate? address).isSome

/-- The regions, with the one at a base changed. -/
def updateAt (h : Heap) (base : Nat) (change : Region → Region) : List Region :=
  h.regions.map fun r ↦ if r.base = base then change r else r

/-! ## Reading -/

/-- The region and offset of an address. -/
def find (h : Heap) (address : Nat) : Except Error (Region × Nat) :=
  match h.locate? address with
  | some found => .ok found
  | none => .error (.invalidPointer address .outsideRegions)

/-- The handle of an address: what can be reached from there. -/
def handleAt (h : Heap) (address : Nat) : Except Error Handle := do
  let (r, offset) ← h.find address
  return ⟨address, r.size - offset⟩

/-- Some bytes from an address on. -/
def read (h : Heap) (address size : Nat) : Except Error (List UInt8) := do
  let (r, offset) ← h.find address
  if r.size < offset + size then .error .outOfBounds
  else .ok (((r.bytes?.getD []).drop offset).take size)

/-! ## Actions -/

/-- Something done to the heap that may fail. -/
def Action (α : Type) : Type := Heap → Traced α × Heap

namespace Action

variable {α β : Type}

/-- Runs an action. -/
def run (a : Action α) (h : Heap) : Traced α × Heap := a h

/-- Does nothing. -/
protected def pure (x : α) : Action α := fun h ↦ (pure x, h)

/-- One action after the other. -/
protected def bind (a : Action α) (f : α → Action β) : Action β := fun h ↦
  let (x, h) := a h
  match x.result with
  | .ok y =>
    let (z, h) := f y h
    (⟨x.log ++ z.log, z.result⟩, h)
  | .error e => (⟨x.log, .error e⟩, h)

instance : Monad Action where
  pure := Action.pure
  bind := Action.bind

/-- A computation that only looks at the heap. -/
def ofHeap (f : Heap → Traced α) : Action α := fun h ↦ (f h, h)

instance : MonadLift Traced Action := ⟨fun x ↦ ofHeap fun _ ↦ x⟩

/-! The heap after a sequence of two actions is the one the last action that ran left behind. -/

theorem run_bind_of_ok {a : Action α} {f : α → Action β} {h : Heap} {y : α}
    (hy : (a.run h).1.result = .ok y) :
    (a >>= f).run h =
      (⟨(a.run h).1.log ++ ((f y).run (a.run h).2).1.log, ((f y).run (a.run h).2).1.result⟩,
        ((f y).run (a.run h).2).2) := by
  change Action.bind a f h = _
  simp only [run] at hy
  simp only [Action.bind, hy, run]

theorem run_bind_of_error {a : Action α} {f : α → Action β} {h : Heap} {e : Error}
    (he : (a.run h).1.result = .error e) :
    (a >>= f).run h = (⟨(a.run h).1.log, .error e⟩, (a.run h).2) := by
  change Action.bind a f h = _
  simp only [run] at he
  simp only [Action.bind, he, run]

instance : LawfulMonad Action := by
  refine LawfulMonad.mk' Action ?_ ?_ ?_
  · intro α a
    refine funext fun h ↦ ?_
    change (a >>= pure).run h = a.run h
    rcases hx : (a.run h).1.result with e | x
    · rw [run_bind_of_error hx]
      exact Prod.ext (Traced.ext rfl hx.symm) rfl
    · rw [run_bind_of_ok hx]
      exact Prod.ext (Traced.ext (List.append_nil _) hx.symm) rfl
  · intro α β x f
    refine funext fun h ↦ ?_
    change (pure x >>= f).run h = (f x).run h
    rw [run_bind_of_ok rfl]
    rfl
  · intro α β γ a f g
    refine funext fun h ↦ ?_
    change (a >>= f >>= g).run h = (a >>= fun x ↦ f x >>= g).run h
    rcases hx : (a.run h).1.result with e | x
    · have hfirst : ((a >>= f).run h).1.result = .error e := by rw [run_bind_of_error hx]
      rw [run_bind_of_error hfirst, run_bind_of_error hx, run_bind_of_error hx]
    · rw [run_bind_of_ok hx]
      rcases hy : ((f x).run (a.run h).2).1.result with e | y
      · have hfirst : ((a >>= f).run h).1.result = .error e := by rw [run_bind_of_ok hx, hy]
        rw [run_bind_of_error hfirst, run_bind_of_error hy, run_bind_of_ok hx]
      · have hfirst : ((a >>= f).run h).1.result = .ok y := by rw [run_bind_of_ok hx, hy]
        rw [run_bind_of_ok hfirst, run_bind_of_ok hy, run_bind_of_ok hx, List.append_assoc]

end Action

/-! ## Allocating and freeing -/

/-- An address rounded up to a multiple of sixteen. -/
def alignUp (address : Nat) : Nat := (address + 15) / 16 * 16

/-- The address after an allocation, if the address space has one. An allocation of no bytes takes
one, so that its address is its own. -/
def nextAddress? (h : Heap) (size : Nat) : Option Nat :=
  let stop := h.next + max size 1
  if stop + 15 < pow2 64 ∧ h.target.pointerSize.Fits (alignUp stop) then some (alignUp stop)
  else none

/-- The most bytes that a host lays out in a row. -/
def capacity : Nat := pow2 63 - 1

/-- The number of bytes in use after an allocation. The count stops at the largest of 64 bits. -/
def inUseAfter (h : Heap) (size : Nat) : Nat := min (h.inUse + size) (pow2 64 - 1)

/-- Makes a region of zero bytes. The next address is moved on before the bytes are laid out. -/
def alloc (size : Nat) : Action Handle := fun h ↦
  let full : Error := .allocationLimit h.inUse h.limit
  if h.limit < h.inUseAfter size then
    (.failWith (.allocationRejected size (.overLimit h.inUse h.limit)) full, h)
  else
    match h.nextAddress? size with
    | none => (.failWith (.allocationRejected size .exhausted) full, h)
    | some next =>
      if capacity < size then (.fail .capacityOverflow, { h with next := next })
      else
        (⟨[.allocated size h.next], .ok ⟨h.next, size⟩⟩,
          { h with
            regions := .zeroed h.next size :: h.regions
            next := next
            inUse := h.inUse + size })

/-- Makes a region for some objects of one size. -/
def calloc (count size : Nat) : Action Handle := fun h ↦
  if count * size < pow2 64 then alloc (count * size) h
  else (.fail (.allocationLimit h.inUse h.limit), h)

/-- Frees the region that begins at an address. -/
def free (address : Nat) : Action Unit := fun h ↦
  match h.regionAt? address with
  | some r =>
    (⟨[.freed address], .ok ()⟩,
      { h with regions := h.updateAt address Region.release, inUse := h.inUse - r.size })
  | none => (.failWith (.invalidFree address) (.invalidPointer address .notAllocated), h)

/-! ## Writing -/

/-- Replaces the bytes from an address on. -/
def write (address : Nat) (data : List UInt8) : Action Unit := fun h ↦
  match h.find address with
  | .error e => (.fail e, h)
  | .ok (r, offset) =>
    if r.size < offset + data.length then (.fail .outOfBounds, h)
    else (pure (), { h with regions := h.updateAt r.base fun r ↦ r.write offset data })

end Heap

end CValues
