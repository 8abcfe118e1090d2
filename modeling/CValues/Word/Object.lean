import CValues.Heap.Object
import CValues.Word.Operator

/-!
# Words in the heap

The typed operations of the heap, on words. The heap itself holds bytes and knows nothing of values
or words, so it is the same one.
-/

namespace CValues

/-- The address as a pointer to no type in particular. -/
def Handle.toWord (h : Handle) : TypedWord := .pointerTo .void (BitVec.ofNat 64 h.address)

namespace TypedWord

open Heap

/-- The address and the type that a pointer gives access to. -/
def dereference (operation : Operation) (pointer : TypedWord) : Traced (Nat × CType) :=
  match pointer.type with
  | .pointer .void q => .fail (.invalidOperands operation [.pointer .void q])
  | .pointer t q =>
    if pointer.bits = 0 then .failWith (.throughNull operation (.pointer t q)) .nullDereference
    else pure (pointer.bits.toNat, t)
  | t => .fail (.invalidOperands operation [t])

/-! ## Loading -/

/-- The word of a type at a handle. -/
def readAs (h : Heap) (handle : Handle) (t : CType) : Except Error TypedWord := do
  let size ← h.objectSize .load t
  if handle.size < size then .error .outOfBounds
  else do
    let bytes ← h.read handle.address size
    match t with
    | .array element length => .ok (array element length (BitVec.ofNat 64 handle.address))
    | t => ofBytes h.target.pointerSize t bytes

/-- The word that a pointer points to. -/
def load (h : Heap) (pointer : TypedWord) : Traced TypedWord := do
  let (address, t) ← pointer.dereference .load
  let handle ← h.handleAt address
  readAs h handle t

/-- The pointer to an element of the array that begins at a pointer. -/
def elementPointer (h : Heap) (pointer : TypedWord) (index : Int) : Traced TypedWord :=
  pointer.binary h.target .add (ofInt .w64 .signed index)

/-- The element of the array that begins at a pointer. -/
def loadElement (h : Heap) (pointer : TypedWord) (index : Int) : Traced TypedWord := do
  let element ← elementPointer h pointer index
  load h element

/-! ## Storing -/

/-- Assigns a word to what a pointer points to. -/
def store (pointer value : TypedWord) : Action Unit := do
  let (address, t) ← pointer.dereference .store
  let bytes ← Action.ofHeap fun h ↦ do
    let stored ← value.convert h.target .implicit t
    return stored.toBytes h.target.pointerSize
  write address bytes

/-! ## Making objects -/

/-- Makes zeroed objects of a type, one after another, and points to the first. -/
def callocTyped (count : Nat) (t : CType) : Action TypedWord := do
  let size ← Action.ofHeap fun h ↦ .ofExcept (h.objectSize .calloc t)
  let handle ← calloc count size
  return pointerTo t (BitVec.ofNat 64 handle.address)

/-- Makes an object that holds a word, and points to it. -/
def addressOf (value : TypedWord) : Action TypedWord := do
  let size ← Action.ofHeap fun h ↦ .ofExcept (h.objectSize .addressOf value.type)
  let handle ← alloc size
  let pointer := pointerTo value.type (BitVec.ofNat 64 handle.address)
  store pointer value
  return pointer

/-- Stores words one after another, from an index on. -/
def storeElements (first : TypedWord) : Nat → List TypedWord → Action Unit
  | _, [] => pure ()
  | index, value :: rest => do
    let slot ← Action.ofHeap fun h ↦ elementPointer h first index
    store slot value
    storeElements first (index + 1) rest

/-- Makes an array of the words. -/
def allocArray (element : CType) (values : List TypedWord) : Action TypedWord := do
  let size ← Action.ofHeap fun h ↦ .ofExcept (h.objectSize .array element)
  let handle ← calloc values.length size
  storeElements (pointerTo element (BitVec.ofNat 64 handle.address)) 0 values
  return array element values.length (BitVec.ofNat 64 handle.address)

/-! ## Freeing -/

/-- Frees the region that a pointer or an array begins. Freeing address zero does nothing. -/
def freePointer (pointer : TypedWord) : Action Unit :=
  match pointer.address? with
  | some 0 => pure ()
  | some address => free address
  | none => Action.ofHeap fun _ ↦ .fail (.invalidOperands .free [pointer.type])

end TypedWord

end CValues
