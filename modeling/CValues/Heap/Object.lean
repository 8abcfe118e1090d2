import CValues.Arithmetic
import CValues.Heap

/-!
# Objects in the heap

Access to the heap through typed pointers. A store converts the value to the type pointed to, as an
assignment does, and writes its bytes; a load reads the bytes back as a value of that type. What a
pointer to an array points to is not read: loading it gives the array at that address.

Taking the address of a value makes an object of its own for it, and an array of values is one
region with the values one after another.
-/

namespace CValues.Heap

/-- The size of the objects of a type. -/
def objectSize (h : Heap) (operation : Operation) (t : CType) : Except Error Nat :=
  match t.size? h.target.pointerSize with
  | some size => .ok size
  | none => .error (.invalidOperands operation [t])

/-- The address and the type that a pointer gives access to. -/
def dereference (operation : Operation) : Value → Traced (Nat × CType)
  | .pointer .void q a => .fail (.invalidOperands operation [(Value.pointer .void q a).type])
  | .pointer t q a =>
    if a = 0 then .failWith (.throughNull operation (.pointer t q)) .nullDereference
    else pure (a.toNat, t)
  | v => .fail (.invalidOperands operation [v.type])

/-! ## Loading -/

/-- The value of a type at a handle. -/
def readAs (h : Heap) (handle : Handle) (t : CType) : Except Error Value := do
  let size ← h.objectSize .load t
  if handle.size < size then .error .outOfBounds
  else do
    let bytes ← h.read handle.address size
    match t with
    | .array element length => .ok (.array element length (BitVec.ofNat 64 handle.address))
    | t => Value.ofBytes h.target.pointerSize t bytes

/-- The value that a pointer points to. -/
def load (h : Heap) (pointer : Value) : Traced Value := do
  let (address, t) ← dereference .load pointer
  let handle ← h.handleAt address
  h.readAs handle t

/-- The pointer to an element of the array that begins at a pointer. -/
def elementPointer (h : Heap) (pointer : Value) (index : Int) : Traced Value :=
  binary h.target .add pointer (.ofInt .w64 .signed index)

/-- The element of the array that begins at a pointer. -/
def loadElement (h : Heap) (pointer : Value) (index : Int) : Traced Value := do
  let element ← h.elementPointer pointer index
  h.load element

/-! ## Storing -/

/-- Assigns a value to what a pointer points to. -/
def store (pointer value : Value) : Action Unit := do
  let (address, t) ← dereference .store pointer
  let bytes ← Action.ofHeap fun h ↦ do
    let stored ← convert h.target .implicit value t
    return stored.toBytes h.target.pointerSize
  write address bytes

/-! ## Making objects -/

/-- Makes zeroed objects of a type, one after another, and points to the first. -/
def callocTyped (count : Nat) (t : CType) : Action Value := do
  let size ← Action.ofHeap fun h ↦ .ofExcept (h.objectSize .calloc t)
  let handle ← calloc count size
  return .pointerTo t handle.address

/-- Makes an object that holds a value, and points to it. -/
def addressOf (value : Value) : Action Value := do
  let size ← Action.ofHeap fun h ↦ .ofExcept (h.objectSize .addressOf value.type)
  let handle ← alloc size
  let pointer := Value.pointerTo value.type handle.address
  store pointer value
  return pointer

/-- Stores values one after another, from an index on. -/
def storeElements (first : Value) : Nat → List Value → Action Unit
  | _, [] => pure ()
  | index, value :: rest => do
    let slot ← Action.ofHeap fun h ↦ h.elementPointer first index
    store slot value
    storeElements first (index + 1) rest

/-- Makes an array of the values. -/
def allocArray (element : CType) (values : List Value) : Action Value := do
  let size ← Action.ofHeap fun h ↦ .ofExcept (h.objectSize .array element)
  let handle ← calloc values.length size
  storeElements (.pointerTo element handle.address) 0 values
  return .array element values.length (BitVec.ofNat 64 handle.address)

/-! ## Freeing -/

/-- Frees the region that a pointer or an array begins. Freeing address zero does nothing. -/
def freePointer (pointer : Value) : Action Unit :=
  match pointer.address? with
  | some 0 => pure ()
  | some address => free address
  | none => Action.ofHeap fun _ ↦ .fail (.invalidOperands .free [pointer.type])

end CValues.Heap
