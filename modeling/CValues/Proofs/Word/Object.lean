import CValues.Proofs.Word.Refinement
import CValues.Word.Object

/-!
# Words and the heap

The typed operations of the heap leave the same heap behind on the words of values as on the values,
and give the word of what they give on values.
-/

namespace CValues

theorem Heap.Action.run_map {α β : Type} (f : α → β) (a : Action α) (h : Heap) :
    (f <$> a).run h = (f <$> (a.run h).1, (a.run h).2) := by
  change (a >>= fun x ↦ pure (f x)).run h = ((a.run h).1 >>= fun x ↦ pure (f x), (a.run h).2)
  rcases hx : (a.run h).1.result with e | x
  · rw [run_bind_of_error hx, Traced.bind_of_error hx]
  · rw [run_bind_of_ok hx, Traced.bind_of_ok hx]
    rfl

open Value

/-! ## Loading -/

theorem dereference_word (operation : Operation) (v : Value) :
    v.word.dereference operation = Heap.dereference operation v := by
  cases v with
  | pointer t q a =>
    rw [word_pointer]
    cases t <;> rfl
  | bool | int | float | array => rfl

theorem readAs_word (h : Heap) (handle : Handle) (t : CType) :
    TypedWord.readAs h handle t = (h.readAs handle t).map word := by
  rw [TypedWord.readAs, Heap.readAs]
  rcases h.objectSize .load t with e | size
  · rfl
  · change ite _ _ _ = Except.map word (ite _ _ _)
    split_ifs
    · rfl
    · rcases h.read handle.address size with e | bytes
      · rfl
      · dsimp only [bind, Except.bind]
        cases t with
        | array element n => exact congrArg Except.ok (word_array element n _).symm
        | void | bool | int | float | pointer => exact TypedWord.ofBytes_eq _ _ bytes

theorem load_word (h : Heap) (v : Value) : TypedWord.load h v.word = word <$> h.load v := by
  rw [TypedWord.load, Heap.load, dereference_word, map_bind]
  refine bind_congr fun ⟨address, t⟩ ↦ ?_
  rw [map_bind]
  refine bind_congr fun handle ↦ ?_
  rw [readAs_word]
  exact Traced.ofExcept_map word _

theorem elementPointer_word (h : Heap) (v : Value) (index : Int) :
    TypedWord.elementPointer h v.word index = word <$> h.elementPointer v index := by
  rw [TypedWord.elementPointer, ← word_ofInt, binary_word]
  rfl

theorem loadElement_word (h : Heap) (v : Value) (index : Int) :
    TypedWord.loadElement h v.word index = word <$> h.loadElement v index := by
  rw [TypedWord.loadElement, Heap.loadElement, elementPointer_word, bind_map_left, map_bind]
  exact bind_congr fun element ↦ load_word h element

/-! ## Storing -/

theorem store_word (pointer v : Value) :
    TypedWord.store pointer.word v.word = Heap.store pointer v := by
  rw [TypedWord.store, Heap.store, dereference_word]
  refine bind_congr fun ⟨address, t⟩ ↦ ?_
  refine congrArg (· >>= Heap.write address) (congrArg Heap.Action.ofHeap (funext fun h ↦ ?_))
  rw [convert_word, bind_map_left]
  refine bind_congr fun stored ↦ ?_
  rw [toBytes_word]

/-! ## Making objects -/

theorem callocTyped_word (count : Nat) (t : CType) :
    TypedWord.callocTyped count t = word <$> Heap.callocTyped count t := by
  rw [TypedWord.callocTyped, Heap.callocTyped, map_bind]
  refine bind_congr fun size ↦ ?_
  rw [map_bind]
  refine bind_congr fun handle ↦ ?_
  rw [map_pure, word_pointerTo]

theorem addressOf_word (v : Value) :
    TypedWord.addressOf v.word = word <$> Heap.addressOf v := by
  rw [TypedWord.addressOf, Heap.addressOf, map_bind, type_word]
  refine bind_congr fun size ↦ ?_
  rw [map_bind]
  refine bind_congr fun handle ↦ ?_
  rw [map_bind, ← word_pointerTo]
  dsimp only
  rw [store_word]
  exact bind_congr fun _ ↦ (map_pure word _).symm

private theorem storeElements_word (first : Value) (values : List Value) (index : Nat) :
    TypedWord.storeElements first.word index (values.map word)
      = Heap.storeElements first index values := by
  induction values generalizing index with
  | nil => rfl
  | cons v rest ih =>
    rw [List.map_cons, TypedWord.storeElements, Heap.storeElements]
    have hslot : (Heap.Action.ofHeap fun h ↦ TypedWord.elementPointer h first.word index)
        = word <$> Heap.Action.ofHeap fun h ↦ h.elementPointer first index := by
      refine funext fun h ↦ Eq.trans ?_ (Heap.Action.run_map word _ h).symm
      exact congrArg (·, h) (elementPointer_word h first index)
    rw [hslot, bind_map_left]
    refine bind_congr fun slot ↦ ?_
    rw [store_word]
    exact bind_congr fun _ ↦ ih (index + 1)

theorem allocArray_word (element : CType) (values : List Value) :
    TypedWord.allocArray element (values.map word) = word <$> Heap.allocArray element values := by
  rw [TypedWord.allocArray, Heap.allocArray, map_bind]
  refine bind_congr fun size ↦ ?_
  rw [map_bind, List.length_map]
  refine bind_congr fun handle ↦ ?_
  rw [map_bind, ← word_pointerTo, storeElements_word]
  refine bind_congr fun _ ↦ ?_
  rw [map_pure, word_array]

/-! ## Freeing -/

theorem freePointer_word (v : Value) : v.word.freePointer = Heap.freePointer v := by
  rw [TypedWord.freePointer, address?_word, type_word]
  rfl

end CValues
