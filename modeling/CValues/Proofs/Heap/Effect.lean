import CValues.Proofs.Heap.Ending

/-!
# What a request does

A request does one of four things to the heap: nothing, one new region, one region released, or some
bytes of one region replaced. A fifth end is that of the program, in the middle of a request for
more bytes than the host lays out. `Effect` says which of them goes with which request and which
answer, and every property of single requests can be read off it.

The elementary requests look before they act, so those that fail do nothing. Taking an address and
making an array act first: they allocate a region and store into it afterwards, and if a store fails
the region stays, with no pointer to it ever given out. `Request.Leaks` tells these requests apart,
and there are no other ones that fail and leave a trace.
-/

namespace CValues.Heap

open CValues.Heap.Action

variable {h : Heap}

/-- The addresses that a request asks to be written. -/
def Request.writes (p : PointerSize) : Request → Set Nat
  | .write address data => Set.Ico address (address + data.length)
  | .store (.pointer t _ a) _ => Set.Ico a.toNat (a.toNat + (t.size? p).getD 0)
  | _ => ∅

/-- The request allocates a region for something that cannot be stored into it: there is room, but
the value is an array, or one of the elements does not convert to the type of the array. -/
def Request.Leaks (h : Heap) : Request → Prop
  | .addressOf value => value.type.isScalar = false ∧
      ∃ size next, value.type.size? h.target.pointerSize = some size ∧ h.Admits size next
  | .allocArray element values =>
      (∃ value ∈ values, ∀ u, (convert h.target .implicit value element).result ≠ .ok u) ∧
      ∃ size next, element.size? h.target.pointerSize = some size ∧
        h.Admits (values.length * size) next
  | _ => False

/-- What a request with this answer can have made of the heap. -/
inductive Effect (h : Heap) (request : Request) : Except Error Unit → Heap → Prop
  | nothing {answer : Except Error Unit} (hkeeps : ¬ request.Leaks h) : Effect h request answer h
  | make {answer : Except Error Unit} {next : Nat} {bytes : List UInt8}
      (hroom : h.Admits bytes.length next) (hleaks : request.Leaks h ↔ ∃ e, answer = .error e) :
      Effect h request answer (h.made next bytes)
  | ended {next : Nat} (hkeeps : ¬ request.Leaks h) :
      Effect h request (.error .capacityOverflow) (h.skipped next)
  | release {r : Region} (hr : h.regionAt? r.base = some r)
      (hfreed : request.freed? = some r.base) : Effect h request (.ok ()) (h.released r)
  | overwrite {r : Region} {offset : Nat} {data : List UInt8}
      (hr : h.locate? (r.base + offset) = some (r, offset)) (hfit : offset + data.length ≤ r.size)
      (hwrites : request.writes h.target.pointerSize
        = Set.Ico (r.base + offset) (r.base + offset + data.length)) :
      Effect h request (.ok ()) (h.overwritten r offset data)

/-! ## Requests that make a region -/

section Make

variable {α : Type} {a : Action α} {request : Request}

private theorem effect_of_declines (hdeclines : a.Declines h) (hkeeps : ¬ request.Leaks h) :
    Effect h request ((a.outcome h).1.map fun _ ↦ ()) (a.outcome h).2 := by
  obtain ⟨e, h', houtcome, hdeclined⟩ := hdeclines
  rw [houtcome]
  cases hdeclined with
  | refused => exact .nothing hkeeps
  | ended => exact .ended hkeeps

private theorem effect_of_made {result : Except Error α} {next : Nat} {bytes : List UInt8}
    (hroom : h.Admits bytes.length next) (houtcome : a.outcome h = (result, h.made next bytes))
    (hleaks : request.Leaks h ↔ ∃ e, result = .error e) :
    Effect h request ((a.outcome h).1.map fun _ ↦ ()) (a.outcome h).2 := by
  rw [houtcome]
  refine .make hroom (hleaks.trans ?_)
  rcases result with e | x
  · exact iff_of_true ⟨e, rfl⟩ ⟨e, rfl⟩
  · exact iff_of_false nofun nofun

/-- A region of zeros where there is room, and none where there is not. -/
theorem effect_of_room {x : α} {size : Nat}
    (hmade : ∀ next, h.Admits size next → a.outcome h = (.ok x, h.allocated size next))
    (hfull : (∀ next, ¬ h.Admits size next) → a.Declines h)
    (hkeeps : ¬ request.Leaks h) :
    Effect h request ((a.outcome h).1.map fun _ ↦ ()) (a.outcome h).2 := by
  by_cases hroom : ∃ next, h.Admits size next
  · obtain ⟨next, hroom⟩ := hroom
    have houtcome := hmade next hroom
    rw [allocated_eq_made] at houtcome
    exact effect_of_made (by rwa [List.length_replicate]) houtcome (iff_of_false hkeeps nofun)
  · exact effect_of_declines (hfull (not_exists.mp hroom)) hkeeps

end Make

private theorem effect_callocTyped (h : Heap) (count : Nat) (t : CType) :
    Effect h (.callocTyped count t) (h.respond (.callocTyped count t))
      (h.serve (.callocTyped count t)) := by
  rcases hsize : t.size? h.target.pointerSize with _ | size
  · refine effect_of_declines (declines_callocTyped fun size next hsome ↦ ?_) id
    rw [hsize] at hsome
    cases hsome
  · refine effect_of_room (fun next ↦ outcome_callocTyped hsize) (fun hfull ↦ ?_) id
    refine declines_callocTyped fun n next hn ↦ ?_
    rw [hsize] at hn
    obtain rfl := Option.some.inj hn
    exact hfull next

private theorem WellFormed.effect_addressOf (hwf : h.WellFormed) (value : Value) :
    Effect h (.addressOf value) (h.respond (.addressOf value)) (h.serve (.addressOf value)) := by
  by_cases hroom : ∃ size next,
      value.type.size? h.target.pointerSize = some size ∧ h.Admits size next
  · have hleaks : (Request.addressOf value).Leaks h ↔ value.type.isScalar = false :=
      and_iff_left hroom
    obtain ⟨size, next, hsize, hroom⟩ := hroom
    rcases hscalar : value.type.isScalar
    · obtain ⟨e, he⟩ := hwf.outcome_addressOf_of_not_scalar hscalar hsize hroom
      rw [allocated_eq_made] at he
      exact effect_of_made (by rwa [List.length_replicate]) he
        (iff_of_true (hleaks.mpr hscalar) ⟨e, rfl⟩)
    · rw [Value.size?_type hscalar] at hsize
      obtain rfl := Option.some.inj hsize
      refine effect_of_made (by rwa [Value.length_toBytes]) (hwf.outcome_addressOf hscalar hroom)
        (iff_of_false ?_ nofun)
      rw [hleaks, hscalar]
      exact Bool.noConfusion
  · have hdeclines := declines_addressOf fun size next hsize hadmits ↦
      hroom ⟨size, next, hsize, hadmits⟩
    exact effect_of_declines hdeclines fun hleaks ↦ hroom hleaks.2

private theorem WellFormed.effect_allocArray (hwf : h.WellFormed) (element : CType)
    (values : List Value) :
    Effect h (.allocArray element values) (h.respond (.allocArray element values))
      (h.serve (.allocArray element values)) := by
  by_cases hroom : ∃ size next,
      element.size? h.target.pointerSize = some size ∧ h.Admits (values.length * size) next
  · have hleaks : (Request.allocArray element values).Leaks h ↔
        ∃ value ∈ values, ∀ u, (convert h.target .implicit value element).result ≠ .ok u :=
      and_iff_left hroom
    obtain ⟨size, next, hsize, hroom⟩ := hroom
    obtain ⟨result, houtcome, hresult⟩ := hwf.outcome_allocArray hsize hroom
    refine effect_of_made ?_ houtcome (hleaks.trans ?_)
    · have hbytes := length_elementBytes_le hsize values
      rwa [Region.length_overwrite, List.length_replicate]
      rwa [Nat.zero_add, List.length_replicate]
    · rw [← not_allConvert_iff, ← hresult]
      rcases result with e | x
      · exact iff_of_true nofun ⟨e, rfl⟩
      · exact iff_of_false (not_not_intro ⟨x, rfl⟩) nofun
  · have hdeclines := declines_allocArray fun size next hsize hadmits ↦
      hroom ⟨size, next, hsize, hadmits⟩
    exact effect_of_declines hdeclines fun hleaks ↦ hroom hleaks.2

/-! ## All requests -/

private theorem effect_of_free {request : Request} {address : Nat} (hkeeps : ¬ request.Leaks h)
    (hfreed : request.freed? = some address) :
    Effect h request ((free address).outcome h).1 ((free address).outcome h).2 := by
  rcases outcome_free_cases address h with ⟨e, he⟩ | ⟨r, rfl, hr, hreleased⟩
  · rw [he]
    exact .nothing hkeeps
  · rw [hreleased]
    exact .release hr hfreed

private theorem effect_freePointer (h : Heap) (pointer : Value) :
    Effect h (.freePointer pointer) (h.respond (.freePointer pointer))
      (h.serve (.freePointer pointer)) := by
  change Effect h _ ((freePointer pointer).outcome h).1 ((freePointer pointer).outcome h).2
  rcases hpointer : pointer.address? with _ | address
  · rw [freePointer, hpointer]
    exact .nothing id
  · by_cases hnull : address = 0
    · rw [freePointer, hpointer, hnull]
      exact .nothing id
    · rw [outcome_freePointer hpointer hnull]
      exact effect_of_free id hpointer

private theorem effect_of_write {request : Request} (hkeeps : ¬ request.Leaks h) {address : Nat}
    {data : List UInt8}
    (hwrites : request.writes h.target.pointerSize
      = Set.Ico address (address + data.length)) :
    Effect h request ((write address data).outcome h).1 ((write address data).outcome h).2 := by
  rcases outcome_write_cases address data h with ⟨e, he⟩ | ⟨r, offset, hr, hfit, hwritten⟩
  · rw [he]
    exact .nothing hkeeps
  · obtain ⟨-, -, rfl, -⟩ := locate?_eq_some hr
    rw [hwritten]
    exact .overwrite hr hfit hwrites

private theorem effect_store (h : Heap) (pointer value : Value) :
    Effect h (.store pointer value) (h.respond (.store pointer value))
      (h.serve (.store pointer value)) := by
  change Effect h _ ((store pointer value).outcome h).1 ((store pointer value).outcome h).2
  rcases outcome_store_cases pointer value h with ⟨e, he⟩ | ⟨t, q, a, u, rfl, hu, hwrite⟩
  · rw [he]
    exact .nothing id
  · rw [hwrite]
    refine effect_of_write id ?_
    obtain ⟨-, hsize⟩ := size?_of_convert h.target.pointerSize hu
    rw [Request.writes, hsize, Option.getD_some, Value.length_toBytes]

/-- What every request does, in a heap that a program can reach. -/
theorem WellFormed.effect (hwf : h.WellFormed) (request : Request) :
    Effect h request (h.respond request) (h.serve request) := by
  cases request with
  | alloc size =>
    exact effect_of_room (fun next ↦ outcome_alloc) declines_alloc id
  | calloc count size =>
    exact effect_of_room (fun next ↦ outcome_calloc) declines_calloc id
  | callocTyped count t => exact effect_callocTyped h count t
  | free address => exact effect_of_free id rfl
  | freePointer pointer => exact effect_freePointer h pointer
  | write address data => exact effect_of_write id rfl
  | store pointer value => exact effect_store h pointer value
  | addressOf value => exact hwf.effect_addressOf value
  | allocArray element values => exact hwf.effect_allocArray element values

/-! ## Failed requests -/

/-- **A request that fails leaves the heap as it was, unless it leaks.** A leak adds one region on
top and changes nothing else. Where the request does not fail but ends the program, it does not leak
either and only the next address has been moved on. -/
theorem failed_request_keeps_heap_iff (target : Target) (limit : Nat) (requests : List Request)
    (request : Request) (e : Error) :
    let h := (empty target limit).after requests
    h.respond request = .error e →
      (e ≠ .capacityOverflow → (h.serve request = h ↔ ¬ request.Leaks h)) ∧
      (request.Leaks h → ∃ next bytes, h.serve request = h.made next bytes) ∧
      (e = .capacityOverflow → ¬ request.Leaks h ∧ ∃ next, h.serve request = h.skipped next) := by
  intro h hfails
  have hwf : h.WellFormed := wellFormed_after target limit requests
  have heffect := hwf.effect request
  rw [hfails] at heffect
  have hleaked : request.Leaks h → ∃ next bytes, h.serve request = h.made next bytes := by
    intro hleaks
    generalize h.serve request = h' at heffect
    cases heffect with
    | make => exact ⟨_, _, rfl⟩
    | nothing hkeeps | ended hkeeps => exact absurd hleaks hkeeps
  refine ⟨fun he ↦ ⟨fun hkept hleaks ↦ ?_, fun hkeeps ↦ ?_⟩, hleaked, ?_⟩
  · obtain ⟨next, bytes, hmade⟩ := hleaked hleaks
    exact made_ne _ _ _ (hmade.symm.trans hkept)
  · generalize h.serve request = h' at heffect
    cases heffect with
    | nothing => rfl
    | make hroom hleaks => exact absurd (hleaks.mpr ⟨e, rfl⟩) hkeeps
    | ended => exact absurd rfl he
  · rintro rfl
    obtain ⟨next, hskipped⟩ := skipped_of_respond hfails
    refine ⟨fun hleaks ↦ ?_, next, hskipped⟩
    obtain ⟨next', bytes, hmade⟩ := hleaked hleaks
    exact List.cons_ne_self _ _ (congrArg regions (hmade.symm.trans hskipped))

/-- A store that is refused leaves no trace. An array whose second element is refused leaves a
region with the bytes of the first. -/
theorem failed_request_keeps_heap_iff_array :
    let h := (empty {}).after [.alloc 8]
    let refused := Value.pointerTo .void 4096
    let store := Request.store (.pointerTo .plainInt 0x7FFF00000000) refused
    let array := Request.allocArray (.int .w16 .signed) [.plainInt 258, refused]
    h.respond store = .error (.unsupportedConversion (.pointerTo .void) .plainInt) ∧
      h.serve store = h ∧
      h.respond array = .error (.unsupportedConversion (.pointerTo .void) (.int .w16 .signed)) ∧
      array.Leaks h ∧ (∃ next bytes, h.serve array = h.made next bytes) ∧
      (h.serve array).regions
        = [.holding 0x7FFF00000010 [2, 1, 0, 0], .zeroed 0x7FFF00000000 8] := by
  intro h refused store array
  have hleaks : array.Leaks h := by
    refine ⟨⟨refused, .tail _ (.head _), fun u hu ↦ ?_⟩, 2, 0x7FFF00000020, rfl, ?_⟩
    · cases hu
    · exact ⟨⟨by decide, by decide⟩, by decide⟩
  have hrefused : h.respond array
      = .error (.unsupportedConversion (.pointerTo .void) (.int .w16 .signed)) := by decide
  obtain ⟨hkept, -⟩ := failed_request_keeps_heap_iff {} defaultLimit [.alloc 8] store _ rfl
  obtain ⟨-, hleaked, -⟩ := failed_request_keeps_heap_iff {} defaultLimit [.alloc 8] array _ hrefused
  have hreported : Error.unsupportedConversion (.pointerTo .void) .plainInt ≠ .capacityOverflow := by
    decide
  exact ⟨rfl, (hkept hreported).mpr id, hrefused, hleaks, hleaked hleaks, by decide⟩

/-- Not every request that fails leaves the heap as it was: taking the address of an array fails and
leaves its region in use. -/
theorem not_forall_failed_request_keeps_heap :
    ¬ ∀ target limit requests request e,
      let h := (empty target limit).after requests
      h.respond request = .error e → h.serve request = h := by
  intro hall
  have hkept := hall {} defaultLimit [] (.addressOf (.array .plainInt 1 4096))
    (.unsupportedConversion (.array .plainInt 1) (.array .plainInt 1)) rfl
  have hcount : 4 = 0 := congrArg inUse hkept
  cases hcount

end CValues.Heap
