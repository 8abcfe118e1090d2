import CValues.Heap.Object
import CValues.Proofs.Conversion.Acceptance
import CValues.Proofs.Logic.Derived

/-!
# Ways to retype pointers and arrays

A pointer comes to another pointee by a cast or by being read as a pointer to it. An array becomes
the pointer to its first element in three places: when that pointer is asked for, on the way to a
pointer type, and as the operand of an operator. These ways are written apart from each other, and
the statements here say that it does not matter which one is taken, for the values as little as for
the errors.

What an array and its first element's address have in common is `Value.decay`: the values with one
operand form are `Value.Interchangeable`, since nothing but the conversions to numbers looks at an
array itself.
-/

namespace CValues

variable {target : Target} {v w : Value}

/-! ## Pointers -/

/-- To read a pointer as a pointer to another type is to cast it. -/
theorem result_reinterpret (target : Target) (source : CType) (q : Qualifiers) (a : BitVec 64)
    (pointee : CType) :
    (reinterpret (.pointer source q a) pointee).result
      = (convert target .explicit (.pointer source q a) (.pointerTo pointee)).result := by
  have hcast : ¬ (ConversionKind.explicit = .implicit ∧ q.keptBy .none = false) :=
    fun hlost ↦ nomatch hlost.1
  rw [CType.pointerTo, result_convert_of_decay rfl, if_neg hcast, reinterpret]
  by_cases halike : source.pointsAlike pointee = true
  · rw [if_pos halike, if_neg (Bool.not_eq_false _ ▸ halike)]
    rfl
  · rw [if_neg halike, if_pos (Bool.eq_false_iff.mpr halike)]
    rfl

/-- A conversion to a pointer type changes no address, neither that of a pointer nor that of an
array. -/
theorem address?_of_convert {source pointee : CType} {q wanted : Qualifiers} {a : BitVec 64}
    {kind : ConversionKind} {u : Value} (hv : v.decay = .pointer source q a)
    (hu : (convert target kind v (.pointer pointee wanted)).result = .ok u) :
    u.address? = some a.toNat := by
  rw [result_convert_of_decay hv] at hu
  split_ifs at hu
  obtain rfl := Except.ok.inj hu
  rfl

/-! ## Arrays -/

namespace Value

@[simp] theorem address?_decay (v : Value) : v.decay.address? = v.address? := by cases v <;> rfl

private theorem decay_eq_self_or_pointer (v : Value) :
    v.decay = v ∨ ∃ t q a, v.decay = .pointer t q a := by
  cases v with
  | array t n a => exact .inr ⟨t, .none, a, rfl⟩
  | _ => exact .inl rfl

/-- No operator, no index and no conversion to a pointer type or to `_Bool` tells the two values
apart. All of them end in the same way for both, with one value or with one error. -/
structure Interchangeable (target : Target) (v w : Value) : Prop where
  /-- The values have one address, or none. -/
  address?_eq : v.address? = w.address?
  /-- Both convert to a pointer type or to `_Bool` in the same way. -/
  result_convert : ∀ kind t, t.isPointer = true ∨ t = .bool →
    (convert target kind v t).result = (convert target kind w t).result
  /-- Both are left operands alike. -/
  binary_left : ∀ op u, binary target op v u = binary target op w u
  /-- Both are right operands alike. -/
  binary_right : ∀ op u, binary target op u v = binary target op u w
  /-- Both are compared with another value alike. -/
  compare_left : ∀ op u, compareValues target op v u = compareValues target op w u
  /-- Another value is compared with both alike. -/
  compare_right : ∀ op u, compareValues target op u v = compareValues target op u w
  /-- Both are single operands alike. -/
  unary_eq : ∀ op, unary op v = unary op w
  /-- Both are left operands of a logical operator alike. -/
  logical_left : ∀ op u, logical op v u = logical op w u
  /-- Both are right operands of a logical operator alike. -/
  logical_right : ∀ op u, logical op u v = logical op u w
  /-- Both lead to the same elements. -/
  elementPointer_eq : ∀ (h : Heap) index, h.elementPointer v index = h.elementPointer w index
  /-- The same is loaded from these elements. -/
  loadElement_eq : ∀ (h : Heap) index, h.loadElement v index = h.loadElement w index

end Value

/-- Values that are the same pointer as operands convert in the same way. -/
theorem result_convert_congr (hdecay : v.decay = w.decay) (target : Target)
    (kind : ConversionKind) {t : CType} (ht : t.isPointer = true ∨ t = .bool) :
    (convert target kind v t).result = (convert target kind w t).result := by
  rcases ht with hpointer | rfl
  · obtain ⟨pointee, wanted, rfl⟩ : ∃ pointee wanted, t = .pointer pointee wanted := by
      cases t with
      | pointer pointee wanted => exact ⟨pointee, wanted, rfl⟩
      | _ => cases hpointer
    rcases v.decay_eq_self_or_pointer with hv | ⟨source, q, a, hv⟩
    · rcases w.decay_eq_self_or_pointer with hw | ⟨source, q, a, hw⟩
      · rw [← hv, hdecay, hw]
      · rw [result_convert_of_decay hw, result_convert_of_decay (hdecay.trans hw), hdecay]
    · rw [result_convert_of_decay hv, result_convert_of_decay (hdecay.symm.trans hv), hdecay]
  · rw [result_convert_bool, result_convert_bool, ← v.isZero_decay, hdecay, w.isZero_decay]

theorem Value.interchangeable_of_decay_eq (hdecay : v.decay = w.decay) (target : Target) :
    v.Interchangeable target w where
  address?_eq := by rw [← v.address?_decay, hdecay, w.address?_decay]
  result_convert kind t ht := result_convert_congr hdecay target kind ht
  -- an operator takes its operands as pointers before it looks at them
  binary_left op u := by simp only [binary, hdecay]
  binary_right op u := by simp only [binary, hdecay]
  compare_left op u := by simp only [compareValues, hdecay]
  compare_right op u := by simp only [compareValues, hdecay]
  unary_eq op := by simp only [unary, hdecay]
  logical_left op u := by simp only [logical, hdecay]
  logical_right op u := by simp only [logical, hdecay]
  elementPointer_eq h index := by simp only [Heap.elementPointer, binary, hdecay]
  loadElement_eq h index := by simp only [Heap.loadElement, Heap.elementPointer, binary, hdecay]

private theorem result_convert_array_self (target : Target) (kind : ConversionKind)
    (element : CType) (length : Nat) (a : BitVec 64) :
    (convert target kind (.array element length a) (.pointerTo element)).result
      = .ok (.pointer element .none a) := by
  have hkept : ¬ (kind = .implicit ∧ Qualifiers.none.keptBy .none = false) :=
    fun hlost ↦ nomatch hlost.2
  have halike : element.pointsAlike element = true := CType.pointsAlike_iff.mpr (.inl rfl)
  rw [CType.pointerTo, result_convert_of_decay rfl, if_neg hkept,
    if_neg (Bool.not_eq_false _ ▸ halike)]

/-- **The ways to retype a pointer agree.** To read a pointer as a pointer to another type comes to
the same as to cast it, the error included, and never changes its address. The pointer to the first
element of an array exists, an assignment and a cast to its type give it too, and from there on it
is interchangeable with the array. -/
theorem retyping_paths_agree (target : Target) :
    (∀ source q a pointee,
      (reinterpret (.pointer source q a) pointee).result
          = (convert target .explicit (.pointer source q a) (.pointerTo pointee)).result ∧
        ∀ r, (reinterpret (.pointer source q a) pointee).result = .ok r →
          r.address? = (Value.pointer source q a).address?) ∧
      ∀ element length a, ∃ d,
        (decayArray (.array element length a) element).result = .ok d ∧
          (∀ kind, (convert target kind (.array element length a) (.pointerTo element)).result
            = .ok d) ∧
          (Value.array element length a).Interchangeable target d := by
  refine ⟨fun source q a pointee ↦ ?_, fun element length a ↦ ?_⟩
  · have hcast := result_reinterpret target source q a pointee
    exact ⟨hcast, fun r hr ↦ address?_of_convert rfl (hcast ▸ hr)⟩
  · have hdecay : (Value.array element length a).decay
        = (Value.pointer element .none a).decay := rfl
    exact ⟨_, congrArg Traced.result (decayArray_self element length a),
      fun kind ↦ result_convert_array_self target kind element length a,
      Value.interchangeable_of_decay_eq hdecay target⟩

/-- A pointer to `const void` is read as the pointer to a row of three `int`, and then no longer as
one to `int`. An array of two such rows is assigned to a `const void *`, moved by a row and compared
with a pointer, each time as the pointer to its first row. -/
theorem retyping_paths_agree_rows :
    let row := CType.array .plainInt 3
    let handle := Value.pointer .void { const := true } 4096
    let typed := Value.pointer row .none 4096
    let rows := Value.array row 2 4096
    (reinterpret handle row).result = .ok typed ∧ typed.address? = handle.address? ∧
      (convert {} .explicit typed (.pointerTo .plainInt)).result
        = .error (.unsupportedConversion (.pointerTo row) (.pointerTo .plainInt)) ∧
      (reinterpret typed .plainInt).result
        = .error (.unsupportedConversion (.pointerTo row) (.pointerTo .plainInt)) ∧
      (decayArray rows row).result = .ok typed ∧
      (convert {} .implicit typed (.pointer .void { const := true })).result = .ok handle ∧
      (convert {} .implicit rows (.pointer .void { const := true })).result = .ok handle ∧
      (binary {} .add rows (.plainInt 1)).result = .ok (.pointer row .none 4108) ∧
      compareValues {} .eq handle rows = compareValues {} .eq handle typed := by
  intro row handle typed rows
  obtain ⟨hpointers, harrays⟩ := retyping_paths_agree {}
  have hreads : (reinterpret handle row).result = .ok typed := rfl
  have hrefused : (reinterpret typed .plainInt).result
      = .error (.unsupportedConversion (.pointerTo row) (.pointerTo .plainInt)) := rfl
  have hassigned : (convert {} .implicit typed (.pointer .void { const := true })).result
      = .ok handle := rfl
  have hmoved : (binary {} .add typed (.plainInt 1)).result = .ok (.pointer row .none 4108) :=
    congrArg Except.ok (by decide)
  obtain ⟨d, hd, -, hsame⟩ := harrays row 2 4096
  obtain rfl : typed = d := Except.ok.inj hd
  exact ⟨hreads, (hpointers .void { const := true } 4096 row).2 typed hreads,
    (hpointers row .none 4096 .plainInt).1.symm.trans hrefused, hrefused, hd, hassigned,
    (hsame.result_convert .implicit _ (.inl rfl)).trans hassigned,
    (congrArg Traced.result (hsame.binary_left .add (.plainInt 1))).trans hmoved,
    hsame.compare_right .eq handle⟩

end CValues
