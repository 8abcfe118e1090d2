import CValues.Proofs.Conversion.Domain

/-!
# Which conversions succeed

Whether a value converts to a type depends on its own type, on the type that is asked for and on the
kind of the conversion; the value itself matters only where an integer is to become a pointer, which
without a cast zero alone does. `Convertible` says which conversions succeed, one type that is asked
for after the other.

A refusal has one of two causes. `LosesQualifier` is an assignment between pointers in which only
the qualifiers are wrong; whatever else is refused is a conversion that does not exist. A cast is
more generous than an assignment in both respects, and never gives another value.
-/

namespace CValues

/-! ## What is accepted -/

/-- Every `const` and every `volatile` of a pointer is also on the other one. -/
def Qualifiers.StaysOn (source destination : Qualifiers) : Prop :=
  (source.const = true → destination.const = true) ∧
    (source.volatile = true → destination.volatile = true)

/-- The value is a pointer with these qualifiers, or an array and as such the pointer without any to
its first element, and pointers to `pointee` may take its place: they point to the same type, or one
of them to `void`. -/
def Value.PointsAlike (v : Value) (pointee : CType) (q : Qualifiers) : Prop :=
  ∃ source a, v.decay = .pointer source q a ∧ (source = pointee ∨ source = .void ∨ pointee = .void)

/-- The value converts to the type. -/
def Convertible (kind : ConversionKind) (v : Value) : CType → Prop
  | .bool => True
  | .int _ _ => v.type.isArithmetic = true ∨ v.type.isPointer = true ∧ kind = .explicit
  | .float _ => v.type.isArithmetic = true
  | .pointer pointee wanted =>
    (∃ x, v.integer? = some x ∧ (kind = .explicit ∨ x = 0)) ∨
      ∃ q, v.PointsAlike pointee q ∧ (kind = .explicit ∨ q.StaysOn wanted)
  | .void | .array _ _ => False

/-- The value would convert to the type if it were not for its qualifiers. -/
def LosesQualifier (kind : ConversionKind) (v : Value) : CType → Prop
  | .pointer pointee wanted => kind = .implicit ∧ ∃ q, v.PointsAlike pointee q ∧ ¬ q.StaysOn wanted
  | _ => False

variable {target : Target} {kind : ConversionKind} {v u : Value} {t pointee source : CType}
  {q wanted : Qualifiers} {a : BitVec 64} {x : Int}

private theorem Value.decay_ne_pointer_of_integer? (hv : v.integer? = some x) :
    v.decay ≠ .pointer source q a := by
  cases v with
  | bool | int => exact nofun
  | float | pointer | array => cases hv

private theorem LosesQualifier.not_convertible (hloses : LosesQualifier kind v t) :
    ¬ Convertible kind v t := by
  cases t with
  | pointer pointee wanted =>
    obtain ⟨rfl, q, ⟨source, a, hv, -⟩, hlost⟩ := hloses
    rintro (⟨x, hx, -⟩ | ⟨q', ⟨source', a', hv', -⟩, hcast | hkept⟩)
    · exact Value.decay_ne_pointer_of_integer? hx hv
    · cases hcast
    · rw [hv] at hv'
      cases hv'
      exact hlost hkept
  | void | bool | int | float | array => exact hloses.elim

/-! ## Results at a pointer type -/

theorem result_convert_of_integer? (hv : v.integer? = some x) (target : Target)
    (kind : ConversionKind) (pointee : CType) (wanted : Qualifiers) :
    (convert target kind v (.pointer pointee wanted)).result
      = if x ≠ 0 ∧ kind = .implicit then
          .error (.unsupportedConversion v.type (.pointer pointee wanted))
        else .ok (.pointer pointee wanted
          (BitVec.ofNat 64 (target.addressWidth.truncate x).toNat)) := by
  have hrule : (convert target kind v (.pointer pointee wanted)).result
      = (integerToPointer target kind v (.pointer pointee wanted)).result := by
    cases v with
    | bool | int => rfl
    | float | pointer | array => cases hv
  simp only [hrule, integerToPointer, hv]
  split_ifs <;> rfl

/-- An array converts as the pointer to its first element does. -/
theorem result_convert_of_decay (hv : v.decay = .pointer source q a) (target : Target)
    (kind : ConversionKind) (pointee : CType) (wanted : Qualifiers) :
    (convert target kind v (.pointer pointee wanted)).result
      = if source.pointsAlike pointee = false then
          .error (.unsupportedConversion v.decay.type (.pointer pointee wanted))
        else if kind = .implicit ∧ q.keptBy wanted = false then
          .error (.qualifierDiscarded v.decay.type (.pointer pointee wanted))
        else .ok (.pointer pointee wanted a) := by
  have hrule : (convert target kind v (.pointer pointee wanted)).result
      = (pointerToPointer kind v.decay (.pointer pointee wanted)).result := by
    cases v with
    | pointer => rfl
    | array element length address =>
      change (arrayToPointer kind (.array element length address) _).result = _
      rw [arrayToPointer, decayArray_self, pure_bind]
      rfl
    | bool | int | float => cases hv
  rw [hrule, hv, pointerToPointer]
  simp only [Bool.not_eq_true']
  split_ifs <;> rfl

/-! ## Every conversion -/

/-- The type by which a refusal names the value: an array that was to become a pointer has become
one before it is refused. -/
def Value.refusedType (v : Value) : CType → CType
  | .pointer _ _ => v.decay.type
  | _ => v.type

/-- What a conversion can come to. -/
inductive Verdict (kind : ConversionKind) (v : Value) (t : CType) : Except Error Value → Prop
  | accepted {u : Value} (hconvertible : Convertible kind v t) : Verdict kind v t (.ok u)
  | discarded (hloses : LosesQualifier kind v t) :
      Verdict kind v t (.error (.qualifierDiscarded v.decay.type t))
  | unsupported (hconvertible : ¬ Convertible kind v t) (hloses : ¬ LosesQualifier kind v t) :
      Verdict kind v t (.error (.unsupportedConversion (v.refusedType t) t))

private theorem verdict_of_integer? (hv : v.integer? = some x) (target : Target)
    (kind : ConversionKind) (pointee : CType) (wanted : Qualifiers) :
    Verdict kind v (.pointer pointee wanted)
      (convert target kind v (.pointer pointee wanted)).result := by
  have hpointer : ∀ q, ¬ v.PointsAlike pointee q :=
    fun q ⟨_, _, hdecay, _⟩ ↦ Value.decay_ne_pointer_of_integer? hv hdecay
  rw [result_convert_of_integer? hv]
  split_ifs with hrefused
  · obtain ⟨hx, rfl⟩ := hrefused
    have htype : v.type = v.refusedType (.pointer pointee wanted) := by
      cases v with
      | array => cases hv
      | _ => rfl
    rw [htype]
    refine .unsupported ?_ fun ⟨_, q, hq, _⟩ ↦ hpointer q hq
    rintro (⟨y, hy, hcast | rfl⟩ | ⟨q, hq, -⟩)
    · cases hcast
    · exact hx (Option.some.inj (hv.symm.trans hy))
    · exact hpointer q hq
  · refine .accepted (.inl ⟨x, hv, ?_⟩)
    cases kind with
    | explicit => exact .inl rfl
    | implicit => exact .inr (Decidable.of_not_not fun hx ↦ hrefused ⟨hx, rfl⟩)

private theorem verdict_of_decay (hv : v.decay = .pointer source q a) (target : Target)
    (kind : ConversionKind) (pointee : CType) (wanted : Qualifiers) :
    Verdict kind v (.pointer pointee wanted)
      (convert target kind v (.pointer pointee wanted)).result := by
  have hpointer : ∀ q', v.PointsAlike pointee q' ↔ source.pointsAlike pointee = true ∧ q = q' := by
    intro q'
    rw [CType.pointsAlike_iff]
    constructor
    · rintro ⟨source', a', hdecay, halike⟩
      rw [hv] at hdecay
      cases hdecay
      exact ⟨halike, rfl⟩
    · rintro ⟨halike, rfl⟩
      exact ⟨source, a, hv, halike⟩
  have hkeeps : q.keptBy wanted = true ↔ q.StaysOn wanted := Qualifiers.keptBy_iff
  have hinteger : ∀ x, v.integer? ≠ some x :=
    fun x hx ↦ Value.decay_ne_pointer_of_integer? hx hv
  rw [result_convert_of_decay hv]
  split_ifs with halike hkept
  · rw [Bool.eq_false_iff] at halike
    refine .unsupported ?_ fun ⟨_, q', hq', _⟩ ↦ halike ((hpointer q').mp hq').1
    rintro (⟨x, hx, -⟩ | ⟨q', hq', -⟩)
    · exact hinteger x hx
    · exact halike ((hpointer q').mp hq').1
  · obtain ⟨rfl, hlost⟩ := hkept
    rw [Bool.eq_false_iff, ne_eq, hkeeps] at hlost
    rw [Bool.not_eq_false] at halike
    exact .discarded ⟨rfl, q, (hpointer q).mpr ⟨halike, rfl⟩, hlost⟩
  · rw [Bool.not_eq_false] at halike
    refine .accepted (.inr ⟨q, (hpointer q).mpr ⟨halike, rfl⟩, ?_⟩)
    cases kind with
    | explicit => exact .inl rfl
    | implicit =>
      rw [not_and, Bool.not_eq_false, hkeeps] at hkept
      exact .inr (hkept rfl)

namespace Verdict

variable {result : Except Error Value}

theorem exists_ok_iff (hverdict : Verdict kind v t result) :
    (∃ u, result = .ok u) ↔ Convertible kind v t := by
  cases hverdict with
  | accepted hconvertible => exact iff_of_true ⟨_, rfl⟩ hconvertible
  | discarded hloses => exact iff_of_false nofun hloses.not_convertible
  | unsupported hconvertible _ => exact iff_of_false nofun hconvertible

theorem eq_discarded_iff (hverdict : Verdict kind v t result) :
    result = .error (.qualifierDiscarded v.decay.type t) ↔ LosesQualifier kind v t := by
  cases hverdict with
  | accepted hconvertible => exact iff_of_false nofun fun h ↦ h.not_convertible hconvertible
  | discarded hloses => exact iff_of_true rfl hloses
  | unsupported _ hloses => exact iff_of_false nofun hloses

theorem eq_unsupported_iff (hverdict : Verdict kind v t result) :
    result = .error (.unsupportedConversion (v.refusedType t) t) ↔
      ¬ Convertible kind v t ∧ ¬ LosesQualifier kind v t := by
  cases hverdict with
  | accepted hconvertible => exact iff_of_false nofun fun h ↦ h.1 hconvertible
  | discarded hloses => exact iff_of_false nofun fun h ↦ h.2 hloses
  | unsupported hconvertible hloses => exact iff_of_true rfl ⟨hconvertible, hloses⟩

end Verdict

/-- The verdict on every conversion. -/
theorem verdict_convert (target : Target) (kind : ConversionKind) (v : Value) (t : CType) :
    Verdict kind v t (convert target kind v t).result := by
  cases t with
  | void | array => cases v <;> exact .unsupported id id
  | bool => cases v <;> exact .accepted trivial
  | int w s => cases v with
    | bool | int | float => exact .accepted (.inl rfl)
    | pointer => cases kind with
      | explicit => exact .accepted (.inr ⟨rfl, rfl⟩)
      | implicit => exact .unsupported nofun id
    | array => exact .unsupported nofun id
  | float f => cases v with
    | bool | int | float => exact .accepted rfl
    | pointer | array => exact .unsupported nofun id
  | pointer pointee wanted => cases v with
    | bool | int => exact verdict_of_integer? rfl target kind pointee wanted
    | float f p =>
      have hpointer : ∀ q, ¬ (Value.float f p).PointsAlike pointee q :=
        fun q ⟨_, _, hdecay, _⟩ ↦ nomatch hdecay
      refine .unsupported ?_ fun ⟨_, q, hq, _⟩ ↦ hpointer q hq
      rintro (⟨x, hx, -⟩ | ⟨q, hq, -⟩)
      · cases hx
      · exact hpointer q hq
    | pointer | array => exact verdict_of_decay rfl target kind pointee wanted

/-- What an assignment stores, a cast gives too. -/
theorem result_convert_explicit_of_implicit
    (h : (convert target .implicit v t).result = .ok u) :
    (convert target .explicit v t).result = .ok u := by
  cases t with
  | void | array => cases v <;> cases h
  | bool => cases v <;> exact h
  | int | float => cases v with
    | bool | int | float => exact h
    | pointer | array => cases h
  | pointer pointee wanted =>
    have hpointer : ∀ {source q a}, v.decay = .pointer source q a →
        (convert target .explicit v (.pointer pointee wanted)).result = .ok u := by
      intro source q a hv
      rw [result_convert_of_decay hv] at h ⊢
      split_ifs at h with halike hlost
      rwa [if_neg halike, if_neg fun hkind ↦ nomatch hkind.1]
    cases v with
    | bool | int =>
      rw [result_convert_of_integer? rfl] at h ⊢
      split_ifs at h with hrefused
      rwa [if_neg fun hkind ↦ nomatch hkind.2]
    | float => cases h
    | pointer | array => exact hpointer rfl

/-- **The domain of conversion.** A conversion succeeds exactly on the values that are convertible,
and then gives a value of the type that was asked for. It is refused for a lost qualifier exactly if
nothing else stands against it, and as unsupported in all other cases. A cast succeeds wherever an
assignment does, with the same value. -/
theorem convert_accepts_exactly (target : Target) (kind : ConversionKind) (v : Value) (t : CType) :
    ((∃ u, (convert target kind v t).result = .ok u) ↔ Convertible kind v t) ∧
      (∀ u, (convert target kind v t).result = .ok u → u.type = t) ∧
      ((convert target kind v t).result = .error (.qualifierDiscarded v.decay.type t) ↔
        LosesQualifier kind v t) ∧
      ((convert target kind v t).result = .error (.unsupportedConversion (v.refusedType t) t) ↔
        ¬ Convertible kind v t ∧ ¬ LosesQualifier kind v t) ∧
      ∀ u, (convert target .implicit v t).result = .ok u →
        (convert target .explicit v t).result = .ok u := by
  have hverdict := verdict_convert target kind v t
  exact ⟨hverdict.exists_ok_iff, fun u ↦ type_of_convert, hverdict.eq_discarded_iff,
    hverdict.eq_unsupported_iff, fun u ↦ result_convert_explicit_of_implicit⟩

/-- A pointer to `const int` is not assigned to a `volatile void *`, for its qualifier alone, but it
can be cast to one. An array of three `int` is assigned to a `const void *`. It is not even cast to
a `float *`, and the refusal names it as a pointer. -/
theorem convert_accepts_exactly_qualified :
    let p := Value.pointer .plainInt { const := true } 4096
    let a := Value.array .plainInt 3 4096
    let wanted := CType.pointer .void { volatile := true }
    let single := CType.pointerTo (.float .single)
    LosesQualifier .implicit p wanted ∧
      (convert {} .implicit p wanted).result = .error (.qualifierDiscarded p.type wanted) ∧
      Convertible .explicit p wanted ∧ (∃ u, (convert {} .explicit p wanted).result = .ok u) ∧
      (∃ u, (convert {} .implicit a (.pointer .void { const := true })).result = .ok u) ∧
      (convert {} .explicit a single).result
        = .error (.unsupportedConversion (.pointerTo .plainInt) single) ∧
      ¬ Convertible .explicit a single := by
  intro p a wanted single
  have hp : p.PointsAlike .void { const := true } := ⟨.plainInt, 4096, rfl, .inr (.inr rfl)⟩
  have ha : a.PointsAlike .void .none := ⟨.plainInt, 4096, rfl, .inr (.inr rfl)⟩
  have hloses : LosesQualifier .implicit p wanted :=
    ⟨rfl, { const := true }, hp, fun hstays ↦ nomatch hstays.1 rfl⟩
  have hcast : Convertible .explicit p wanted := .inr ⟨{ const := true }, hp, .inl rfl⟩
  have hdecays : Convertible .implicit a (.pointer .void { const := true }) :=
    .inr ⟨.none, ha, .inr ⟨nofun, nofun⟩⟩
  obtain ⟨-, -, hdiscarded, -⟩ := convert_accepts_exactly {} .implicit p wanted
  obtain ⟨hcasts, -⟩ := convert_accepts_exactly {} .explicit p wanted
  obtain ⟨hassigns, -⟩ :=
    convert_accepts_exactly {} .implicit a (.pointer .void { const := true })
  obtain ⟨-, -, -, hunsupported, -⟩ := convert_accepts_exactly {} .explicit a single
  exact ⟨hloses, hdiscarded.mpr hloses, hcast, hcasts.mpr hcast, hassigns.mpr hdecays, rfl,
    (hunsupported.mp rfl).1⟩

end CValues
