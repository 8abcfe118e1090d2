import CValues.Proofs.Conversion.Domain
import CValues.Proofs.Integer.Machine

/-!
# Two ways to convert a number

Numbers are converted in two places. `convert` looks a rule up for the two types and carries it out;
`convertNumber` looks at the type that is asked for alone and takes it from there. Promotion is
there twice as well, on types and on values. The operators use now the one and now the other, so it
has to be the same conversion: for two arithmetic types the rule that is looked up does what
`convertNumber` does, and a promoted value is the value at the promoted type.

A conversion of a value to its own type is where the two could differ most easily, since some rules
compute a pattern anew and others pass it on. It changes nothing, for pointers and for floating
patterns that are no numbers too.
-/

namespace CValues

variable {v : Value} {t : CType}

/-! ## The rules for numbers -/

/-- There is a rule for every two arithmetic types, and it is the conversion between numbers. -/
theorem exists_rule_of_isArithmetic (hv : v.type.isArithmetic = true)
    (ht : t.isArithmetic = true) :
    ∃ rule, Rule.between? v.type t = some rule ∧
      ∀ target kind, rule.apply target kind v t = convertNumber v t := by
  cases v with
  | bool | int | float => cases t with
    | bool | int | float => exact ⟨_, rfl, fun target kind ↦ rfl⟩
    | void | pointer | array => cases ht
  | pointer | array => cases hv

/-- Between numbers both conversions are one. -/
theorem result_convert_eq_convertNumber (hv : v.type.isArithmetic = true)
    (ht : t.isArithmetic = true) (target : Target) (kind : ConversionKind) :
    (convert target kind v t).result = (convertNumber v t).result := by
  obtain ⟨rule, hrule, happly⟩ := exists_rule_of_isArithmetic hv ht
  simp only [convert, hrule, Traced.result_andThen, happly]

private theorem result_convertNumber_of_not_isArithmetic
    (h : ¬ (v.type.isArithmetic = true ∧ t.isArithmetic = true)) :
    (convertNumber v t).result = .error (.unsupportedConversion v.type t) := by
  cases t with
  | void | pointer | array => rfl
  | bool | int | float => cases v with
    | bool | int | float => exact absurd ⟨rfl, rfl⟩ h
    | pointer | array => rfl

theorem exists_convertNumber_iff :
    (∃ u, (convertNumber v t).result = .ok u) ↔
      v.type.isArithmetic = true ∧ t.isArithmetic = true := by
  by_cases hnumbers : v.type.isArithmetic = true ∧ t.isArithmetic = true
  · obtain ⟨hv, ht⟩ := hnumbers
    obtain ⟨u, hu, -⟩ := exists_convert_of_isArithmetic {} .implicit hv ht
    exact iff_of_true ⟨u, result_convert_eq_convertNumber hv ht {} .implicit ▸ hu⟩ ⟨hv, ht⟩
  · rw [result_convertNumber_of_not_isArithmetic hnumbers]
    exact iff_of_false (fun ⟨_, hu⟩ ↦ nomatch hu) hnumbers

/-! ## Promotion -/

private theorem Value.promote_cases (v : Value) :
    v.type.promoted = v.type ∧ v.promote = v ∨
      ∃ x, v.integer? = some x ∧ v.type.promoted = .plainInt ∧ v.promote = .plainInt x := by
  cases v with
  | bool truth => exact .inr ⟨_, rfl, rfl, rfl⟩
  | int w s p => cases w with
    | w8 | w16 => exact .inr ⟨_, rfl, rfl, rfl⟩
    | w32 | w64 => exact .inl ⟨rfl, rfl⟩
  | float | pointer | array => exact .inl ⟨rfl, rfl⟩

/-- A promoted value is the value at the promoted type. -/
theorem result_convert_promoted (hv : v.type.isScalar = true) (target : Target)
    (kind : ConversionKind) :
    (convert target kind v v.type.promoted).result = .ok v.promote := by
  rcases v.promote_cases with ⟨htype, hvalue⟩ | ⟨x, hx, htype, hvalue⟩
  · rw [htype, hvalue]
    exact result_convert_self target kind hv
  · rw [htype, hvalue]
    exact Value.result_convert_int hx target kind IntType.int

private theorem Value.isScalar_of_not_array
    (hv : ∀ element length, v.type ≠ .array element length) : v.type.isScalar = true := by
  cases v with
  | array element length a => exact absurd rfl (hv element length)
  | _ => rfl

/-- **Conversions of numbers agree.** The conversion between numbers succeeds exactly on numbers at
arithmetic types, and then gives what every conversion gives, with or without a cast and on every
target. A value other than an array converts to its own type without a change of any bit. A promoted
value is the value at the promoted type, and stands for the same integer. -/
theorem numeric_conversions_agree (target : Target) (kind : ConversionKind) (v : Value) :
    (∀ t, ((∃ u, (convertNumber v t).result = .ok u) ↔
          v.type.isArithmetic = true ∧ t.isArithmetic = true) ∧
        ∀ u, (convertNumber v t).result = .ok u → (convert target kind v t).result = .ok u) ∧
      ((∀ element length, v.type ≠ .array element length) →
        (convert target kind v v.type).result = .ok v ∧
          (convert target kind v v.type.promoted).result = .ok v.promote ∧
          v.promote.integer? = v.integer?) := by
  refine ⟨fun t ↦ ⟨exists_convertNumber_iff, fun u hu ↦ ?_⟩, fun hv ↦ ?_⟩
  · obtain ⟨hv, ht⟩ := exists_convertNumber_iff.mp ⟨u, hu⟩
    rw [result_convert_eq_convertNumber hv ht, hu]
  · have hscalar := Value.isScalar_of_not_array hv
    exact ⟨result_convert_self target kind hscalar, result_convert_promoted hscalar target kind,
      v.integer?_promote⟩

/-- A pattern that is no number keeps its payload at its own type, and is not quiet afterwards if it
was not before. A signed byte is promoted to the `int` that is congruent to it. A pointer is not a
number, though a cast makes one of it. -/
theorem numeric_conversions_agree_payload :
    let payload := Value.float .single 0xFFA00001
    let byte := Value.int .w8 .signed 0x80
    let null := Value.null .void
    (∀ element length, payload.type ≠ .array element length) ∧
      (convert {} .implicit payload payload.type).result = .ok payload ∧
      (∀ element length, byte.type ≠ .array element length) ∧
      (convert {} .implicit byte .plainInt).result = .ok (.plainInt (-128)) ∧
      (Value.plainInt (-128)).integer? = some (-128) ∧
      (convertNumber byte (.int .w64 .unsigned)).result
        = .ok (.int .w64 .unsigned 0xFFFFFFFFFFFFFF80) ∧
      (convert {} .explicit byte (.int .w64 .unsigned)).result
        = .ok (.int .w64 .unsigned 0xFFFFFFFFFFFFFF80) ∧
      (¬ ∃ u, (convertNumber null .plainInt).result = .ok u) ∧
      (convert {} .explicit null .plainInt).result = .ok (.plainInt 0) := by
  intro payload byte null
  obtain ⟨-, hpayload⟩ := numeric_conversions_agree {} .implicit payload
  obtain ⟨hnumber, -⟩ := numeric_conversions_agree {} .explicit byte
  obtain ⟨-, hbyte⟩ := numeric_conversions_agree {} .implicit byte
  obtain ⟨hnull, -⟩ := numeric_conversions_agree {} .explicit null
  obtain ⟨-, hpromoted, hinteger⟩ := hbyte nofun
  have hwide : (convertNumber byte (.int .w64 .unsigned)).result
      = .ok (.int .w64 .unsigned 0xFFFFFFFFFFFFFF80) := congrArg Except.ok (by decide)
  have hrefused : ¬ ∃ u, (convertNumber null .plainInt).result = .ok u :=
    fun hu ↦ nomatch ((hnull .plainInt).1.mp hu).1
  exact ⟨nofun, (hpayload nofun).1, nofun, hpromoted, hinteger, hwide,
    (hnumber (.int .w64 .unsigned)).2 _ hwide, hrefused, rfl⟩

end CValues
