import CValues.Proofs.Conversion.Acceptance
import CValues.Proofs.Text.Messages

/-!
# What a conversion leaves in the log

The log tells how a conversion ended without a look at its result. A conversion that was carried out
leaves its trace and nothing else. One that was refused leaves a record of the refusal, and behind
it the trace of the rule that refused; if there is no rule for the two types, the record stands
alone.

The rules write the records of their refusals themselves, and one of them calls another. That no
record is missing or written twice is a property of a computation that sequences keep,
`Traced.Candid`. It is shown of each rule by itself, for every value and type, and not only for
those that the rule is looked up for.
-/

namespace CValues

/-! ## Types without a rule -/

/-- No rule joins the two types. -/
inductive Unruled : CType → CType → Prop
  | fromVoid (t : CType) : Unruled .void t
  | toVoid (source : CType) : Unruled source .void
  | toArray (source element : CType) (length : Nat) : Unruled source (.array element length)
  | floatingToPointer (f : FloatFormat) (pointee : CType) (q : Qualifiers) :
      Unruled (.float f) (.pointer pointee q)
  | pointerToFloating (pointee : CType) (q : Qualifiers) (f : FloatFormat) :
      Unruled (.pointer pointee q) (.float f)
  | arrayToInteger (element : CType) (length : Nat) (w : Width) (s : Signedness) :
      Unruled (.array element length) (.int w s)
  | arrayToFloating (element : CType) (length : Nat) (f : FloatFormat) :
      Unruled (.array element length) (.float f)

theorem Rule.between?_eq_none_iff {source t : CType} :
    between? source t = none ↔ Unruled source t := by
  constructor
  · intro hnone
    unfold between? at hnone
    split at hnone <;> first | constructor | cases hnone
  · intro hunruled
    cases hunruled with
    -- the lookup is stuck on the source, although its answer is the same for all of them
    | toVoid source | toArray source => cases source <;> rfl
    | _ => rfl

/-! ## Refusals and their records -/

/-- The record that belongs to the refusal of a conversion. -/
def Error.refusal? : Error → Option Event
  | unsupportedConversion source t => some (.rejected source t)
  | qualifierDiscarded source t => some (.discardsQualifiers source t)
  | _ => none

private theorem Error.level_of_refusal? {e : Error} {record : Event}
    (h : e.refusal? = some record) : record.level = .debug := by
  cases e with
  | unsupportedConversion | qualifierDiscarded =>
    obtain rfl := Option.some.inj h
    rfl
  | _ => cases h

private theorem Error.details_of_refusal? {e : Error} {record : Event}
    (h : e.refusal? = some record) : e.details = record.details := by
  cases e with
  | unsupportedConversion | qualifierDiscarded =>
    obtain rfl := Option.some.inj h
    rfl
  | _ => cases h

/-- The computation leaves no record if it succeeds, and that of the refusal if it is refused. It
fails in no other way. -/
inductive Traced.Candid {α : Type} : Traced α → Prop
  | done (a : α) : Candid ⟨[], .ok a⟩
  | refused {e : Error} {record : Event} (h : e.refusal? = some record) :
      Candid ⟨[record], .error e⟩

namespace Traced.Candid

variable {α β : Type}

theorem pure (a : α) : Candid (Pure.pure a : Traced α) := .done a

theorem reject (source t : CType) : Candid (.reject source t : Traced α) := .refused rfl

theorem bind {x : Traced α} {f : α → Traced β} (hx : x.Candid) (hf : ∀ a, (f a).Candid) :
    (x >>= f).Candid := by
  cases hx with
  | done a => exact hf a
  | refused hrecord => exact .refused hrecord

theorem log_of_ok {x : Traced α} {a : α} (hx : x.Candid) (h : x.result = .ok a) : x.log = [] := by
  cases hx with
  | done => rfl
  | refused => cases h

theorem log_of_error {x : Traced α} {e : Error} (hx : x.Candid) (h : x.result = .error e) :
    ∃ record, e.refusal? = some record ∧ x.log = [record] := by
  cases hx with
  | done => cases h
  | refused hrecord =>
    obtain rfl := Except.error.inj h
    exact ⟨_, hrecord, rfl⟩

end Traced.Candid

/-! ## The rules -/

section Rules

variable (target : Target) (kind : ConversionKind) (v : Value) (t : CType) (w : Width)
  (s : Signedness) (f : FloatFormat)

private theorem candid_integerToInteger : (integerToInteger w s v).Candid := by
  unfold integerToInteger
  split
  · exact .pure _
  · exact .reject _ _

private theorem candid_integerToFloating : (integerToFloating f v).Candid := by
  unfold integerToFloating
  split
  · exact .pure _
  · exact .reject _ _

private theorem candid_floatingToInteger : (floatingToInteger w s v).Candid := by
  unfold floatingToInteger
  split
  · exact .pure _
  · exact .reject _ _

private theorem candid_floatingToFloating : (floatingToFloating f v).Candid := by
  unfold floatingToFloating
  split
  · exact .pure _
  · exact .reject _ _

private theorem candid_integerToPointer : (integerToPointer target kind v t).Candid := by
  unfold integerToPointer
  split
  · split_ifs
    · exact .reject _ _
    · exact .pure _
  · exact .reject _ _

private theorem candid_pointerToInteger : (pointerToInteger target kind w s v).Candid := by
  unfold pointerToInteger
  split
  · exact .pure _
  · exact .reject _ _

private theorem candid_pointerToPointer : (pointerToPointer kind v t).Candid := by
  unfold pointerToPointer
  split
  · split_ifs
    · exact .reject _ _
    · exact .refused rfl
    · exact .pure _
  · exact .reject _ _

private theorem candid_decayArray (element : CType) : (decayArray v element).Candid := by
  unfold decayArray
  split
  · split_ifs
    · exact .pure _
    · exact .reject _ _
  · exact .reject _ _

/-- Only one of the two steps is ever refused, so there is one record here too. -/
theorem candid_arrayToPointer : (arrayToPointer kind v t).Candid := by
  unfold arrayToPointer
  split
  · exact .bind (candid_decayArray _ _) fun first ↦ candid_pointerToPointer kind first t
  · exact .reject _ _

theorem Rule.candid_apply (rule : Rule) : (rule.apply target kind v t).Candid := by
  unfold apply
  split
  · exact .pure _
  · exact candid_integerToInteger v _ _
  · exact candid_integerToFloating v _
  · exact candid_integerToPointer target kind v _
  · exact candid_floatingToInteger v _ _
  · exact candid_floatingToFloating v _
  · exact candid_pointerToInteger target kind v _ _
  · exact candid_pointerToPointer kind v _
  · exact candid_arrayToPointer kind v _
  · exact .reject _ _

end Rules

/-! ## Conversions -/

variable {target : Target} {kind : ConversionKind} {v u : Value} {t : CType} {rule : Rule}
  {e : Error}

private theorem convert_of_rule (hrule : Rule.between? v.type t = some rule) :
    convert target kind v t
      = (rule.apply target kind v t).andThen (.converted kind v.type t rule) := by
  rw [convert, hrule]

private theorem convert_of_none (hrule : Rule.between? v.type t = none) :
    convert target kind v t = .reject v.type t := by
  rw [convert, hrule]

/-- What is carried out was carried out by a rule, whose trace is all that is left. -/
theorem log_convert_of_ok (h : (convert target kind v t).result = .ok u) :
    ∃ rule, Rule.between? v.type t = some rule ∧
      (convert target kind v t).log = [.converted kind v.type t rule] := by
  cases hrule : Rule.between? v.type t with
  | none =>
    rw [convert_of_none hrule] at h
    cases h
  | some rule =>
    rw [convert_of_rule hrule] at h ⊢
    have hlog := (rule.candid_apply target kind v t).log_of_ok h
    exact ⟨rule, rfl, congrArg (· ++ _) hlog⟩

/-- A refusal is recorded first, whoever refused, and the trace follows where there is a rule. -/
theorem log_convert_of_error (h : (convert target kind v t).result = .error e) :
    ∃ record, e.refusal? = some record ∧ (convert target kind v t).log
      = record :: ((Rule.between? v.type t).map (.converted kind v.type t)).toList := by
  cases hrule : Rule.between? v.type t with
  | none =>
    rw [convert_of_none hrule] at h ⊢
    obtain rfl := Except.error.inj h
    exact ⟨_, rfl, rfl⟩
  | some rule =>
    rw [convert_of_rule hrule] at h ⊢
    obtain ⟨record, hrecord, hlog⟩ := (rule.candid_apply target kind v t).log_of_error h
    exact ⟨record, hrecord, congrArg (· ++ _) hlog⟩

/-- A refusal names the type that was asked for and the type of the value, which for an array that
was to become a pointer is the pointer to its first element. -/
theorem refusal_of_convert {record : Event} (h : (convert target kind v t).result = .error e)
    (hrecord : e.refusal? = some record) :
    record = .rejected (v.refusedType t) t ∨ record = .discardsQualifiers (v.refusedType t) t := by
  have hverdict := verdict_convert target kind v t
  rw [h] at hverdict
  cases hverdict with
  | unsupported => exact .inl (Option.some.inj hrecord).symm
  | discarded hloses => cases t with
    | pointer => exact .inr (Option.some.inj hrecord).symm
    | _ => exact hloses.elim

/-- The texts of both types stand in the line of the record and in the message of the failure. -/
theorem mentions_of_convert {record : Event} (h : (convert target kind v t).result = .error e)
    (hrecord : e.refusal? = some record) :
    Mentions [(v.refusedType t).text, t.text] record.line ∧
      Mentions [(v.refusedType t).text, t.text] e.message := by
  have hdetails : record.details = [(v.refusedType t).text, t.text] := by
    rcases refusal_of_convert h hrecord with rfl | rfl <;> rfl
  constructor
  · rw [← hdetails]
    exact record.mentions_details
  · rw [← hdetails, ← Error.details_of_refusal? hrecord]
    exact e.mentions_details

private theorem exists_debug_iff_refused :
    (∃ record ∈ (convert target kind v t).log, record.level = .debug) ↔
      ∃ e, (convert target kind v t).result = .error e := by
  constructor
  · rintro ⟨record, hmem, hlevel⟩
    cases hresult : (convert target kind v t).result with
    | error e => exact ⟨e, rfl⟩
    | ok u =>
      obtain ⟨rule, -, hlog⟩ := log_convert_of_ok hresult
      rw [hlog, List.mem_singleton] at hmem
      rw [hmem] at hlevel
      cases hlevel
  · rintro ⟨e, he⟩
    obtain ⟨record, hrecord, hlog⟩ := log_convert_of_error he
    exact ⟨record, hlog ▸ List.mem_cons_self, Error.level_of_refusal? hrecord⟩

/-- **Conversions are logged faithfully.** A conversion that is carried out leaves one record, the
trace of its rule. One that is refused leaves the record of the refusal, whose line holds the texts
of the two types just as the message of the failure does; behind it the trace of the rule if there
is one for the two types, and otherwise nothing. So there is a record for debugging exactly if the
conversion was refused. -/
theorem conversion_logged_faithfully (target : Target) (kind : ConversionKind) (v : Value)
    (t : CType) :
    (∀ u, (convert target kind v t).result = .ok u →
      ∃ rule, Rule.between? v.type t = some rule ∧
        (convert target kind v t).log = [.converted kind v.type t rule] ∧
        (convert target kind v t).log.map Event.level = [.trace]) ∧
    (∀ e, (convert target kind v t).result = .error e →
      ∃ record, e.refusal? = some record ∧ record.level = .debug ∧
        (record = .rejected (v.refusedType t) t ∨
          record = .discardsQualifiers (v.refusedType t) t) ∧
        Mentions [(v.refusedType t).text, t.text] record.line ∧
        Mentions [(v.refusedType t).text, t.text] e.message ∧
        (∀ rule, Rule.between? v.type t = some rule →
          (convert target kind v t).log = [record, .converted kind v.type t rule] ∧
          (convert target kind v t).log.map Event.level = [.debug, .trace]) ∧
        (Rule.between? v.type t = none → (convert target kind v t).log = [record])) ∧
    (Rule.between? v.type t = none ↔ Unruled v.type t) ∧
    ((∃ record ∈ (convert target kind v t).log, record.level = .debug) ↔
      ∃ e, (convert target kind v t).result = .error e) := by
  refine ⟨fun u hu ↦ ?_, fun e he ↦ ?_, Rule.between?_eq_none_iff, exists_debug_iff_refused⟩
  · obtain ⟨rule, hrule, hlog⟩ := log_convert_of_ok hu
    exact ⟨rule, hrule, hlog, hlog ▸ rfl⟩
  · obtain ⟨record, hrecord, hlog⟩ := log_convert_of_error he
    have hlevel := Error.level_of_refusal? hrecord
    obtain ⟨hline, hmessage⟩ := mentions_of_convert he hrecord
    refine ⟨record, hrecord, hlevel, refusal_of_convert he hrecord, hline, hmessage,
      fun rule hrule ↦ ?_, fun hunruled ↦ ?_⟩
    · rw [hrule] at hlog
      refine ⟨hlog, ?_⟩
      rw [hlog, ← hlevel]
      rfl
    · rw [hlog, hunruled]
      rfl

/-- An array of two `int` is not assigned to a `double *`: the refusal names the pointer that the
array has become, and the trace the array. A `double` meets no pointer, so no rule is traced. One
that is assigned to an `int` leaves a trace alone. -/
theorem conversion_logged_faithfully_array :
    let a := Value.array .plainInt 2 4096
    let d := Value.float .double 0
    let wanted := CType.pointerTo (.float .double)
    (convert {} .implicit a wanted).result
        = .error (.unsupportedConversion (.pointerTo .plainInt) wanted) ∧
      (convert {} .implicit a wanted).log
        = [.rejected (.pointerTo .plainInt) wanted,
          .converted .implicit (.array .plainInt 2) wanted .arrayDecay] ∧
      (convert {} .explicit d wanted).log = [.rejected (.float .double) wanted] ∧
      (convert {} .implicit d .plainInt).log
        = [.converted .implicit (.float .double) .plainInt .floatingToInteger] := by
  intro a d wanted
  have ha : (convert {} .implicit a wanted).result
      = .error (.unsupportedConversion (.pointerTo .plainInt) wanted) := rfl
  obtain ⟨-, hrefused, -⟩ := conversion_logged_faithfully {} .implicit a wanted
  obtain ⟨record, hrecord, -, -, -, -, hruled, -⟩ := hrefused _ ha
  obtain rfl : .rejected (.pointerTo .plainInt) wanted = record := Option.some.inj hrecord
  obtain ⟨hlog, -⟩ := hruled .arrayDecay rfl
  obtain ⟨-, hrefused, -⟩ := conversion_logged_faithfully {} .explicit d wanted
  obtain ⟨record, hrecord, -, -, -, -, -, hunruled⟩ := hrefused (.unsupportedConversion _ _) rfl
  obtain rfl : .rejected (.float .double) wanted = record := Option.some.inj hrecord
  obtain ⟨hdone, -⟩ := conversion_logged_faithfully {} .implicit d .plainInt
  obtain ⟨rule, hrule, htrace, -⟩ := hdone _ rfl
  obtain rfl : .floatingToInteger = rule := Option.some.inj hrule
  exact ⟨ha, hlog, hunruled rfl, htrace⟩

end CValues
