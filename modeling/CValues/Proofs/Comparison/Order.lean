import CValues.Comparison
import CValues.Proofs.Integer.Machine
import Mathlib.Logic.ExistsUnique
import Mathlib.Tactic.SplitIfs

/-!
# What a comparison means

Two operands are compared in one of three ways: numbers at their common type, pointers by their
addresses, and a pointer with an integer zero for equality only. `Ordered` has one rule for each of
them. It says how the operands lie to each other under an operator, and is what `orderOf` computes.

All laws of comparison are read off the rules. No rule depends on the operator, except that the last
one asks whether it is `==` or `!=`; so an order that one operator finds all others find too, which
ties the outcomes of the six together. Each rule can be turned around, which ties an operator to the
flipped one on exchanged operands, floating patterns that are no numbers included.
-/

namespace CValues

namespace CompareOp

/-! ## Operators -/

/-- The operator that asks the same of exchanged operands. -/
def flipped : CompareOp → CompareOp
  | eq => eq
  | ne => ne
  | lt => gt
  | le => ge
  | gt => lt
  | ge => le

/-- What the operator asks of two numbers. -/
def Relates {α : Type} [LE α] [LT α] (x y : α) : CompareOp → Prop
  | eq => x = y
  | ne => x ≠ y
  | lt => x < y
  | le => x ≤ y
  | gt => y < x
  | ge => y ≤ x

@[simp] theorem flipped_flipped (op : CompareOp) : op.flipped.flipped = op := by cases op <;> rfl

@[simp] theorem isEquality_flipped (op : CompareOp) : op.flipped.isEquality = op.isEquality := by
  cases op <;> rfl

private theorem holds_flipped (op : CompareOp) (o : Option Ordering) :
    op.flipped.holds (o.map Ordering.swap) = op.holds o := by
  cases o with
  | none => cases op <;> rfl
  | some order => cases op <;> cases order <;> rfl

private theorem holds_le (o : Option Ordering) : le.holds o = (lt.holds o || eq.holds o) := rfl

private theorem holds_ge (o : Option Ordering) : ge.holds o = (gt.holds o || eq.holds o) := rfl

theorem holds_ne (o : Option Ordering) : ne.holds o = !eq.holds o := rfl

theorem existsUnique_holds (order : Ordering) :
    ∃! op : CompareOp, op ∈ [lt, eq, gt] ∧ op.holds (some order) = true := by
  cases order with
  | lt => exact ⟨lt, by decide, fun op ↦ by cases op <;> decide⟩
  | eq => exact ⟨eq, by decide, fun op ↦ by cases op <;> decide⟩
  | gt => exact ⟨gt, by decide, fun op ↦ by cases op <;> decide⟩

section Relates

variable {α : Type} [Ord α] [LE α] [LT α] [Std.LawfulOrderOrd α] [Std.LawfulOrderLT α]
  [Std.LawfulEqOrd α]

/-- An operator holds of the order of two numbers if it relates them. -/
theorem holds_compare_iff (op : CompareOp) (x y : α) :
    op.holds (some (compare x y)) = true ↔ op.Relates x y := by
  have hle : le.holds (some (compare x y)) = (compare x y).isLE := by cases compare x y <;> rfl
  have hge : ge.holds (some (compare x y)) = (compare x y).isGE := by cases compare x y <;> rfl
  cases op with
  | eq => rw [holds, beq_iff_eq, Option.some_inj, Std.compare_eq_eq_iff_eq, Relates]
  | ne => rw [holds, bne_iff_ne, ne_eq, Option.some_inj, Std.compare_eq_eq_iff_eq, Relates]
  | lt => rw [holds, beq_iff_eq, Option.some_inj, Std.compare_eq_lt, Relates]
  | gt => rw [holds, beq_iff_eq, Option.some_inj, Std.compare_eq_gt, Relates]
  | le => rw [hle, Std.LawfulOrderOrd.isLE_compare, Relates]
  | ge => rw [hge, Std.LawfulOrderOrd.isGE_compare, Relates]

end Relates

end CompareOp

/-! ## Exchanged operands -/

theorem FloatFormat.order_swap (f : FloatFormat) (p q : f.Pattern) :
    f.order q p = (f.order p q).map Ordering.swap := by
  rw [order, order, Bool.or_comm]
  split
  · rfl
  · exact congrArg some Std.OrientedOrd.eq_swap

private theorem compareNumbers_swap (v w : Value) :
    compareNumbers w v = (compareNumbers v w).map Ordering.swap := by
  cases v with
  | bool | int => cases w with
    | bool | int => exact congrArg some Std.OrientedOrd.eq_swap
    | float f p => cases f <;> rfl
    | pointer | array => rfl
  | float f p => cases w with
    | float g q => cases f with
      | single => cases g with
        | single => exact FloatFormat.order_swap .single p q
        | double => rfl
      | double => cases g with
        | single => rfl
        | double => exact FloatFormat.order_swap .double p q
    | bool | int | pointer | array => cases f <;> rfl
  | pointer | array => cases w with
    | float f p => cases f <;> rfl
    | bool | int | pointer | array => rfl

theorem CommonType.join_comm (c d : CommonType) : c.join d = d.join c := by
  cases c with
  | float f => cases d with
    | float g => cases f <;> cases g <;> rfl
    | int => cases f <;> rfl
  | int v s => cases d with
    | float g => cases g <;> rfl
    | int w t => cases v <;> cases s <;> cases w <;> cases t <;> rfl

theorem usualType_comm {t u : CType} {c : CommonType} (h : usualType t u = .ok c) :
    usualType u t = .ok c := by
  unfold usualType at h ⊢
  split at h
  · next a b ha hb =>
    obtain rfl := Except.ok.inj h
    rw [ha, hb, CommonType.join_comm a b]
  · cases h

/-! ## How operands lie to each other -/

/-- How two operands lie to each other under an operator, if it applies to them. -/
inductive Ordered (target : Target) (op : CompareOp) : Value → Value → Option Ordering → Prop
  /-- Pointers to one type, or one of them to `void`, lie as their addresses do. -/
  | addresses {t u : CType} {q r : Qualifiers} {a b : BitVec 64}
      (halike : t = u ∨ t = .void ∨ u = .void) :
      Ordered target op (.pointer t q a) (.pointer u r b) (some (compare a.toNat b.toNat))
  /-- A pointer lies to an integer zero as its address does, if only equality is asked for. -/
  | zeroRight {t : CType} {q : Qualifiers} {a : BitVec 64} {w : Value}
      (hop : op.isEquality = true) (hw : w.integer? = some 0) :
      Ordered target op (.pointer t q a) w (some (compare a.toNat 0))
  /-- The same with the pointer on the right. -/
  | zeroLeft {v : Value} {u : CType} {r : Qualifiers} {b : BitVec 64}
      (hop : op.isEquality = true) (hv : v.integer? = some 0) :
      Ordered target op v (.pointer u r b) (some (compare 0 b.toNat))
  /-- Numbers lie as they do at the common type. -/
  | numbers {v w v' w' : Value} {c : CommonType} (hc : usualType v.type w.type = .ok c)
      (hv : (convert target .implicit v c.toCType).result = .ok v')
      (hw : (convert target .implicit w c.toCType).result = .ok w') :
      Ordered target op v w (compareNumbers v' w')

variable {target : Target} {op op' : CompareOp} {v w : Value} {o : Option Ordering}

private theorem ordered_of_orderOf (h : (orderOf target op v w).result = .ok o) :
    Ordered target op v w o := by
  unfold orderOf at h
  -- one row for each rule, in the same order
  split at h
  · split_ifs at h with halike
    · obtain rfl := Except.ok.inj h
      exact .addresses (CType.pointsAlike_iff.mp halike)
    · cases h
  · split_ifs at h with hzero
    · obtain rfl := Except.ok.inj h
      exact .zeroRight hzero.2 hzero.1
    · cases h
  · split_ifs at h with hzero
    · obtain rfl := Except.ok.inj h
      exact .zeroLeft hzero.2 hzero.1
    · cases h
  · obtain ⟨c, hc, h⟩ := Traced.result_bind_eq_ok_iff.mp h
    obtain ⟨v', hv, h⟩ := Traced.result_bind_eq_ok_iff.mp h
    obtain ⟨w', hw, h⟩ := Traced.result_bind_eq_ok_iff.mp h
    obtain rfl := Except.ok.inj h
    exact .numbers hc hv hw

private theorem Ordered.result_orderOf (h : Ordered target op v w o) :
    (orderOf target op v w).result = .ok o := by
  cases h with
  | addresses halike =>
    exact congrArg Traced.result (if_pos (CType.pointsAlike_iff.mpr halike))
  | zeroRight hop hw =>
    cases w with
    | bool | int => exact congrArg Traced.result (if_pos ⟨hw, hop⟩)
    | float | pointer | array => cases hw
  | zeroLeft hop hv =>
    cases v with
    | bool | int => exact congrArg Traced.result (if_pos ⟨hv, hop⟩)
    | float | pointer | array => cases hv
  | numbers hc hv hw =>
    have hsequence : ((do
        let common ← (usualType v.type w.type : Traced CommonType)
        let v ← convert target .implicit v common.toCType
        let w ← convert target .implicit w common.toCType
        return compareNumbers v w) : Traced (Option Ordering)).result
          = .ok (compareNumbers _ _) :=
      Traced.result_bind_eq_ok_iff.mpr ⟨_, hc, Traced.result_bind_eq_ok_iff.mpr
        ⟨_, hv, Traced.result_bind_eq_ok_iff.mpr ⟨_, hw, rfl⟩⟩⟩
    -- a pointer has no common type with anything, so the operands are in the last row
    cases v with
    | pointer => cases hc
    | bool | int | float | array => cases w with
      | pointer => cases usualType_comm hc
      | bool | int | float | array => exact hsequence

theorem Ordered.flip (h : Ordered target op v w o) :
    Ordered target op.flipped w v (o.map Ordering.swap) := by
  have hswap : ∀ m n : Nat, (some (compare m n)).map Ordering.swap = some (compare n m) :=
    fun m n ↦ congrArg some Std.OrientedOrd.eq_swap.symm
  cases h with
  | addresses halike =>
    rw [hswap]
    refine .addresses ?_
    rcases halike with rfl | rfl | rfl
    · exact .inl rfl
    · exact .inr (.inr rfl)
    · exact .inr (.inl rfl)
  | zeroRight hop hw =>
    rw [hswap]
    exact .zeroLeft (op.isEquality_flipped.trans hop) hw
  | zeroLeft hop hv =>
    rw [hswap]
    exact .zeroRight (op.isEquality_flipped.trans hop) hv
  | numbers hc hv hw =>
    rw [← compareNumbers_swap]
    exact .numbers (usualType_comm hc) hw hv

/-- The order that one operator finds another finds too, unless the first asks for equality only. -/
theorem Ordered.mono (h : Ordered target op v w o)
    (hop : op.isEquality = true → op'.isEquality = true) : Ordered target op' v w o := by
  cases h with
  | addresses halike => exact .addresses halike
  | zeroRight hequality hw => exact .zeroRight (hop hequality) hw
  | zeroLeft hequality hv => exact .zeroLeft (hop hequality) hv
  | numbers hc hv hw => exact .numbers hc hv hw

/-! ## Outcomes -/

namespace CompareOp

/-- The comparison has an outcome. -/
def Applies (op : CompareOp) (target : Target) (v w : Value) : Prop :=
  ∃ u, (compareValues target op v w).result = .ok u

/-- The outcome of the comparison is one. -/
def IsTrue (op : CompareOp) (target : Target) (v w : Value) : Prop :=
  (compareValues target op v w).result = .ok (.plainInt 1)

end CompareOp

/-- The order decides the outcome. -/
theorem Ordered.result_compareValues (h : Ordered target op v.decay w.decay o) :
    (compareValues target op v w).result = .ok (outcomeInt (op.holds o)) :=
  Traced.result_bind_eq_ok_iff.mpr ⟨o, h.result_orderOf, rfl⟩

theorem Ordered.applies (h : Ordered target op v.decay w.decay o) : op.Applies target v w :=
  ⟨_, h.result_compareValues⟩

theorem Ordered.isTrue_iff (h : Ordered target op v.decay w.decay o) :
    op.IsTrue target v w ↔ op.holds o = true := by
  rw [CompareOp.IsTrue, h.result_compareValues]
  cases op.holds o with
  | true => exact iff_of_true rfl rfl
  | false => exact iff_of_false (fun heq ↦ absurd (Except.ok.inj heq) (by decide)) nofun

theorem CompareOp.applies_iff :
    op.Applies target v w ↔ ∃ o, Ordered target op v.decay w.decay o := by
  constructor
  · rintro ⟨u, hu⟩
    obtain ⟨o, ho, -⟩ := Traced.result_bind_eq_ok_iff.mp hu
    exact ⟨o, ordered_of_orderOf ho⟩
  · rintro ⟨o, ho⟩
    exact ho.applies

/-! ## Laws -/

namespace CompareOp

private theorem eq_zero_or_eq_one {u : Value} (h : (compareValues target op v w).result = .ok u) :
    u = .plainInt 0 ∨ u = .plainInt 1 := by
  obtain ⟨o, ho⟩ := applies_iff.mp ⟨u, h⟩
  obtain rfl := Except.ok.inj (h.symm.trans ho.result_compareValues)
  cases op.holds o with
  | false => exact .inl rfl
  | true => exact .inr rfl

theorem Applies.flip (h : op.Applies target v w) : op.flipped.Applies target w v := by
  obtain ⟨o, ho⟩ := applies_iff.mp h
  exact ho.flip.applies

private theorem applies_flipped_iff : op.Applies target v w ↔ op.flipped.Applies target w v := by
  refine ⟨Applies.flip, fun h ↦ ?_⟩
  rw [← op.flipped_flipped]
  exact h.flip

theorem result_compareValues_flipped (h : op.Applies target v w) :
    (compareValues target op v w).result = (compareValues target op.flipped w v).result := by
  obtain ⟨o, ho⟩ := applies_iff.mp h
  rw [ho.result_compareValues, ho.flip.result_compareValues, holds_flipped]

private theorem Applies.of_isEquality (h : op.Applies target v w) (hop : op'.isEquality = true) :
    op'.Applies target v w := by
  obtain ⟨o, ho⟩ := applies_iff.mp h
  exact (ho.mono fun _ ↦ hop).applies

private theorem isTrue_ne_iff (h : eq.Applies target v w) :
    ne.IsTrue target v w ↔ ¬ eq.IsTrue target v w := by
  obtain ⟨o, ho⟩ := applies_iff.mp h
  have hne : Ordered target ne v.decay w.decay o := ho.mono fun _ ↦ rfl
  rw [ho.isTrue_iff, hne.isTrue_iff, holds_ne, Bool.not_eq_true', Bool.not_eq_true]

/-- Where an operator that asks for an order applies, every operator does and finds that order. -/
theorem exists_ordered_of_lt (h : lt.Applies target v w) :
    ∃ o, ∀ op, Ordered target op v.decay w.decay o := by
  obtain ⟨o, ho⟩ := applies_iff.mp h
  exact ⟨o, fun op ↦ ho.mono nofun⟩

end CompareOp

/-! ## Integers and pointers -/

theorem ordered_integers {a b : IntType} {x y : Int} (hx : v.integer? = some x)
    (ha : IntType.ofType? v.type = some a) (hy : w.integer? = some y)
    (hb : IntType.ofType? w.type = some b) (target : Target) (op : CompareOp) :
    let t := a.promoted.common b.promoted
    Ordered target op v.decay w.decay (some (compare (t.taken x) (t.taken y))) := by
  intro t
  obtain ⟨hleast, hgreatest⟩ := Value.integer?_range hx ha
  obtain ⟨hleast', hgreatest'⟩ := Value.integer?_range hy hb
  rw [Value.decay_of_integer hx, Value.decay_of_integer hy,
    ← (IntType.common_receives_left a b).read_truncate hleast hgreatest,
    ← (IntType.common_receives_right a b).read_truncate hleast' hgreatest']
  exact .numbers (IntType.usualType_eq ha hb) (Value.result_convert_int hx target .implicit t)
    (Value.result_convert_int hy target .implicit t)

section Pointers

variable {t u : CType} {q r : Qualifiers} {a b : BitVec 64}

private theorem ordered_pointers_iff : Ordered target op (.pointer t q a) (.pointer u r b) o ↔
    (t = u ∨ t = .void ∨ u = .void) ∧ o = some (compare a.toNat b.toNat) := by
  constructor
  · intro h
    cases h with
    | addresses halike => exact ⟨halike, rfl⟩
    | zeroRight _ hw => cases hw
    | zeroLeft _ hv => cases hv
    | numbers hc => cases hc
  · rintro ⟨halike, rfl⟩
    exact .addresses halike

/-- An operator applies to two pointers exactly if they point alike. -/
theorem CompareOp.applies_pointers_iff (hv : v.decay = .pointer t q a)
    (hw : w.decay = .pointer u r b) :
    op.Applies target v w ↔ t = u ∨ t = .void ∨ u = .void := by
  simp only [applies_iff, hv, hw, ordered_pointers_iff, exists_and_left, exists_eq, and_true]

private theorem CompareOp.isTrue_pointers_iff (hv : v.decay = .pointer t q a)
    (hw : w.decay = .pointer u r b) (halike : t = u ∨ t = .void ∨ u = .void) :
    op.IsTrue target v w ↔ op.Relates a.toNat b.toNat := by
  have hordered : Ordered target op v.decay w.decay (some (compare a.toNat b.toNat)) := by
    rw [hv, hw]
    exact .addresses halike
  rw [hordered.isTrue_iff, holds_compare_iff]

end Pointers

/-- **What comparisons mean.** The outcome of a comparison is zero or one. The flipped operator on
exchanged operands has the same outcome, and has one under the same conditions. `==` and `!=` have
opposite outcomes. Where `<` has an outcome, all six operators have, `<=` holds if `<` or `==` does,
and `>=` if `>` or `==` does.

Of two integers exactly one of `<`, `==` and `>` holds. They compare as the integers they are if the
common type is signed or none of them is negative; if it is unsigned, a negative one compares as if
it were larger by two to the width. Pointers, and arrays in their place, compare as their addresses,
and exactly if they point to one type or one of them to `void`. -/
theorem comparison_semantics (target : Target) :
    (∀ op v w u, (compareValues target op v w).result = .ok u →
      u = .plainInt 0 ∨ u = .plainInt 1) ∧
    (∀ op v w, (op.Applies target v w ↔ op.flipped.Applies target w v) ∧
      (op.Applies target v w →
        (compareValues target op v w).result = (compareValues target op.flipped w v).result)) ∧
    (∀ v w, (CompareOp.eq.Applies target v w ↔ CompareOp.ne.Applies target v w) ∧
      (CompareOp.eq.Applies target v w →
        (CompareOp.ne.IsTrue target v w ↔ ¬ CompareOp.eq.IsTrue target v w))) ∧
    (∀ v w, CompareOp.lt.Applies target v w → (∀ op : CompareOp, op.Applies target v w) ∧
      (CompareOp.le.IsTrue target v w ↔
        CompareOp.lt.IsTrue target v w ∨ CompareOp.eq.IsTrue target v w) ∧
      (CompareOp.ge.IsTrue target v w ↔
        CompareOp.gt.IsTrue target v w ∨ CompareOp.eq.IsTrue target v w)) ∧
    (∀ v w x y, v.integer? = some x → w.integer? = some y → ∃ t : IntType,
      usualType v.type w.type = .ok (.int t.width t.signedness) ∧
      (∀ op : CompareOp, op.Applies target v w) ∧
      (∃! op : CompareOp, op ∈ [.lt, .eq, .gt] ∧ op.IsTrue target v w) ∧
      (t.signedness = .signed ∨ 0 ≤ x ∧ 0 ≤ y →
        ∀ op : CompareOp, op.IsTrue target v w ↔ op.Relates x y) ∧
      (t.signedness = .unsigned → ∀ op : CompareOp, op.IsTrue target v w ↔
        op.Relates (if x < 0 then x + pow2 t.width.bits else x)
          (if y < 0 then y + pow2 t.width.bits else y))) ∧
    (∀ v w t u q r a b, v.decay = .pointer t q a → w.decay = .pointer u r b →
      ∀ op : CompareOp, (op.Applies target v w ↔ t = u ∨ t = .void ∨ u = .void) ∧
        (op.Applies target v w → (op.IsTrue target v w ↔ op.Relates a.toNat b.toNat))) := by
  refine ⟨fun op v w u ↦ CompareOp.eq_zero_or_eq_one, fun op v w ↦
    ⟨CompareOp.applies_flipped_iff, CompareOp.result_compareValues_flipped⟩, fun v w ↦
    ⟨⟨fun h ↦ h.of_isEquality rfl, fun h ↦ h.of_isEquality rfl⟩, CompareOp.isTrue_ne_iff⟩,
    fun v w hlt ↦ ?_, fun v w x y hx hy ↦ ?_, fun v w t u q r a b hv hw op ↦ ?_⟩
  · obtain ⟨o, ho⟩ := CompareOp.exists_ordered_of_lt hlt
    refine ⟨fun op ↦ (ho op).applies, ?_, ?_⟩
    · rw [(ho _).isTrue_iff, (ho _).isTrue_iff, (ho _).isTrue_iff, CompareOp.holds_le,
        Bool.or_eq_true]
    · rw [(ho _).isTrue_iff, (ho _).isTrue_iff, (ho _).isTrue_iff, CompareOp.holds_ge,
        Bool.or_eq_true]
  · obtain ⟨a, ha⟩ := Value.exists_ofType? hx
    obtain ⟨b, hb⟩ := Value.exists_ofType? hy
    have hordered := ordered_integers hx ha hy hb target
    refine ⟨a.promoted.common b.promoted, IntType.usualType_eq ha hb, fun op ↦
      (hordered op).applies, ?_, fun hsame op ↦ ?_, fun hunsigned op ↦ ?_⟩
    · simp only [(hordered _).isTrue_iff]
      exact CompareOp.existsUnique_holds _
    · rw [(hordered op).isTrue_iff, CompareOp.holds_compare_iff, IntType.taken_eq_self,
        IntType.taken_eq_self]
      · exact hsame.imp_right And.right
      · exact hsame.imp_right And.left
    · rw [(hordered op).isTrue_iff, CompareOp.holds_compare_iff,
        IntType.taken_of_unsigned hunsigned, IntType.taken_of_unsigned hunsigned]
  · have halike : op.Applies target v w ↔ t = u ∨ t = .void ∨ u = .void :=
      CompareOp.applies_pointers_iff hv hw
    exact ⟨halike, fun happlies ↦ CompareOp.isTrue_pointers_iff hv hw (halike.mp happlies)⟩

/-- Minus one is greater than an unsigned one. An array lies before a pointer to `void` that has a
greater address. A pattern that is no number compares with itself, and is only unequal. -/
theorem comparison_semantics_mixed :
    let minusOne := Value.plainInt (-1)
    let one := Value.int .w32 .unsigned 1
    let array := Value.array .plainInt 3 4096
    let p := Value.pointer .void { const := true } 8192
    let nan := Value.float .single 0x7FC00000
    minusOne.integer? = some (-1) ∧ one.integer? = some 1 ∧
      CompareOp.gt.IsTrue {} minusOne one ∧ array.decay = .pointer .plainInt .none 4096 ∧
      CompareOp.lt.Applies {} array p ∧ CompareOp.lt.IsTrue {} array p ∧
      CompareOp.gt.Applies {} p array ∧ CompareOp.lt.Applies {} nan nan ∧
      CompareOp.ne.IsTrue {} nan nan ∧ ¬ CompareOp.le.IsTrue {} nan nan := by
  intro minusOne one array p nan
  obtain ⟨-, hflipped, hopposite, hsix, hintegers, hpointers⟩ := comparison_semantics {}
  obtain ⟨⟨width, s⟩, htype, -, -, -, hunsigned⟩ :=
    hintegers minusOne one (-1) 1 (by decide) (by decide)
  cases (show Except.ok (CommonType.int .w32 .unsigned) = .ok (.int width s) from htype)
  obtain ⟨halike, hless⟩ := hpointers array p .plainInt .void .none _ 4096 8192 rfl rfl .lt
  have happlies : CompareOp.lt.Applies {} array p := halike.mpr (.inr (.inr rfl))
  have hnan : CompareOp.lt.Applies {} nan nan := ⟨_, rfl⟩
  have hzero : Except.ok (Value.plainInt 0) ≠ (.ok (.plainInt 1) : Except Error Value) :=
    fun h ↦ absurd (Except.ok.inj h) (by decide)
  have hunequal : ¬ CompareOp.eq.IsTrue {} nan nan := hzero
  have hnotLess : ¬ CompareOp.lt.IsTrue {} nan nan := hzero
  obtain ⟨hall, hle, -⟩ := hsix nan nan hnan
  refine ⟨by decide, by decide, (hunsigned rfl .gt).mpr (show _ < _ by decide), rfl, happlies,
    (hless happlies).mpr (show _ < _ by decide), (hflipped .lt array p).1.mp happlies, hnan,
    ((hopposite nan nan).2 (hall .eq)).mpr hunequal, ?_⟩
  rw [hle]
  exact fun h ↦ h.elim hnotLess hunequal

end CValues
