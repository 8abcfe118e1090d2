import CValues.Proofs.Integer.Residue
import CValues.Promotion

/-!
# Integer types by their ranges

The promotions and the usual arithmetic conversions in the words of the standard, which asks for
ranks and for whether a type can represent all values of another. The rules by which the common type
is found come to the same: every type of lesser rank than `int` has all its values in `int`, and a
signed type of greater rank has all values of an unsigned one.

A value that a type can represent is not changed by a conversion to that type. The common type of
two operands may not represent a negative one: if it has no sign, that operand is taken for an
integer that is larger by two to the width. Only zero is ever taken for zero.
-/

namespace CValues

/-- An integer type. -/
structure IntType where
  /-- The number of bits. -/
  width : Width
  /-- How they are read. -/
  signedness : Signedness
  deriving DecidableEq, Repr

namespace IntType

/-- The type `int`. -/
def int : IntType := ⟨.w32, .signed⟩

/-- The type `unsigned int`. -/
def unsignedInt : IntType := ⟨.w32, .unsigned⟩

/-- The integer type that a type is. A `_Bool` is stored as an unsigned byte. -/
def ofType? : CType → Option IntType
  | .bool => some ⟨.w8, .unsigned⟩
  | .int w s => some ⟨w, s⟩
  | _ => none

/-- The value of the type with a pattern. -/
def value (t : IntType) (p : BitVec t.width.bits) : Value := .int t.width t.signedness p

/-- The integer that a pattern of the type stands for. -/
def read (t : IntType) (p : BitVec t.width.bits) : Int := t.signedness.read p

/-! ## Ranges -/

/-- The least integer of the type. -/
def least (t : IntType) : Int :=
  match t.signedness with
  | .signed => -(pow2 (t.width.bits - 1) : Int)
  | .unsigned => 0

/-- The greatest integer of the type. -/
def greatest (t : IntType) : Int :=
  match t.signedness with
  | .signed => (pow2 (t.width.bits - 1) : Int) - 1
  | .unsigned => (pow2 t.width.bits : Int) - 1

/-- The type can represent all values of the other. -/
def Represents (t u : IntType) : Prop := t.least ≤ u.least ∧ u.greatest ≤ t.greatest

instance (t u : IntType) : Decidable (t.Represents u) := inferInstanceAs (Decidable (_ ∧ _))

theorem least_le_read (t : IntType) (p : BitVec t.width.bits) : t.least ≤ t.read p := by
  obtain ⟨w, s⟩ := t
  cases s with
  | signed => exact BitVec.le_toInt p
  | unsigned => exact Int.natCast_nonneg _

theorem read_le_greatest (t : IntType) (p : BitVec t.width.bits) : t.read p ≤ t.greatest := by
  obtain ⟨w, s⟩ := t
  cases s with
  | signed => exact Int.le_sub_one_of_lt (BitVec.toInt_lt (x := p))
  | unsigned => exact Int.le_sub_one_of_lt (Int.ofNat_lt.mpr p.isLt)

theorem read_truncate {t : IntType} {x : Int} (hleast : t.least ≤ x) (hgreatest : x ≤ t.greatest) :
    t.read (t.width.truncate x) = x := by
  obtain ⟨w, s⟩ := t
  cases s with
  | signed => exact BitVec.toInt_ofInt_eq_self w.bits_pos hleast (Int.lt_of_le_sub_one hgreatest)
  | unsigned =>
    change ((w.truncate x).toNat : Int) = x
    rw [Width.toNat_truncate]
    exact Int.emod_eq_of_lt hleast (Int.lt_of_le_sub_one hgreatest)

theorem Represents.read_truncate_read {t u : IntType} (h : t.Represents u)
    (p : BitVec u.width.bits) : t.read (t.width.truncate (u.read p)) = u.read p :=
  read_truncate (Int.le_trans h.1 (u.least_le_read p)) (Int.le_trans (u.read_le_greatest p) h.2)

/-! ## Promotion and the common type -/

/-- The conversion rank: a type with more bits has the greater one. -/
def rank (t : IntType) : Nat := t.width.bits

/-- A type of lesser rank than `int` becomes `int` if that represents all its values, and
`unsigned int` if not. -/
def promoted (t : IntType) : IntType :=
  if t.rank < int.rank then if int.Represents t then int else unsignedInt else t

/-- The common type of two promoted operands, as the standard finds it. -/
def common (t u : IntType) : IntType :=
  if t = u then t
  else if t.signedness = u.signedness then if t.rank < u.rank then u else t
  else
    let (unsigned, signed) := if t.signedness = .unsigned then (t, u) else (u, t)
    if signed.rank ≤ unsigned.rank then unsigned
    else if signed.Represents unsigned then signed
    else ⟨signed.width, .unsigned⟩

theorem promoted_represents (t : IntType) : t.promoted.Represents t := by
  obtain ⟨w, s⟩ := t
  cases w <;> cases s <;> decide

theorem ofOperand?_eq {t : CType} {a : IntType} (h : ofType? t = some a) :
    CommonType.ofOperand? t = some (.int a.promoted.width a.promoted.signedness) := by
  cases t with
  | bool =>
    obtain rfl := Option.some.inj h
    rfl
  | int w s =>
    obtain rfl := Option.some.inj h
    cases w <;> cases s <;> rfl
  | void | float | pointer | array => cases h

theorem join_eq_common (t u : IntType) :
    CommonType.join (.int t.width t.signedness) (.int u.width u.signedness)
      = .int (t.common u).width (t.common u).signedness := by
  obtain ⟨v, s⟩ := t
  obtain ⟨w, s'⟩ := u
  cases v <;> cases s <;> cases w <;> cases s' <;> rfl

/-- The usual arithmetic conversions bring integers to the common type of the promoted types. -/
theorem usualType_eq {t u : CType} {a b : IntType} (ht : ofType? t = some a)
    (hu : ofType? u = some b) :
    usualType t u = .ok (.int (a.promoted.common b.promoted).width
      (a.promoted.common b.promoted).signedness) := by
  rw [usualType, ofOperand?_eq ht, ofOperand?_eq hu]
  exact congrArg Except.ok (join_eq_common _ _)

/-! ## Operands at the common type -/

/-- What an integer is taken for at a type: itself, unless it is negative and the type has no sign;
then an integer larger by two to the width. -/
def taken (t : IntType) (x : Int) : Int :=
  if t.signedness = .unsigned ∧ x < 0 then x + pow2 t.width.bits else x

theorem taken_of_unsigned {t : IntType} (ht : t.signedness = .unsigned) (x : Int) :
    t.taken x = if x < 0 then x + pow2 t.width.bits else x := by
  simp only [taken, ht, true_and]

theorem taken_eq_self {t : IntType} {x : Int} (h : t.signedness = .signed ∨ 0 ≤ x) :
    t.taken x = x := by
  refine if_neg fun ⟨hunsigned, hneg⟩ ↦ ?_
  rcases h with hsigned | hnonneg
  · exact absurd (hsigned.symm.trans hunsigned) nofun
  · exact absurd hnonneg (Int.not_le.mpr hneg)

/-- The type has a pattern of its own for each value of the other: it represents them all, or has no
sign and at least as many bits. -/
def Receives (t u : IntType) : Prop :=
  t.Represents u ∨ t.signedness = .unsigned ∧ u.width.bits ≤ t.width.bits

instance (t u : IntType) : Decidable (t.Receives u) := inferInstanceAs (Decidable (_ ∨ _))

theorem common_receives_left (t u : IntType) : (t.promoted.common u.promoted).Receives t := by
  obtain ⟨v, s⟩ := t
  obtain ⟨w, s'⟩ := u
  cases v <;> cases s <;> cases w <;> cases s' <;> decide

theorem common_receives_right (t u : IntType) : (t.promoted.common u.promoted).Receives u := by
  obtain ⟨v, s⟩ := t
  obtain ⟨w, s'⟩ := u
  cases v <;> cases s <;> cases w <;> cases s' <;> decide

private theorem neg_pow2_lt_least (t : IntType) : -(pow2 t.width.bits : Int) < t.least := by
  obtain ⟨w, s⟩ := t
  cases w <;> cases s <;> decide

private theorem greatest_lt_pow2 (t : IntType) : t.greatest < pow2 t.width.bits := by
  obtain ⟨w, s⟩ := t
  cases w <;> cases s <;> decide

section Operand

variable {t u : IntType} {x : Int}

private theorem Receives.neg_pow2_lt (h : t.Receives u) (hleast : u.least ≤ x) :
    -(pow2 t.width.bits : Int) < x := by
  rcases h with hrepresents | ⟨-, hbits⟩
  · exact Int.lt_of_lt_of_le t.neg_pow2_lt_least (Int.le_trans hrepresents.1 hleast)
  · have hpow : (pow2 u.width.bits : Int) ≤ pow2 t.width.bits :=
      Int.ofNat_le.mpr (Nat.pow_le_pow_right Nat.two_pos hbits)
    have hu := u.neg_pow2_lt_least
    omega

/-- At a type that receives it, an operand is what it is taken for. -/
theorem Receives.read_truncate (h : t.Receives u) (hleast : u.least ≤ x)
    (hgreatest : x ≤ u.greatest) : t.read (t.width.truncate x) = t.taken x := by
  have hlower := h.neg_pow2_lt hleast
  rcases h with hrepresents | ⟨hunsigned, hbits⟩
  · rw [IntType.read_truncate (Int.le_trans hrepresents.1 hleast)
      (Int.le_trans hgreatest hrepresents.2), taken, if_neg]
    rintro ⟨hunsigned, hneg⟩
    have hzero : t.least = 0 := by rw [least, hunsigned]
    have := hrepresents.1
    omega
  · have hpow : (pow2 u.width.bits : Int) ≤ pow2 t.width.bits :=
      Int.ofNat_le.mpr (Nat.pow_le_pow_right Nat.two_pos hbits)
    have hupper := u.greatest_lt_pow2
    have hread : t.read (t.width.truncate x) = x % pow2 t.width.bits := by
      rw [read, hunsigned, ← Width.toNat_truncate]
      rfl
    rw [hread, taken, hunsigned]
    by_cases hneg : x < 0
    · rw [if_pos ⟨rfl, hneg⟩, ← Int.add_emod_right]
      exact Int.emod_eq_of_lt (by omega) (by omega)
    · rw [if_neg fun hand ↦ hneg hand.2]
      exact Int.emod_eq_of_lt (by omega) (by omega)

theorem Receives.taken_eq_zero_iff (h : t.Receives u) (hleast : u.least ≤ x) :
    t.taken x = 0 ↔ x = 0 := by
  have hlower := h.neg_pow2_lt hleast
  rw [taken]
  split <;> omega

end Operand

end IntType

namespace Value

variable {v : Value} {x : Int}

theorem exists_ofType? (hx : v.integer? = some x) : ∃ a, IntType.ofType? v.type = some a := by
  cases v with
  | bool | int => exact ⟨_, rfl⟩
  | float | pointer | array => cases hx

/-- The integer that a value stands for is one of its type. -/
theorem integer?_range {a : IntType} (hx : v.integer? = some x)
    (ha : IntType.ofType? v.type = some a) : a.least ≤ x ∧ x ≤ a.greatest := by
  cases v with
  | bool truth =>
    obtain rfl := Option.some.inj hx
    obtain rfl := Option.some.inj ha
    cases truth <;> decide
  | int w s p =>
    obtain rfl := Option.some.inj hx
    obtain rfl := Option.some.inj ha
    exact ⟨IntType.least_le_read ⟨w, s⟩ p, IntType.read_le_greatest ⟨w, s⟩ p⟩
  | float | pointer | array => cases hx

end Value

end CValues
