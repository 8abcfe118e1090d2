/-!
# Powers of two

Machine widths, floating formats and addresses are all counted in powers of two. They are written
`pow2 n`, so that it is the same function of the natural numbers everywhere.
-/

namespace CValues

/-- Two to the power of `n`. -/
def pow2 (n : Nat) : Nat := Nat.pow 2 n

@[simp] theorem pow2_zero : pow2 0 = 1 := rfl

theorem pow2_succ (n : Nat) : pow2 (n + 1) = pow2 n * 2 := rfl

theorem pow2_pos (n : Nat) : 0 < pow2 n := Nat.two_pow_pos n

theorem pow2_add (m n : Nat) : pow2 (m + n) = pow2 m * pow2 n := Nat.pow_add 2 m n

theorem pow2_dvd {m n : Nat} (h : m ≤ n) : pow2 m ∣ pow2 n := Nat.pow_dvd_pow 2 h

end CValues
