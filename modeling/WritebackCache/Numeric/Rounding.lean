/-! Rounding of a quotient of natural numbers to the nearest natural number; a half goes to the even
neighbour. -/

namespace WritebackCache.Numeric

/-- The quotient `num / den`, rounded. -/
def roundHalfEven (num den : Nat) : Nat :=
  let q := num / den
  let r := num % den
  if 2 * r < den then q
  else if den < 2 * r then q + 1
  else q + q % 2

theorem roundHalfEven_eq_or (num den : Nat) :
    roundHalfEven num den = num / den ∨ roundHalfEven num den = num / den + 1 := by
  simp only [roundHalfEven]
  split
  · exact .inl rfl
  · split
    · exact .inr rfl
    · omega

/-- The rounded quotient is within half a unit. -/
theorem roundHalfEven_near {num den : Nat} (h : 0 < den) :
    2 * num ≤ 2 * den * roundHalfEven num den + den ∧
      2 * den * roundHalfEven num den ≤ 2 * num + den := by
  have hd := Nat.div_add_mod num den
  have hm := Nat.mod_lt num h
  simp only [roundHalfEven]
  generalize num / den = q at hd
  generalize num % den = r at hd hm
  have hq : den * q + r = num := hd
  have key : ∀ k, 2 * den * (q + k) = 2 * (den * q) + 2 * den * k := by
    intro k
    rw [Nat.mul_add, Nat.mul_assoc]
  split
  · have := key 0
    simp only [Nat.add_zero, Nat.mul_zero] at this
    omega
  · split
    · have := key 1
      simp only [Nat.mul_one] at this
      omega
    · rcases Nat.mod_two_eq_zero_or_one q with e | e
      · rw [e]
        have := key 0
        simp only [Nat.add_zero, Nat.mul_zero] at this ⊢
        omega
      · rw [e]
        have := key 1
        simp only [Nat.mul_one] at this
        omega

/-- A tie goes to the even neighbour. -/
theorem roundHalfEven_even {num den : Nat} (h : 2 * (num % den) = den) :
    roundHalfEven num den % 2 = 0 := by
  simp only [roundHalfEven]
  rw [if_neg (by omega), if_neg (by omega)]
  omega

end WritebackCache.Numeric
