import Mathlib.Algebra.Order.Field.Rat
import Mathlib.Data.Rat.Cast.Order
import Mathlib.Tactic.FieldSimp
import Mathlib.Tactic.Linarith
import Mathlib.Tactic.Positivity
import Mathlib.Tactic.Ring
import WritebackCache.Numeric.Fixed

/-! What numbers are rounded to. A quotient becomes a nearest value of 53 bits, and a value is written as a
nearest decimal of so many places; where two are equally near, the even one is taken. Both follow from what
rounding to a natural number does: a power of two, or of ten, brings the value to the unit. -/

namespace WritebackCache.Numeric

/-! ## Rounding to a natural number -/

section Rounded

variable {num den : Nat}

theorem roundHalfEven_sub (h : 0 < den) : (roundHalfEven num den : ℚ) - num / den =
    (2 * den * roundHalfEven num den - 2 * num) / (2 * den) := by
  have pos : (0 : ℚ) < den := by exact_mod_cast h
  field_simp

theorem abs_roundHalfEven_sub (h : 0 < den) : |(roundHalfEven num den : ℚ) - num / den| ≤ 1 / 2 := by
  obtain ⟨low, high⟩ := @roundHalfEven_near num den h
  have pos : (0 : ℚ) < 2 * den := by positivity
  have low' : (2 * num : ℚ) ≤ 2 * den * roundHalfEven num den + den := by exact_mod_cast low
  have high' : (2 * den * roundHalfEven num den : ℚ) ≤ 2 * num + den := by exact_mod_cast high
  rw [roundHalfEven_sub h, abs_div, abs_of_pos pos, div_le_iff₀ pos, abs_le]
  constructor <;> linarith

/-- A quotient that lies in the middle of two numbers goes to the even one. -/
theorem even_of_abs_roundHalfEven_sub (h : 0 < den)
    (tie : |(roundHalfEven num den : ℚ) - num / den| = 1 / 2) : roundHalfEven num den % 2 = 0 := by
  have pos : (0 : ℚ) < 2 * den := by positivity
  rw [roundHalfEven_sub h, abs_div, abs_of_pos pos, div_eq_iff pos.ne'] at tie
  have middle : 2 * den * roundHalfEven num den = 2 * num + den ∨
      2 * den * roundHalfEven num den + den = 2 * num := by
    rcases abs_cases (2 * den * roundHalfEven num den - 2 * num : ℚ) with ⟨eq, -⟩ | ⟨eq, -⟩
    · left
      have : (2 * den * roundHalfEven num den : ℚ) = 2 * num + den := by linarith
      exact_mod_cast this
    · right
      have : (2 * den * roundHalfEven num den + den : ℚ) = 2 * num := by linarith
      exact_mod_cast this
  apply roundHalfEven_even
  have whole := Nat.div_add_mod num den
  have below := Nat.mod_lt num h
  obtain eq | eq := roundHalfEven_eq_or num den
  · rw [eq, Nat.mul_assoc] at middle
    omega
  · rw [eq, Nat.mul_assoc, Nat.mul_add_one] at middle
    omega

/-- A number within half a unit of a value is a nearest one. -/
theorem nearest_of_half {r : Nat} {q : ℚ} (half : |(r : ℚ) - q| ≤ 1 / 2) (k : ℤ) :
    |(r : ℚ) - q| ≤ |(k : ℚ) - q| ∧
      (|(r : ℚ) - q| = |(k : ℚ) - q| → (k : ℚ) ≠ r → |(r : ℚ) - q| = 1 / 2) := by
  by_cases same : (k : ℚ) = r
  · rw [same]
    exact ⟨le_rfl, fun _ other => (other rfl).elim⟩
  · have apart : (1 : ℚ) ≤ |(k : ℚ) - r| := by
      have : k - r ≠ 0 := fun h => same (by exact_mod_cast sub_eq_zero.mp h)
      exact_mod_cast Int.one_le_abs this
    have via : |(k : ℚ) - r| ≤ |(k : ℚ) - q| + |(r : ℚ) - q| := by
      rw [abs_sub_comm (r : ℚ) q]
      exact abs_sub_le _ _ _
    exact ⟨by linarith, fun equal _ => by linarith⟩

end Rounded

/-! ## Values of 53 bits -/

namespace Binary64

def toRat (x : Binary64) : ℚ := x.significand * 2 ^ x.exponent

theorem scaled_pos (n : Nat) (e : Int) : 0 < (scaled n e).2 := by
  unfold scaled
  split
  · exact Nat.one_pos
  · exact Nat.pow_pos Nat.two_pos

theorem scaled_eq (n : Nat) (e : Int) : ((scaled n e).1 : ℚ) / (scaled n e).2 = n * 2 ^ e := by
  unfold scaled
  split
  · next nonneg =>
    obtain ⟨k, rfl⟩ := Int.eq_ofNat_of_zero_le nonneg
    simp
  · next neg =>
    obtain ⟨k, hk⟩ := Int.eq_ofNat_of_zero_le (by omega : 0 ≤ -e)
    obtain rfl : e = -(k : Int) := by omega
    simp [div_eq_mul_inv]

theorem toRatio_eq (x : Binary64) : (x.toRatio.1 : ℚ) / x.toRatio.2 = x.toRat := scaled_eq _ _

/-- A positive number brought down to its leading bit is at least one and less than two. -/
theorem leading_bit {n : Nat} (pos : 0 < n) :
    1 ≤ (n : ℚ) * 2 ^ (-(n.log2 : ℤ)) ∧ (n : ℚ) * 2 ^ (-(n.log2 : ℤ)) < 2 := by
  have low : (2 ^ n.log2 : ℚ) ≤ n := by exact_mod_cast Nat.log2_self_le pos.ne'
  have high : (n : ℚ) < 2 ^ n.log2 * 2 := by
    rw [← pow_succ]
    exact_mod_cast @Nat.lt_log2_self n
  have unit : (0 : ℚ) < 2 ^ n.log2 := by positivity
  rw [zpow_neg, zpow_natCast, ← div_eq_mul_inv, le_div_iff₀ unit, div_lt_iff₀ unit]
  exact ⟨by linarith, by linarith⟩

variable {num den : Nat}

/-- The difference of the logarithms, as a guess of the exponent. -/
def guess (num den : Nat) : Int := (Nat.log2 num : Int) - (Nat.log2 den : Int) - 52

theorem guess_bounds (hnum : 0 < num) (hden : 0 < den) :
    (leading : ℚ) < num / den * 2 ^ (-guess num den) * 2 ∧
      num / den * 2 ^ (-guess num den) < 2 * (leading : ℚ) := by
  obtain ⟨numLow, numHigh⟩ := leading_bit hnum
  obtain ⟨denLow, denHigh⟩ := leading_bit hden
  have two : (2 : ℚ) ≠ 0 := two_ne_zero
  have hd : (den : ℚ) ≠ 0 := by exact_mod_cast hden.ne'
  have split : (num / den : ℚ) * 2 ^ (-guess num den) =
      num * 2 ^ (-(num.log2 : ℤ)) / (den * 2 ^ (-(den.log2 : ℤ))) * leading := by
    have power : (2 : ℚ) ^ (-guess num den) =
        2 ^ (-(num.log2 : ℤ)) / 2 ^ (-(den.log2 : ℤ)) * leading := by
      rw [← zpow_sub₀ two, show (leading : ℚ) = 2 ^ (52 : ℤ) by norm_num [leading], ← zpow_add₀ two]
      congr 1
      rw [guess]
      omega
    rw [power]
    field_simp
  have hl : (0 : ℚ) < leading := by norm_num [leading]
  have hv : (0 : ℚ) < den * 2 ^ (-(den.log2 : ℤ)) := by linarith
  rw [split]
  generalize (num : ℚ) * 2 ^ (-(num.log2 : ℤ)) = u at *
  generalize (den : ℚ) * 2 ^ (-(den.log2 : ℤ)) = v at *
  have low : 1 < u / v * 2 := by rw [div_mul_eq_mul_div, lt_div_iff₀ hv]; linarith
  have high : u / v < 2 := by rw [div_lt_iff₀ hv]; linarith
  constructor <;> nlinarith

theorem scaled_lt_iff (hden : 0 < den) (e : Int) :
    (scaled num e).1 < leading * ((scaled num e).2 * den) ↔ (num / den : ℚ) * 2 ^ e < leading := by
  have pos : (0 : ℚ) < (scaled num e).2 * den := by exact_mod_cast Nat.mul_pos (scaled_pos num e) hden
  have value : (num / den : ℚ) * 2 ^ e = (scaled num e).1 / ((scaled num e).2 * den) := by
    rw [← div_div, scaled_eq]
    ring
  rw [value, div_lt_iff₀ pos]
  exact_mod_cast Iff.rfl

/-- The whole part of the scaled quotient has 53 bits. -/
theorem exponentOf_bounds (hnum : 0 < num) (hden : 0 < den) :
    (leading : ℚ) ≤ num / den * 2 ^ (-exponentOf num den) ∧
      num / den * 2 ^ (-exponentOf num den) < 2 * (leading : ℚ) := by
  obtain ⟨low, high⟩ := guess_bounds hnum hden
  have choice : exponentOf num den =
      if (scaled num (-guess num den)).1 < leading * ((scaled num (-guess num den)).2 * den)
      then guess num den - 1 else guess num den := rfl
  rw [choice]
  split
  · next small =>
    rw [scaled_lt_iff hden] at small
    have double : (num / den : ℚ) * 2 ^ (-(guess num den - 1)) =
        num / den * 2 ^ (-guess num den) * 2 := by
      rw [neg_sub, sub_eq_neg_add, zpow_add₀ two_ne_zero, zpow_one, mul_assoc]
    rw [double]
    exact ⟨low.le, by linarith⟩
  · next large =>
    rw [scaled_lt_iff hden, not_lt] at large
    exact ⟨large, high⟩

/-- The significand before a carry. -/
def rounded (num den : Nat) : Nat :=
  roundHalfEven (scaled num (-exponentOf num den)).1 ((scaled num (-exponentOf num den)).2 * den)

theorem abs_rounded_sub (hden : 0 < den) :
    |(rounded num den : ℚ) - num / den * 2 ^ (-exponentOf num den)| ≤ 1 / 2 ∧
      (|(rounded num den : ℚ) - num / den * 2 ^ (-exponentOf num den)| = 1 / 2 →
        rounded num den % 2 = 0) := by
  have pos := Nat.mul_pos (scaled_pos num (-exponentOf num den)) hden
  have value : ((scaled num (-exponentOf num den)).1 : ℚ) /
      ((scaled num (-exponentOf num den)).2 * den : Nat) = num / den * 2 ^ (-exponentOf num den) := by
    rw [Nat.cast_mul, ← div_div, scaled_eq]
    ring
  rw [← value]
  exact ⟨abs_roundHalfEven_sub pos, even_of_abs_roundHalfEven_sub pos⟩

/-- A carry moves into the exponent and leaves the value alone. -/
theorem toRat_ofRatio (hnum : 0 < num) (den : Nat) :
    (ofRatio num den).toRat = rounded num den * 2 ^ exponentOf num den ∧
      ((ofRatio num den).significand = rounded num den ∨
        rounded num den = 2 * leading ∧ (ofRatio num den).significand = leading) := by
  have result : ofRatio num den = if rounded num den = 2 * leading
      then ⟨leading, exponentOf num den + 1⟩ else ⟨rounded num den, exponentOf num den⟩ :=
    if_neg hnum.ne'
  rw [result]
  split
  · next carry =>
    refine ⟨?_, .inr ⟨carry, rfl⟩⟩
    rw [carry, toRat, zpow_add₀ two_ne_zero, zpow_one, Nat.cast_mul, Nat.cast_ofNat]
    ring
  · exact ⟨rfl, .inl rfl⟩

/-- A value of 53 bits at most is a multiple of a power of two, or one of the multiples lies between the
value and whatever is not below `leading` times that power. -/
theorem exists_multiple {y : Binary64} (bits : y.significand < 2 * leading) {e : ℤ} {q : ℚ}
    (large : leading * 2 ^ e ≤ q) :
    ∃ k : ℤ, y.toRat = k * 2 ^ e ∨ |k * 2 ^ e - q| < |y.toRat - q| := by
  have step : (0 : ℚ) < 2 ^ e := zpow_pos two_pos e
  rcases le_or_gt e y.exponent with coarse | fine
  · obtain ⟨n, hn⟩ := Int.eq_ofNat_of_zero_le (sub_nonneg.mpr coarse)
    refine ⟨y.significand * 2 ^ n, .inl ?_⟩
    rw [toRat, show y.exponent = n + e by omega, zpow_add₀ two_ne_zero, zpow_natCast]
    push_cast
    ring
  · refine ⟨leading, .inr ?_⟩
    have half : (2 : ℚ) ^ y.exponent * 2 ≤ 2 ^ e := by
      rw [← zpow_add_one₀ two_ne_zero]
      exact zpow_le_zpow_right₀ one_le_two fine
    have unit : (0 : ℚ) < 2 ^ y.exponent := zpow_pos two_pos _
    have small : (y.significand : ℚ) < 2 * leading := by exact_mod_cast bits
    have below : y.toRat < leading * 2 ^ e := by
      rw [toRat]
      calc (y.significand : ℚ) * 2 ^ y.exponent < 2 * leading * 2 ^ y.exponent := by gcongr
        _ = leading * (2 ^ y.exponent * 2) := by ring
        _ ≤ leading * 2 ^ e := by gcongr
    rw [Int.cast_natCast, abs_of_nonpos (by linarith), abs_of_neg (by linarith)]
    linarith

/-- A quotient is rounded to a nearest value of 53 bits; if there are two of them, to the one with the
even significand. -/
theorem ofRatio_nearest (hnum : 0 < num) (hden : 0 < den) {y : Binary64}
    (bits : y.significand < 2 * leading) :
    |(ofRatio num den).toRat - num / den| ≤ |y.toRat - num / den| ∧
      (|(ofRatio num den).toRat - num / den| = |y.toRat - num / den| →
        y.toRat ≠ (ofRatio num den).toRat → (ofRatio num den).significand % 2 = 0) := by
  obtain ⟨half, even⟩ := @abs_rounded_sub num den hden
  obtain ⟨value, significand⟩ := toRat_ofRatio hnum den
  obtain ⟨large, -⟩ := exponentOf_bounds hnum hden
  generalize exponentOf num den = e at *
  have step : (0 : ℚ) < 2 ^ e := zpow_pos two_pos e
  have scale : ∀ r : ℚ, |r * 2 ^ e - num / den| = |r - num / den * 2 ^ (-e)| * 2 ^ e := by
    intro r
    rw [← abs_of_pos step, ← abs_mul, abs_of_pos step, sub_mul, mul_assoc, ← zpow_add₀ two_ne_zero,
      neg_add_cancel, zpow_zero, mul_one]
  have low : leading * (2 : ℚ) ^ e ≤ num / den := by
    rw [zpow_neg] at large
    rwa [← le_div_iff₀ step, div_eq_mul_inv]
  obtain ⟨k, grid⟩ := exists_multiple bits low
  obtain ⟨near, tie⟩ := nearest_of_half half k
  rw [value]
  rcases grid with eq | nearer
  · rw [eq, scale, scale]
    refine ⟨mul_le_mul_of_nonneg_right near step.le, fun equal other => ?_⟩
    have middle := tie (mul_right_cancel₀ step.ne' equal) fun same => other (by rw [same])
    rcases significand with plain | ⟨-, carried⟩
    · rw [plain]
      exact even middle
    · rw [carried]
      rfl
  · rw [scale] at nearer
    have best := mul_le_mul_of_nonneg_right near step.le
    rw [scale]
    exact ⟨by linarith, fun equal => by linarith⟩

example : ofRatio 2 3 = ⟨0x15555555555555, -53⟩ := by decide

end Binary64

/-! ## Decimals with a fixed number of places -/

/-- The value in units of the last place, as it is written. -/
def units (places : Nat) (x : Binary64) : Nat :=
  roundHalfEven (x.toRatio.1 * Nat.pow 10 places) x.toRatio.2

theorem fixed_eq (places : Nat) (x : Binary64) : fixed places x =
    Numeral.decimal (units places x / 10 ^ places) ++ "." ++ lastDigits places (units places x) := rfl

theorem abs_units_sub (places : Nat) (x : Binary64) :
    |(units places x : ℚ) - x.toRat * 10 ^ places| ≤ 1 / 2 ∧
      (|(units places x : ℚ) - x.toRat * 10 ^ places| = 1 / 2 → units places x % 2 = 0) := by
  have pos : 0 < x.toRatio.2 := Binary64.scaled_pos _ _
  have value : ((x.toRatio.1 * Nat.pow 10 places : Nat) : ℚ) / x.toRatio.2 = x.toRat * 10 ^ places := by
    rw [← x.toRatio_eq, Nat.cast_mul, Nat.pow_eq, Nat.cast_pow, Nat.cast_ofNat]
    ring
  rw [← value]
  exact ⟨abs_roundHalfEven_sub pos, even_of_abs_roundHalfEven_sub pos⟩

/-- The last digits of a number, as many as there are places. -/
theorem lastDigits_spec {places : Nat} (pos : 0 < places) (n : Nat) :
    (lastDigits places n).toList.length = places ∧
      (∀ c ∈ (lastDigits places n).toList, c.isDigit = true) ∧
      Nat.ofDigitChars 10 (lastDigits places n).toList 0 = n % 10 ^ places := by
  have short : (Nat.toDigits 10 (n % 10 ^ places)).length ≤ places :=
    (Nat.length_toDigits_le_iff (by decide) pos).mpr (Nat.mod_lt _ (Nat.pow_pos (by decide)))
  have list : (lastDigits places n).toList =
      List.replicate (places - (Nat.toDigits 10 (n % 10 ^ places)).length) '0' ++
        Nat.toDigits 10 (n % 10 ^ places) := String.toList_ofList
  rw [list]
  refine ⟨?_, fun c hc => ?_, ?_⟩
  · rw [List.length_append, List.length_replicate]
    omega
  · rcases List.mem_append.mp hc with zero | digit
    · rw [List.eq_of_mem_replicate zero]
      rfl
    · exact Nat.isDigit_of_mem_toDigits (by decide) (by decide) digit
  · rw [Nat.ofDigitChars_append, Nat.ofDigitChars_replicate_zero, Nat.mul_zero,
      Nat.ofDigitChars_ten_toDigits]

/-- A text with a point in front of the last digits. Without the point it spells a number of units of the
last place that is nearest to the value; if there are two of them, the even one. -/
theorem fixed_nearest {places : Nat} (pos : 0 < places) (x : Binary64) : ∃ front back : List Char,
    (fixed places x).toList = front ++ '.' :: back ∧ front ≠ [] ∧ back.length = places ∧
      (∀ c ∈ front ++ back, c.isDigit = true) ∧
      ∀ k : ℤ, |(Nat.ofDigitChars 10 (front ++ back) 0 / 10 ^ places : ℚ) - x.toRat| ≤
          |(k / 10 ^ places : ℚ) - x.toRat| ∧
        (|(Nat.ofDigitChars 10 (front ++ back) 0 / 10 ^ places : ℚ) - x.toRat| =
            |(k / 10 ^ places : ℚ) - x.toRat| → k ≠ Nat.ofDigitChars 10 (front ++ back) 0 →
          Nat.ofDigitChars 10 (front ++ back) 0 % 2 = 0) := by
  obtain ⟨length, digits, value⟩ := lastDigits_spec pos (units places x)
  have spelled : Nat.ofDigitChars 10
      (Nat.toDigits 10 (units places x / 10 ^ places) ++ (lastDigits places (units places x)).toList) 0 =
      units places x := by
    rw [Nat.ofDigitChars_append, Nat.ofDigitChars_ten_toDigits, Nat.ofDigitChars_eq_ofDigitChars_zero,
      value, length]
    exact Nat.div_add_mod _ _
  refine ⟨Nat.toDigits 10 (units places x / 10 ^ places), (lastDigits places (units places x)).toList,
    ?_, Nat.toDigits_ne_nil, length, fun c hc => ?_, fun k => ?_⟩
  · rw [fixed_eq, String.toList_append, String.toList_append, Numeral.decimal, String.toList_ofList]
    simp
  · rcases List.mem_append.mp hc with hc | hc
    · exact Nat.isDigit_of_mem_toDigits (by decide) (by decide) hc
    · exact digits c hc
  · obtain ⟨half, even⟩ := abs_units_sub places x
    obtain ⟨near, tie⟩ := nearest_of_half half k
    have unit : (0 : ℚ) < 10 ^ places := by positivity
    have scale : ∀ r : ℚ, |r / 10 ^ places - x.toRat| = |r - x.toRat * 10 ^ places| / 10 ^ places := by
      intro r
      rw [← abs_of_pos unit, ← abs_div, abs_of_pos unit, sub_div, mul_div_cancel_right₀ _ unit.ne']
    rw [spelled, scale, scale]
    refine ⟨div_le_div_of_nonneg_right near unit.le, fun equal other => ?_⟩
    exact even (tie ((div_left_inj' unit.ne').mp equal) (by exact_mod_cast other))

/-- Halves in the last place go down and up. -/
example : fixed 2 (.ofRatio 1 8) = "0.12" ∧ fixed 2 (.ofRatio 3 8) = "0.38" := by decide

end WritebackCache.Numeric
