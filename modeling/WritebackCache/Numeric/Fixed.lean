import WritebackCache.Numeric.Binary64
import WritebackCache.Text.Numeral

/-! Decimals with a fixed number of places. The exact value is rounded once, ties to even. -/

namespace WritebackCache.Numeric

/-- The last `places` digits of a number, with zeros in front. -/
def lastDigits (places n : Nat) : String :=
  let digits := Nat.toDigits 10 (n % Nat.pow 10 places)
  String.ofList (List.replicate (places - digits.length) '0' ++ digits)

/-- A value with `places` digits behind the point; `places` is positive. -/
def fixed (places : Nat) (x : Binary64) : String :=
  let (num, den) := x.toRatio
  let units := roundHalfEven (num * Nat.pow 10 places) den
  Numeral.decimal (units / Nat.pow 10 places) ++ "." ++ lastDigits places units

end WritebackCache.Numeric
