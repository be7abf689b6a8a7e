import WritebackCache.Numeric.Binary64
import WritebackCache.Text.Numeral

/-! The shortest decimal that reads back as a given value: of all decimals that round to the value, one
with the fewest digits, and of several such the nearest. On a grid of powers of ten it suffices to
look at the two neighbours of the value, because the reals that round to it form an interval around
it. -/

namespace WritebackCache.Numeric

/-- A decimal `digits * 10 ^ exponent`. -/
structure Decimal where
  digits : Nat
  exponent : Int
  deriving DecidableEq

/-- Whether `a / b ≤ c / d`, or `a / b < c / d` if the bound does not belong. -/
def ratioBelow (closed : Bool) (a b c d : Nat) : Bool :=
  if closed then decide (a * d ≤ c * b) else decide (a * d < c * b)

namespace Shortest

/-- A natural number times a power of ten, as a numerator and a denominator. -/
def scaledTen (n : Nat) (exponent : Int) : Nat × Nat :=
  if 0 ≤ exponent then (n * Nat.pow 10 exponent.toNat, 1) else (n, Nat.pow 10 (-exponent).toNat)

/-- Whether a ratio rounds to the value. Both ends of its interval belong to a value with an even
significand; below a power of two the next value is half as far away. -/
def readsBack (x : Binary64) (num den : Nat) : Bool :=
  let closed := x.significand % 2 = 0
  let (lowNum, lowDen) :=
    if x.significand = Binary64.leading then Binary64.scaled (4 * x.significand - 1) (x.exponent - 2)
    else Binary64.scaled (2 * x.significand - 1) (x.exponent - 1)
  let (highNum, highDen) := Binary64.scaled (2 * x.significand + 1) (x.exponent - 1)
  ratioBelow closed lowNum lowDen num den && ratioBelow closed num den highNum highDen

/-- The least exponent, counting up from `start`, whose power of ten exceeds `num / den`. -/
def magnitudeFrom (num den : Nat) : Nat → Int → Int
  | 0, start => start
  | fuel + 1, start =>
    let (n, d) := scaledTen 1 start
    if num * d < n * den then start else magnitudeFrom num den fuel (start + 1)

/-- The number of digits in front of the point, negative for zeros behind it. -/
def magnitude (num den : Nat) : Int :=
  magnitudeFrom num den (Nat.log2 num + Nat.log2 den + 2) (-(Nat.log2 den : Int) - 1)

/-- The better of the two neighbours of `num / den` on the grid of an exponent, if one reads back. -/
def onGrid (x : Binary64) (num den : Nat) (exponent : Int) : Option Decimal :=
  let (n, d) := scaledTen num (-exponent)
  let below := n / (d * den)
  let reads (k : Nat) : Bool :=
    let (a, b) := scaledTen k exponent
    readsBack x a b
  if reads (roundHalfEven n (d * den)) then some ⟨roundHalfEven n (d * den), exponent⟩
  else if reads below then some ⟨below, exponent⟩
  else if reads (below + 1) then some ⟨below + 1, exponent⟩
  else none

/-- The first grid that holds a decimal that reads back, from coarse to fine. -/
def search (x : Binary64) (num den : Nat) : Nat → Int → Option Decimal
  | 0, _ => none
  | fuel + 1, exponent =>
    match onGrid x num den exponent with
    | some d => some d
    | none => search x num den fuel (exponent - 1)

/-- Drops zeros at the end of the digits. -/
def trim : Nat → Decimal → Decimal
  | 0, d => d
  | fuel + 1, d =>
    if d.digits % 10 = 0 then trim fuel ⟨d.digits / 10, d.exponent + 1⟩ else d

end Shortest

/-- The shortest decimal of a positive value. Seventeen digits always read back. -/
def shortest (x : Binary64) : Decimal :=
  let (num, den) := x.toRatio
  let top := Shortest.magnitude num den
  match Shortest.search x num den 17 (top - 1) with
  | some d => Shortest.trim 20 d
  | none => ⟨0, 0⟩

/-- Positional while the point lies among or near the digits, at most sixteen places to the right and
four zeros to the left of their start, and with an exponent otherwise. Whole numbers keep `.0`. -/
def Decimal.render (d : Decimal) : String :=
  let digits := Nat.toDigits 10 d.digits
  let point : Int := digits.length + d.exponent
  if 0 ≤ d.exponent ∧ point ≤ 16 then
    String.ofList (digits ++ List.replicate d.exponent.toNat '0') ++ ".0"
  else if 0 < point ∧ point ≤ 16 then
    String.ofList (digits.take point.toNat ++ '.' :: digits.drop point.toNat)
  else if -5 < point ∧ point ≤ 0 then
    "0." ++ String.ofList (List.replicate (-point).toNat '0' ++ digits)
  else
    String.ofList (digits.take 1) ++
    (if digits.length = 1 then "" else "." ++ String.ofList (digits.drop 1)) ++
    "e" ++ (if point < 1 then "-" else "") ++ Numeral.decimal (point - 1).natAbs

/-- The text of a value in the shortest decimal that reads back. -/
def shortestText (x : Binary64) : String :=
  if x.significand = 0 then "0.0" else (shortest x).render

end WritebackCache.Numeric
