import WritebackCache.Numeric.Rounding

/-! Binary floating point with 53 significant bits, without a sign. A value is zero or a significand of
exactly 53 bits times a power of two; the exponent is not limited, so that every positive quotient
of natural numbers has a nearest value. Each operation rounds its exact result once, ties to even.
A value whose exponent fits is written into the 64 bits of the interchange format. -/

namespace WritebackCache.Numeric

structure Binary64 where
  significand : Nat
  exponent : Int
  deriving DecidableEq

namespace Binary64

/-- The least number of 53 bits. -/
def leading : Nat := Nat.pow 2 52

def zero : Binary64 := ⟨0, 0⟩

/-- A natural number times a power of two, as a numerator and a denominator. -/
def scaled (n : Nat) (exponent : Int) : Nat × Nat :=
  if 0 ≤ exponent then (n * Nat.pow 2 exponent.toNat, 1) else (n, Nat.pow 2 (-exponent).toNat)

/-- The value as a numerator and a denominator. -/
def toRatio (x : Binary64) : Nat × Nat := scaled x.significand x.exponent

/-- The exponent under which `num / den`, both positive, has a whole part of 53 bits. -/
def exponentOf (num den : Nat) : Int :=
  let guess : Int := (Nat.log2 num : Int) - (Nat.log2 den : Int) - 52
  let (n, d) := scaled num (-guess)
  if n < leading * (d * den) then guess - 1 else guess

/-- The value nearest to `num / den`. -/
def ofRatio (num den : Nat) : Binary64 :=
  if num = 0 then zero
  else
    let e := exponentOf num den
    let (n, d) := scaled num (-e)
    let rounded := roundHalfEven n (d * den)
    if rounded = 2 * leading then ⟨leading, e + 1⟩ else ⟨rounded, e⟩

def ofNat (n : Nat) : Binary64 := ofRatio n 1

def div (x y : Binary64) : Binary64 :=
  ofRatio (x.toRatio.1 * y.toRatio.2) (x.toRatio.2 * y.toRatio.1)

def mul (x y : Binary64) : Binary64 :=
  ofRatio (x.toRatio.1 * y.toRatio.1) (x.toRatio.2 * y.toRatio.2)

/-- The interchange format: the biased exponent above the 52 bits behind the leading one. -/
def toBits (x : Binary64) : Nat :=
  if x.significand = 0 then 0
  else (x.exponent + 1075).toNat * leading + (x.significand - leading)

end Binary64

end WritebackCache.Numeric
