/-! Numbers as text. A numeral is written in a radix of at most sixteen with the digits `0` to `9` and
`a` to `f`; letters are read in either case. A reader may meet a plus sign in front, and a byte
string is a row of two-digit numerals. -/

namespace WritebackCache.Numeral

def digitValue? (c : Char) : Option Nat :=
  if '0' ≤ c ∧ c ≤ '9' then some (c.toNat - '0'.toNat)
  else if 'a' ≤ c ∧ c ≤ 'f' then some (c.toNat - 'a'.toNat + 10)
  else if 'A' ≤ c ∧ c ≤ 'F' then some (c.toNat - 'A'.toNat + 10)
  else none

def digit? (radix : Nat) (c : Char) : Option Nat :=
  (digitValue? c).filter (· < radix)

/-- The value of digits that follow a number `value` already read. -/
def extend? (radix : Nat) : Nat → List Char → Option Nat
  | value, [] => some value
  | value, c :: cs => (digit? radix c).bind fun d => extend? radix (radix * value + d) cs

/-- At least one digit, and nothing but digits. -/
def natural? (radix : Nat) : List Char → Option Nat
  | [] => none
  | c :: cs => extend? radix 0 (c :: cs)

/-- A numeral with at most one plus sign in front. -/
def unsigned? (radix : Nat) : List Char → Option Nat
  | '+' :: cs => natural? radix cs
  | cs => natural? radix cs

def word? (radix : Nat) (cs : List Char) : Option UInt64 :=
  (unsigned? radix cs).bind fun n => if n < UInt64.size then some (.ofNat n) else none

/-- Two characters a byte, each pair a numeral of radix sixteen. -/
def bytes? : List Char → Option (List UInt8)
  | [] => some []
  | [_] => none
  | a :: b :: cs => (unsigned? 16 [a, b]).bind fun n => (bytes? cs).map (UInt8.ofNat n :: ·)

def decimal (n : Nat) : String := String.ofList (Nat.toDigits 10 n)

def hex (n : Nat) : String := "0x" ++ String.ofList (Nat.toDigits 16 n)

/-- The two digits of a byte, the high half first. -/
def ofByte (b : UInt8) : List Char :=
  [Nat.digitChar (b.toNat / 16), Nat.digitChar (b.toNat % 16)]

def ofBytes (bytes : List UInt8) : String := String.ofList (bytes.flatMap ofByte)

end WritebackCache.Numeral
