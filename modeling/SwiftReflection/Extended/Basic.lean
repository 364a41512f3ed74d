import SwiftReflection.Word
/-!
# Extended-precision binary numbers

The numbers `printf` reads for its floating conversions are values of the 80-bit extended
format: a sign, a 64-bit significand and a binary exponent. A finite value is
`significand * 2 ^ exponent`; it is normal when its significand has its top bit set, and
subnormal (or zero) when its exponent is the least one, `-16445`. The largest finite value is
below `2 ^ 16384`.

`Extended.ofFraction` rounds a positive fraction to the nearest value, ties to the even
significand, and says whether the result is out of range: too large, or below the normal range
and inexact. All arithmetic is exact, on natural numbers.
-/

namespace SwiftReflection

/-- A value of the 80-bit extended format. -/
inductive Extended where
  /-- `significand * 2 ^ exponent`, with the sign apart (so there is a negative zero). -/
  | finite (negative : Bool) (significand : Nat) (exponent : Int)
  | infinite (negative : Bool)
  | nan (negative : Bool)

namespace Extended

/-- Powers of ten. -/
def pow10 (n : Nat) : Nat := Nat.pow 10 n

/-- The number of binary digits of `n`; zero has none. -/
def bitLength (n : Nat) : Nat := if n = 0 then 0 else n.log2 + 1

/-- The least exponent: the quantum of subnormal values. -/
def leastExponent : Int := -16445

/-- The least significand of a normal value. -/
def normalSignificand : Nat := pow2 63

/-- `m * 2 ^ e * 10 ^ k` as a numerator and a denominator. -/
def fraction (m : Nat) (e k : Int) : Nat × Nat :=
  (m * pow2 e.toNat * pow10 k.toNat, pow2 (-e).toNat * pow10 (-k).toNat)

/-- `n / d` rounded to the nearest natural number, ties to the even one. -/
def divRoundEven (n d : Nat) : Nat :=
  let q := n / d
  let r := n % d
  if 2 * r > d || (2 * r == d && q % 2 == 1) then q + 1 else q

/-- `m * 2 ^ e * 10 ^ k` rounded to the nearest natural number, ties to the even one. -/
def scaledRound (m : Nat) (e k : Int) : Nat :=
  let (n, d) := fraction m e k
  divRoundEven n d

/-- The integer part of `num / (den * 2 ^ e)`. -/
def quotientAt (num den : Nat) (e : Int) : Nat :=
  num * pow2 (-e).toNat / (den * pow2 e.toNat)

/-- Moves `e` until `num / (den * 2 ^ e)` has 64 binary digits, in at most `fuel` steps. -/
def fitExponent (num den : Nat) : Nat → Int → Int
  | 0, e => e
  | fuel + 1, e =>
    let q := quotientAt num den e
    if q ≥ pow2 64 then fitExponent num den fuel (e + 1)
    else if q < normalSignificand then fitExponent num den fuel (e - 1)
    else e

/-- Rounds the positive fraction `num / den` to the nearest extended value, ties to even, and
tells whether it is out of range: too large for the format, or below the normal range and not
exact. -/
def ofFraction (negative : Bool) (num den : Nat) : Extended × Bool :=
  let start : Int := (bitLength num : Int) - bitLength den - 64
  let e := max (fitExponent num den 4 start) leastExponent
  let n := num * pow2 (-e).toNat
  let d := den * pow2 e.toNat
  let m := divRoundEven n d
  let exact := n % d == 0
  let (m, e) := if m == pow2 64 then (normalSignificand, e + 1) else (m, e)
  if e > 16320 then (.infinite negative, true)
  else (.finite negative m e, m < normalSignificand && !exact)

/-- Whether `m * 2 ^ e` is at least `10 ^ x`. -/
def atLeastPow10 (m : Nat) (e x : Int) : Bool :=
  let (n, d) := fraction m e (-x)
  n ≥ d

/-- Corrects an estimate of a decimal exponent by at most `fuel` steps. -/
def settleExponent (m : Nat) (e : Int) : Nat → Int → Int
  | 0, x => x
  | fuel + 1, x =>
    if !atLeastPow10 m e x then settleExponent m e fuel (x - 1)
    else if atLeastPow10 m e (x + 1) then settleExponent m e fuel (x + 1)
    else x

/-- The decimal exponent of a positive `m * 2 ^ e`: the `x` with
`10 ^ x ≤ m * 2 ^ e < 10 ^ (x + 1)`. The estimate from the binary length is off by at most
one. -/
def decimalExponent (m : Nat) (e : Int) : Int :=
  settleExponent m e 8 ((((bitLength m : Int) - 1 + e) * 30103) / 100000)

end Extended

end SwiftReflection
