import SwiftReflection.Extended.Basic
/-!
# Writing extended numbers

The floating conversions write a value in fixed notation (`f`), exponent notation (`e`), the
shorter of the two with trailing zeros removed (`g`), or hexadecimal notation (`a`). Decimal
digits are exact: the value is rounded to the digits asked for, ties to the even digit.

Exponent notation has one digit before the point and an exponent of at least two digits. The
general notation with precision `P` (one when zero) uses fixed notation when the exponent `X`
of the exponent notation with `P - 1` digits has `-4 ≤ X < P`, with `P - 1 - X` digits after the
point, and exponent notation otherwise; without the `#` flag it drops trailing zeros of the
fraction and a point left bare.

Hexadecimal notation writes the 64-bit significand as it is stored: a leading digit holding its
top four bits, then the other fifteen digits without trailing zeros, and a binary exponent
that counts from the leading digit. A subnormal value has the exponent `-16385`. With a
precision, the digits are rounded to nearest, ties to even; a carry out of the leading digit
`f` makes it `1` and adds four to the exponent.

The point is written when digits follow it or the `#` flag asks for it. Infinities and NaNs are
`inf` and `nan`, in capitals for the capital conversions.
-/

namespace SwiftReflection

namespace Extended

/-- The parts of a written value: its sign, a marker before the digits (`0x` for hexadecimal),
and the digits. Zeros that fill a width go between the marker and the digits, and only finite
values take them. -/
structure Written where
  sign : List UInt8
  marker : List UInt8
  digits : List UInt8
  finite : Bool

/-- The ASCII bytes of a text. -/
def bytesOf (s : String) : List UInt8 := s.toUTF8.toList

/-- The decimal digits of a natural number. -/
def decimalBytes (n : Nat) : List UInt8 :=
  (Nat.toDigits 10 n).map fun c => c.toNat.toUInt8

/-- A hexadecimal digit, lowercase or uppercase. -/
def hexDigit (upper : Bool) (d : Nat) : UInt8 :=
  if d < 10 then (0x30 + d).toUInt8
  else ((if upper then 0x41 else 0x61) + d - 10).toUInt8

/-- The point, when digits follow it or it is asked for. -/
def point (shown : Bool) : List UInt8 := if shown then [0x2E] else []

/-- Fixed notation of `m * 2 ^ e` with `p` digits after the point. -/
def fixedDigits (m : Nat) (e : Int) (p : Nat) (alt : Bool) : List UInt8 :=
  let ds := decimalBytes (scaledRound m e p)
  let ds := List.replicate (p + 1 - ds.length) 0x30 ++ ds
  ds.take (ds.length - p) ++ point (p > 0 || alt) ++ ds.drop (ds.length - p)

/-- The `p + 1` significant digits of `m * 2 ^ e` and its decimal exponent, after rounding. -/
def significantDigits (m : Nat) (e : Int) (p : Nat) : List UInt8 × Int :=
  if m = 0 then (List.replicate (p + 1) 0x30, 0)
  else
    let x := decimalExponent m e
    let r := scaledRound m e ((p : Int) - x)
    if r ≥ pow10 (p + 1) then (decimalBytes (scaledRound m e ((p : Int) - (x + 1))), x + 1)
    else (decimalBytes r, x)

/-- An exponent: its marker letter, sign and at least two digits. -/
def exponentText (letter : UInt8) (x : Int) : List UInt8 :=
  let ds := decimalBytes x.natAbs
  letter :: (if x < 0 then 0x2D else 0x2B) :: (List.replicate (2 - ds.length) 0x30 ++ ds)

/-- Exponent notation of `m * 2 ^ e` with `p` digits after the point. -/
def exponentDigits (upper : Bool) (m : Nat) (e : Int) (p : Nat) (alt : Bool) : List UInt8 :=
  let (ds, x) := significantDigits m e p
  ds.take 1 ++ point (p > 0 || alt) ++ ds.drop 1 ++ exponentText (if upper then 0x45 else 0x65) x

/-- Drops trailing zeros after a point, and the point when nothing follows it. -/
def dropTrailingZeros (ds : List UInt8) : List UInt8 :=
  if ds.contains 0x2E then
    let kept := (ds.reverse.dropWhile (· == 0x30)).reverse
    if kept.getLast? == some 0x2E then kept.dropLast else kept
  else ds

/-- General notation of `m * 2 ^ e` with precision `precision`. -/
def generalDigits (upper : Bool) (m : Nat) (e : Int) (precision : Nat) (alt : Bool) :
    List UInt8 :=
  let p := if precision = 0 then 1 else precision
  let x := (significantDigits m e (p - 1)).2
  if x < p && -4 ≤ x then
    let ds := fixedDigits m e (p - 1 - x).toNat alt
    if alt then ds else dropTrailingZeros ds
  else
    let ds := exponentDigits upper m e (p - 1) alt
    if alt then ds
    else
      let mant := ds.takeWhile fun b => b != 0x45 && b != 0x65
      dropTrailingZeros mant ++ ds.drop mant.length

/-- Brings a nonzero significand to the normal range, or to the least exponent. -/
def normalize : Nat → Nat → Int → Nat × Int
  | 0, m, e => (m, e)
  | fuel + 1, m, e =>
    if m < normalSignificand && e > leastExponent then normalize fuel (2 * m) (e - 1) else (m, e)

/-- The hexadecimal digits of `n`, exactly `count` of them. -/
def hexValues (count n : Nat) : List Nat :=
  (List.range count).reverse.map fun i => n / Nat.pow 16 i % 16

/-- Hexadecimal notation of `m * 2 ^ e`, with all significant digits or `precision` of them. -/
def hexadecimalDigits (upper : Bool) (m : Nat) (e : Int) (precision : Option Nat) (alt : Bool) :
    List UInt8 :=
  let letter : UInt8 := if upper then 0x50 else 0x70
  if m = 0 then
    let p := precision.getD 0
    [0x30] ++ point (p > 0 || alt) ++ List.replicate p 0x30 ++ [letter, 0x2B, 0x30]
  else
    let (m, e) := normalize 64 m e
    let x : Int := if m < normalSignificand then -16385 else e + 60
    let all := hexValues 16 m
    let leading := all.headD 0
    let rest := (all.drop 1).reverse.dropWhile (· == 0) |>.reverse
    let (leading, shown, x) := match precision with
      | none => (leading, rest, x)
      | some p =>
        if p < rest.length then
          let last := if p > 0 then rest.getD (p - 1) 0 else leading
          let next := rest.getD p 0
          let more := next % 8 != 0 || p + 1 < rest.length
          let kept := rest.take p
          if next ≥ 8 && (last % 2 == 1 || more) then
            let v := kept.foldl (fun acc d => acc * 16 + d) 0 + 1
            if v == Nat.pow 16 p then
              if leading == 15 then (1, List.replicate p 0, x + 4)
              else (leading + 1, List.replicate p 0, x)
            else (leading, hexValues p v, x)
          else (leading, kept, x)
        else (leading, rest ++ List.replicate (p - rest.length) 0, x)
    hexDigit upper leading :: point (!shown.isEmpty || alt) ++ shown.map (hexDigit upper)
      ++ [letter, if x < 0 then 0x2D else 0x2B] ++ decimalBytes x.natAbs

/-- Writes a value for a floating conversion letter (`a`, `e`, `f`, `g` or a capital), with a
precision (six when absent, except for `a`) and the flags `+`, blank and `#`. -/
def write (conversion : UInt8) (precision : Option Nat) (plus blank alt : Bool) (v : Extended) :
    Written :=
  let upper := 0x41 ≤ conversion && conversion ≤ 0x5A
  let kind := if upper then conversion + 0x20 else conversion
  let signOf (negative : Bool) : List UInt8 :=
    if negative then [0x2D] else if plus then [0x2B] else if blank then [0x20] else []
  match v with
  | .infinite negative => ⟨signOf negative, [], bytesOf (if upper then "INF" else "inf"), false⟩
  | .nan negative => ⟨signOf negative, [], bytesOf (if upper then "NAN" else "nan"), false⟩
  | .finite negative m e =>
    let p := precision.getD 6
    if kind == 0x61 then
      ⟨signOf negative, [0x30, if upper then 0x58 else 0x78],
        hexadecimalDigits upper m e precision alt, true⟩
    else if kind == 0x65 then ⟨signOf negative, [], exponentDigits upper m e p alt, true⟩
    else if kind == 0x67 then ⟨signOf negative, [], generalDigits upper m e p alt, true⟩
    else ⟨signOf negative, [], fixedDigits m e p alt, true⟩

end Extended

end SwiftReflection
