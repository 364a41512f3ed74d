import SwiftReflection.Extended.Basic
/-!
# Reading extended numbers from text

A number is read as C reads a floating number: leading white space, an optional sign, then a
decimal number (digits with an optional point and an optional exponent `e` with decimal
digits), a hexadecimal one (`0x`, hexadecimal digits with an optional point, and an optional
binary exponent `p` with decimal digits), `inf` or `infinity`, or `nan` with an optional
parenthesized run of letters, digits and underscores. Letters in these words and prefixes may
be of either case. An exponent marker without digits after it is not part of the number, and
`0x` without a hexadecimal digit after it reads as just the `0`. Text that starts no number
reads as zero with nothing used.

`Extended.read` gives the value, how many bytes it used, and whether the value is out of range;
a conversion succeeds when it used the whole text and stayed in range.
-/

namespace SwiftReflection

namespace Extended

/-- What reading a number from text gives. -/
structure Reading where
  value : Extended
  used : Nat
  outOfRange : Bool := false

/-- Whether a byte is C white space. -/
def isSpace (b : UInt8) : Bool :=
  b == 0x20 || (0x09 ≤ b && b ≤ 0x0D)

/-- The value of a digit of a base up to 16, either case. -/
def digitOf? (base : Nat) (b : UInt8) : Option Nat :=
  let v :=
    if 0x30 ≤ b && b ≤ 0x39 then some (b.toNat - 0x30)
    else if 0x61 ≤ b && b ≤ 0x66 then some (b.toNat - 0x61 + 10)
    else if 0x41 ≤ b && b ≤ 0x46 then some (b.toNat - 0x41 + 10)
    else none
  v.bind fun d => if d < base then some d else none

/-- The leading digits of a base. -/
def digitsOf (base : Nat) (bs : List UInt8) : List Nat :=
  (bs.takeWhile fun b => (digitOf? base b).isSome).filterMap (digitOf? base)

/-- The number the digits of a base stand for. -/
def valueOf (base : Nat) (ds : List Nat) : Nat :=
  ds.foldl (fun acc d => acc * base + d) 0

/-- The lowercase form of an ASCII letter. -/
def lower (b : UInt8) : UInt8 :=
  if 0x41 ≤ b && b ≤ 0x5A then b + 0x20 else b

/-- Whether the text starts with a word, letters in either case. -/
def startsWithWord (bs : List UInt8) (word : String) : Bool :=
  let w := word.toUTF8.toList
  (bs.take w.length).map lower == w

/-- An exponent after its marker: an optional sign and at least one decimal digit. Gives the
exponent and how many bytes it used, or nothing when no digit follows. -/
def exponentPart (bs : List UInt8) : Option (Int × Nat) :=
  let (negative, rest, signLen) := match bs with
    | 0x2D :: r => (true, r, 1)
    | 0x2B :: r => (false, r, 1)
    | r => (false, r, 0)
  let ds := digitsOf 10 rest
  if ds.isEmpty then none
  else
    let v : Int := valueOf 10 ds
    some (if negative then -v else v, signLen + ds.length)

/-- The optional exponent after a mantissa: its value and the bytes it used. -/
def exponentAfter (markers : List UInt8) (bs : List UInt8) : Int × Nat :=
  match bs with
  | m :: rest =>
    if markers.contains m then
      match exponentPart rest with
      | some (x, k) => (x, k + 1)
      | none => (0, 0)
    else (0, 0)
  | [] => (0, 0)

/-- A mantissa of a base: integer digits, then an optional point and fraction digits. Gives the
digits, how many of them follow the point, and the bytes used. -/
def mantissa (base : Nat) (bs : List UInt8) : List Nat × Nat × Nat :=
  let whole := digitsOf base bs
  let rest := bs.drop whole.length
  match rest with
  | 0x2E :: more =>
    let frac := digitsOf base more
    (whole ++ frac, frac.length, whole.length + 1 + frac.length)
  | _ => (whole, 0, whole.length)

/-- The value `digits * 2 ^ binary * 10 ^ decimal`, rounded, with its range checked first so that
a huge exponent costs nothing: far above the format it overflows, far below it is an inexact
zero. -/
def ofDigits (negative : Bool) (n : Nat) (binary decimal : Int) : Extended × Bool :=
  if n = 0 then (.finite negative 0 0, false)
  else
    -- bounds on the binary magnitude: log2 10 is below 3.33
    let low := (bitLength n : Int) - 1 + binary + (if decimal ≥ 0 then 3 * decimal else 4 * decimal)
    let high := (bitLength n : Int) + binary + (if decimal ≥ 0 then 4 * decimal else 3 * decimal)
    if low > 16400 then (.infinite negative, true)
    else if high < -16500 then (.finite negative 0 leastExponent, true)
    else
      let (num, den) := fraction n binary decimal
      ofFraction negative num den

/-- A `nan` with an optional parenthesized run of letters, digits and underscores: the bytes
used after `nan`. -/
def nanTail (bs : List UInt8) : Nat :=
  match bs with
  | 0x28 :: rest =>
    let body := rest.takeWhile fun b =>
      (0x30 ≤ b && b ≤ 0x39) || (0x41 ≤ b && b ≤ 0x5A) || (0x61 ≤ b && b ≤ 0x7A) || b == 0x5F
    if (rest.drop body.length).head? == some 0x29 then body.length + 2 else 0
  | _ => 0

/-- Reads a number from the start of a text. -/
def read (bs : List UInt8) : Reading :=
  let blanks := (bs.takeWhile isSpace).length
  let afterBlanks := bs.drop blanks
  let (negative, t, signLen) := match afterBlanks with
    | 0x2D :: r => (true, r, 1)
    | 0x2B :: r => (false, r, 1)
    | r => (false, r, 0)
  let lead := blanks + signLen
  match t with
  | 0x30 :: x :: rest =>
    if lower x == 0x78 then
      let (ds, fracLen, used) := mantissa 16 rest
      if ds.isEmpty then { value := .finite negative 0 0, used := lead + 1 }
      else
        let (p, pLen) := exponentAfter [0x70, 0x50] (rest.drop used)
        let (v, out) := ofDigits negative (valueOf 16 ds) (p - 4 * fracLen) 0
        { value := v, used := lead + 2 + used + pLen, outOfRange := out }
    else decimal negative lead t
  | _ => decimal negative lead t
where
  /-- A decimal number, or a word, after the sign. -/
  decimal (negative : Bool) (lead : Nat) (t : List UInt8) : Reading :=
    let (ds, fracLen, used) := mantissa 10 t
    if ds.isEmpty then
      if startsWithWord t "inf" then
        { value := .infinite negative, used := lead + (if startsWithWord t "infinity" then 8 else 3) }
      else if startsWithWord t "nan" then
        { value := .nan negative, used := lead + 3 + nanTail (t.drop 3) }
      else { value := .finite false 0 0, used := 0 }
    else
      let (x, xLen) := exponentAfter [0x65, 0x45] (t.drop used)
      let (v, out) := ofDigits negative (valueOf 10 ds) 0 (x - fracLen)
      { value := v, used := lead + used + xLen, outOfRange := out }

/-- Whether a conversion of a whole text succeeds: every byte is used and the value is in
range. -/
def Reading.complete (r : Reading) (bs : List UInt8) : Bool :=
  r.used == bs.length && !r.outOfRange

end Extended

end SwiftReflection
