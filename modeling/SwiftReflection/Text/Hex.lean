import SwiftReflection.Word
/-!
# Number text

Addresses and values in messages are written as `0x` followed by lowercase hexadecimal digits.
A negative pointer target is written as its 128-bit two's complement, and the command line's
section table uses fixed-width columns padded with zeros or blanks.
-/

namespace SwiftReflection.Text

/-- Lowercase hexadecimal digits of `n`, most significant first, with no prefix. -/
def hexDigits (n : Nat) : String :=
  String.ofList (Nat.toDigits 16 n)

/-- `n` written as `0x` and its lowercase hexadecimal digits. -/
def hex (n : Nat) : String :=
  "0x" ++ hexDigits n

/-- An integer in hexadecimal; a negative one is written as its 128-bit two's complement. -/
def hexInt (i : Int) : String :=
  if i < 0 then hex ((pow2 128 : Int) + i).toNat else hex i.toNat

/-- `c` repeated `n` times. -/
def replicate (n : Nat) (c : Char) : String :=
  String.ofList (List.replicate n c)

/-- Pads `s` on the left with `c` up to `width` characters; a longer text is kept whole. -/
def padLeft (width : Nat) (c : Char) (s : String) : String :=
  replicate (width - s.length) c ++ s

/-- Pads `s` on the right with blanks up to `width` characters; a longer text is kept whole. -/
def padRight (width : Nat) (s : String) : String :=
  s ++ replicate (width - s.length) ' '

/-- `n` as `0x` and at least `width - 2` hexadecimal digits, so that the whole is `width` wide. -/
def hexPadded (width n : Nat) : String :=
  "0x" ++ padLeft (width - 2) '0' (hexDigits n)

end SwiftReflection.Text
