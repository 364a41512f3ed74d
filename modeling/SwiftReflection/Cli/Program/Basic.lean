import SwiftReflection.Word
import SwiftReflection.Text.Utf8
/-!
# Running programs

A program that a demangler command starts is described by what it leaves: the bytes it wrote to
standard output and the status it exited with. This module holds that record and the pieces of
text reading that the programs share: digits of a base and the letter escapes of C.
-/

namespace SwiftReflection.Cli

/-- What a finished program left: its exit status and what it wrote to standard output. -/
structure ProgramRun where
  status : Nat
  output : List UInt8

/-- The byte of an ASCII character. -/
def byte (c : Char) : UInt8 := c.toNat.toUInt8

/-- The value of a digit in base 8 or 16. -/
def digitValue (base : Nat) (b : UInt8) : Option Nat :=
  if 0x30 ≤ b && b ≤ 0x39 && b.toNat - 0x30 < base then some (b.toNat - 0x30)
  else if base == 16 && 0x61 ≤ b && b ≤ 0x66 then some (b.toNat - 0x61 + 10)
  else if base == 16 && 0x41 ≤ b && b ≤ 0x46 then some (b.toNat - 0x41 + 10)
  else none

/-- Reads at most `max` digits of a base, adding them to `acc`; returns the value and how many
digits were read. -/
def digitRun (base : Nat) : Nat → Nat → Nat → List UInt8 → Nat × Nat
  | 0, acc, count, _ => (acc, count)
  | _ + 1, acc, count, [] => (acc, count)
  | max + 1, acc, count, b :: rest =>
    match digitValue base b with
    | some d => digitRun base max (acc * base + d) (count + 1) rest
    | none => (acc, count)

/-- The control character a letter escape stands for: `\a`, `\b`, `\e`, `\f`, `\n`, `\r`,
`\t` and `\v`. -/
def letterEscape? (c : UInt8) : Option UInt8 :=
  if c == byte 'a' then some 7
  else if c == byte 'b' then some 8
  else if c == byte 'e' then some 27
  else if c == byte 'f' then some 12
  else if c == byte 'n' then some 10
  else if c == byte 'r' then some 13
  else if c == byte 't' then some 9
  else if c == byte 'v' then some 11
  else none

end SwiftReflection.Cli
