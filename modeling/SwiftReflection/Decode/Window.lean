import SwiftReflection.Error
import SwiftReflection.Layout.Basic
/-!
# Byte windows

A window is a read position in a byte buffer whose first byte lives at address `origin` of an
image. Reads never change a window: each returns the bytes or value read together with a window
placed after them. Every read first checks that enough bytes remain and otherwise fails with
`Error.bufferTooShort` at the read's address, so nothing is ever read past the end. An integer
is at most eight bytes wide: a wider read stops with `Panic.wideRead` once its bytes are there.

Addresses are `origin + pos`, kept within 64 bits by saturating at `u64Max`.
-/

namespace SwiftReflection

/-- The value of bytes as an unsigned integer in the given byte order. -/
def ByteOrder.assemble : ByteOrder → List UInt8 → Nat
  | .little, bs => bs.foldr (fun b acc => acc * 256 + b.toNat) 0
  | .big, bs => bs.foldl (fun acc b => acc * 256 + b.toNat) 0

/-- Assembles bytes into an unsigned 64-bit integer in the given byte order. The assembly shifts
a 64-bit word a byte at a time, so of more than eight bytes only the low 64 bits of the value
are kept. -/
def ByteOrder.readUInt (order : ByteOrder) (bs : List UInt8) : Nat :=
  order.assemble bs % pow2 64

/-- The two's-complement value of the low `width` bytes of `raw`. -/
def signExtend (width raw : Nat) : Int :=
  if raw < pow2 (8 * width - 1) then raw else (raw : Int) - (pow2 (8 * width) : Int)

/-- The 64-bit two's-complement bits of an integer. -/
def bits64 (i : Int) : Nat :=
  (i % (pow2 64 : Int)).toNat

/-- A read position in a buffer that starts at address `origin`. -/
structure Window where
  data : ByteArray
  origin : Nat := 0
  pos : Nat := 0

namespace Window

/-- Address of the next byte to read, saturating at `u64Max`. -/
def address (w : Window) : Nat :=
  min (w.origin + w.pos) u64Max

/-- Bytes left before the end of the buffer. -/
def remaining (w : Window) : Nat :=
  w.data.size - w.pos

/-- The unread bytes. -/
def rest (w : Window) : List UInt8 :=
  (w.data.extract w.pos w.data.size).toList

/-- Fails with `bufferTooShort` unless `needed` bytes remain. -/
def ensure (w : Window) (needed : Nat) : Except Error Unit :=
  if w.remaining < needed then .error (.bufferTooShort w.address needed w.remaining)
  else .ok ()

/-- Splits off the next `n` bytes. -/
def take (w : Window) (n : Nat) : Except Error (List UInt8 × Window) := do
  w.ensure n
  pure ((w.data.extract w.pos (w.pos + n)).toList, { w with pos := w.pos + n })

/-- Skips `n` bytes. -/
def advance (w : Window) (n : Nat) : Except Error Window := do
  w.ensure n
  pure { w with pos := w.pos + n }

/-- Reads an unsigned integer of `width` bytes. The bytes are taken first; assembling more than
eight of them fails the debug assertion of the assembly. -/
def readUInt (w : Window) (width : Nat) (order : ByteOrder) : Except Error (Nat × Window) := do
  let (bs, next) ← w.take width
  if width ≤ 8 then pure (order.readUInt bs, next) else .error (.panic .wideRead)

/-- Reads a 32-bit word, the stored form of a relative pointer. -/
def readWord (w : Window) (order : ByteOrder) : Except Error (UInt32 × Window) := do
  let (raw, next) ← w.readUInt 4 order
  pure (raw.toUInt32, next)

end Window

end SwiftReflection
