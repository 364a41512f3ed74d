import SwiftReflection.Layout.Problem
/-!
# Errors

Every failure of decoding, resolving, scanning or reading a container is one of these causes.
`Error.message` gives the text, `Error.offset?` the address the failure is about when there is
one, and `Error.recoverable` tells failures caused by corrupt input (a scan may skip past them)
from misuse of the library.

`Error.panic` is no failure the library reports: it is a debug-build check that stops the
operation, an arithmetic overflow or a failed assertion. It ends the operation where it arises,
so every operation that meets one fails with it.
-/

namespace SwiftReflection

/-- A check of a debug build that stops an operation. -/
inductive Panic where
  /-- A right shift of a 64-bit word by 64 bits or more. -/
  | shiftOverflow
  /-- The assertion that at most eight bytes are assembled into a 64-bit word. -/
  | wideRead
  /-- Bytes sliced up to `stop`, past their `length`. -/
  | sliceOverrun (stop length : Nat)
  deriving DecidableEq, Repr

/-- The text of a panic. -/
def Panic.message : Panic → String
  | shiftOverflow => "attempt to shift right with overflow"
  | wideRead => "assertion failed: bytes.len() <= 8"
  | sliceOverrun stop length => s!"range end index {stop} out of range for slice of length {length}"

/-- Why an operation failed. -/
inductive Error where
  /-- Fewer than `needed` bytes remain at `offset`. -/
  | bufferTooShort (offset needed available : Nat)
  /-- No arm of the union `field` at `offset` has the discriminant `value`. -/
  | discriminantUnsupported (field : String) (value : Nat) (offset : Nat)
  /-- The pointer at `fieldAddress` leads to `target`, which lies in no section of the image. -/
  | pointerOutOfRange (fieldAddress : Nat) (target : Int)
  /-- A section in a metadata namespace has no known role. -/
  | unrecognizedSection (name : String)
  /-- A layout was refused. -/
  | invalidLayout (layout : String) (problem : LayoutProblem)
  /-- A field that should select or size something is missing at `offset`. -/
  | unknownField (name : String) (offset : Nat)
  /-- A trailing block's stride is smaller than its element. -/
  | invalidStride (stride offset elementSize : Nat)
  /-- No image with this number is loaded. -/
  | unknownImage (index : Nat)
  /-- A decoded value does not have the expected form. -/
  | unexpectedValue (field expected : String)
  /-- A file is not a container that can be read. -/
  | fileFormat (path details : String)
  /-- A file could not be read. -/
  | fileRead (path details : String)
  /-- A debug-build check stopped the operation. -/
  | panic (cause : Panic)
  deriving DecidableEq, Repr

namespace Error

/-- The text of an error. -/
def message : Error → String
  | bufferTooShort o n a =>
    "buffer too short at " ++ Text.hex o ++ s!": need {n} bytes, {a} available"
  | discriminantUnsupported f v o =>
    "unsupported discriminant " ++ Text.hex v ++ s!" for union '{f}' at " ++ Text.hex o
  | pointerOutOfRange a t =>
    "relative pointer at " ++ Text.hex a ++ " resolves to " ++ Text.hexInt t ++
      ", outside the image"
  | unrecognizedSection n => s!"unrecognized section '{n}'"
  | invalidLayout l p => s!"invalid layout '{l}': " ++ p.message
  | unknownField n o => s!"field '{n}' is not available at " ++ Text.hex o
  | invalidStride s o e =>
    s!"stride {s} at " ++ Text.hex o ++ s!" is smaller than element size {e}"
  | unknownImage n => s!"image {n} is not loaded"
  | unexpectedValue f e => s!"unexpected value for '{f}': expected {e}"
  | fileFormat p d => s!"failed to parse object file '{p}': {d}"
  | fileRead p d => s!"failed to read file '{p}': {d}"
  | panic p => p.message

/-- The address a failure is about, when it has one. -/
def offset? : Error → Option Nat
  | bufferTooShort o _ _ => some o
  | discriminantUnsupported _ _ o => some o
  | pointerOutOfRange a _ => some a
  | unknownField _ o => some o
  | invalidStride _ o _ => some o
  | _ => none

/-- Whether the failure comes from corrupt input rather than from misuse. -/
def recoverable : Error → Bool
  | bufferTooShort .. | discriminantUnsupported .. | pointerOutOfRange .. => true
  | invalidStride .. | unrecognizedSection .. | unexpectedValue .. => true
  | _ => false

end Error

end SwiftReflection
