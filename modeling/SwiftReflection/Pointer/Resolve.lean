import SwiftReflection.Decode.Engine
import SwiftReflection.Image.Basic
import SwiftReflection.Names.Run
/-!
# Resolving pointers in an image

A relative pointer is resolved against the image it was read from. Its target `field + delta`
must be a byte of some section, otherwise it is `Error.pointerOutOfRange`. An indirect pointer's
target holds an absolute pointer of the image's width and byte order, which becomes the
address, while the target is kept as the slot.

From a resolved address one reads a C string (up to its zero byte), a symbolic name run (up to
its end as the name decoder measures it, by default `runExtent?`) or a record of a layout. A
string or run that reaches the end of its section is `Error.bufferTooShort` at its address,
needing one byte more than remains.
-/

namespace SwiftReflection

/-- A resolved pointer: the address, the tag of a tag-packed pointer, and the slot an indirect
pointer was read through. -/
structure Resolved where
  address : Nat
  tag : Option Nat
  slot : Option Nat

namespace Image

/-- A window at `address` in the first section holding it; otherwise `pointerOutOfRange`
reported for `field`. -/
def locate (img : Image) (field address : Nat) : Except Error Window :=
  match (img.sectionContaining? address).bind (·.windowAt? address) with
  | some w => .ok w
  | none => .error (.pointerOutOfRange field address)

/-- Resolves a relative offset within the image. -/
def resolve (img : Image) (o : RelOffset) : Except Error Resolved := do
  let t := o.target
  let some address := (if 0 ≤ t && t ≤ u64Max then some t.toNat else none).filter
      (fun a => (img.sectionContaining? a).isSome)
    | throw (.pointerOutOfRange o.field t)
  if !o.isIndirect then return ⟨address, o.tag?, none⟩
  let w ← img.locate o.field address
  let (absolute, _) ← w.readUInt img.pointerWidth img.order
  return ⟨absolute, o.tag?, some address⟩

/-- A window at `address`; an address in no section is `pointerOutOfRange` of itself. -/
def cursorAt (img : Image) (address : Nat) : Except Error Window :=
  img.locate address address

/-- The bytes of the C string at `address`, before its zero byte. -/
def cString (img : Image) (address : Nat) : Except Error (List UInt8) := do
  let rest := (← img.cursorAt address).rest
  match rest.findIdx? (· == 0) with
  | some n => pure (rest.take n)
  | none => throw (.bufferTooShort address (rest.length + 1) rest.length)

/-- The symbolic name run at `address`, as long as the name decoder measures it. An extent past
the bytes the section has left slices past their end, which panics. -/
def nameRunAt (img : Image) (address : Nat) (names : NameDecoder) : Except Error NameRun := do
  let rest := (← img.cursorAt address).rest
  match names.runExtent rest img.pointerWidth with
  | some n =>
    if n ≤ rest.length then pure ⟨address, rest.take n, img.pointerWidth, img.order⟩
    else throw (.panic (.sliceOverrun n rest.length))
  | none => throw (.bufferTooShort address (rest.length + 1) rest.length)

/-- The display text of a name pointer; pointers to records or untyped bytes have none. -/
def displayName (img : Image) (p : PointerValue) (names : NameDecoder) :
    Except Error String := do
  let r ← img.resolve p.offset
  match p.target with
  | .cstring => return names.decode (Text.decodeLossy (← img.cString r.address))
  | .symbolic => return names.decodeRun (← img.nameRunAt r.address names)
  | _ => throw (.unexpectedValue "pointer target" "a name")

/-- Decodes a record of a layout at the pointer's resolved address. -/
def followAs (img : Image) (o : RelOffset) (l : Layout) : Except Error Record := do
  let r ← img.resolve o
  let w ← img.locate o.field r.address
  return (← l.decodeRecord w).1

/-- Decodes the record a pointer to a layout refers to. -/
def follow (img : Image) (p : PointerValue) : Except Error Record :=
  match p.target with
  | .layout l => img.followAs p.offset l
  | _ => .error (.unexpectedValue "pointer target" "a record layout")

end Image

end SwiftReflection
