import SwiftReflection.Layout.Basic
/-!
# Relative offsets

A relative pointer is a signed 32-bit distance from the pointer's own field. Its low bits may
hold an indirection flag (bit 0 of an indirectable pointer: the target holds an absolute pointer
to follow) and, for a tag-packed pointer, a small tag above that flag. The distance itself is
the word with those low bits cleared: `delta`. The target is `field + delta`.
-/

namespace SwiftReflection

/-- The low `count` bits of a 32-bit word, all of them from 32 on. -/
def lowBits (count : Nat) : UInt32 :=
  if count < 32 then (pow2 count - 1).toUInt32 else 0xFFFFFFFF

/-- A 32-bit word read as a two's-complement integer. -/
def signed32 (x : UInt32) : Int :=
  if x.toNat < pow2 31 then x.toNat else (x.toNat : Int) - (pow2 32 : Int)

namespace PointerKind

/-- Whether bit 0 signals one further dereference. -/
def indirectable? : PointerKind → Bool
  | .indirectable => true
  | .tagPacked _ ind => ind
  | .direct => false

/-- The low bits that are not part of the distance. -/
def lowMask : PointerKind → UInt32
  | .direct => 0
  | .indirectable => 1
  | .tagPacked t ind => lowBits (t + if ind then 1 else 0)

end PointerKind

/-- A pointer field as stored: where it is, its raw word, and how the word is read. -/
structure RelOffset where
  field : Nat
  raw : UInt32
  kind : PointerKind
  deriving DecidableEq, Repr, Inhabited

namespace RelOffset

/-- The stored word with the flag and tag bits cleared. -/
def deltaBits (o : RelOffset) : UInt32 :=
  o.raw &&& ~~~o.kind.lowMask

/-- The signed distance from the field to the target. -/
def delta (o : RelOffset) : Int :=
  signed32 o.deltaBits

/-- The raw word as a signed integer. -/
def rawValue (o : RelOffset) : Int :=
  signed32 o.raw

/-- A pointer whose distance is zero refers to nothing. -/
def isNull (o : RelOffset) : Bool :=
  o.deltaBits == 0

/-- Whether the target holds an absolute pointer to follow. -/
def isIndirect (o : RelOffset) : Bool :=
  o.kind.indirectable? && (o.raw &&& 1) == 1

/-- The tag of a tag-packed pointer: the bits above the indirection flag. -/
def tag? (o : RelOffset) : Option Nat :=
  match o.kind with
  | .tagPacked t ind => some ((o.raw >>> (if ind then 1 else 0)) &&& lowBits t).toNat
  | _ => none

/-- The address the pointer leads to, before any indirection. -/
def target (o : RelOffset) : Int :=
  o.field + o.delta

end RelOffset

end SwiftReflection
