import SwiftReflection.Decode.Window
import SwiftReflection.Pointer.Offset
/-!
# Decoded values

A decoded value mirrors the layout it was read with: integers, flag sets, records, the chosen
arm of a union, unresolved pointers and trailing elements. Records keep their address and size,
so pointers in them can be resolved later against the image they came from.

The typed accessors of `Record` fail with `Error.unknownField` for a missing field and with
`Error.unexpectedValue` for a field of another form.
-/

namespace SwiftReflection

/-- A value decoded from bytes. -/
inductive Value where
  | unsigned (n : Nat)
  | signed (i : Int)
  | flags (raw : Nat) (bits : List FlagBit)
  | record (name : String) (address size : Nat) (fields : List (String × Value))
  | union (arm : String) (discriminant : Nat) (value : Value)
  | pointer (offset : RelOffset) (target : Target)
  | repeated (items : List Value)
  deriving Inhabited

/-- A decoded record: its layout's name, address, size in bytes and fields in order. -/
structure Record where
  name : String
  address : Nat
  size : Nat
  fields : List (String × Value)
  deriving Inhabited

/-- A decoded flag set: the raw integer and the named masks of its layout. -/
structure FlagSet where
  raw : Nat
  bits : List FlagBit

namespace FlagSet

/-- Whether every bit of `mask` is set; a zero mask is always set. -/
def isSet (f : FlagSet) (mask : Nat) : Bool :=
  f.raw &&& mask == mask

/-- Whether the first flag called `name` is set. -/
def contains (f : FlagSet) (name : String) : Bool :=
  match f.bits.find? (fun b => b.name == name) with
  | some b => f.isSet b.mask
  | none => false

/-- Names of the set flags, in declaration order. -/
def setNames (f : FlagSet) : List String :=
  (f.bits.filter (fun b => f.isSet b.mask)).map FlagBit.name

end FlagSet

/-- A pointer value: the stored offset and what it refers to. -/
structure PointerValue where
  offset : RelOffset
  target : Target

/-- The chosen arm of a union. -/
structure UnionValue where
  arm : String
  discriminant : Nat
  value : Value

namespace Value

/-- The value as a record. -/
def ofRecord (r : Record) : Value :=
  .record r.name r.address r.size r.fields

/-- The record a value holds. -/
def asRecord? : Value → Option Record
  | .record n a s fs => some ⟨n, a, s, fs⟩
  | _ => none

/-- A non-negative integer value; a flag set counts by its raw integer. -/
def asNat? : Value → Option Nat
  | .unsigned n => some n
  | .signed i => if 0 ≤ i then some i.toNat else none
  | .flags raw _ => some raw
  | _ => none

/-- The bits a value selects a union arm or sizes a block with: a signed value counts by its
64-bit two's complement. -/
def selectorBits? : Value → Option Nat
  | .signed i => some (bits64 i)
  | v => v.asNat?

end Value

namespace Record

/-- The first field with this name. -/
def get? (r : Record) (name : String) : Option Value :=
  (r.fields.find? (fun f => f.1 == name)).map Prod.snd

/-- The field with this name, or `unknownField` at the record's address. -/
def field (r : Record) (name : String) : Except Error Value :=
  match r.get? name with
  | some v => .ok v
  | none => .error (.unknownField name r.address)

/-- A non-negative integer field. -/
def nat (r : Record) (name : String) : Except Error Nat := do
  match (← r.field name).asNat? with
  | some n => pure n
  | none => throw (.unexpectedValue name "a non-negative integer")

/-- A pointer field. -/
def pointer (r : Record) (name : String) : Except Error PointerValue := do
  match ← r.field name with
  | .pointer o t => pure ⟨o, t⟩
  | _ => throw (.unexpectedValue name "a relative pointer")

/-- A flag-set field. -/
def flagSet (r : Record) (name : String) : Except Error FlagSet := do
  match ← r.field name with
  | .flags raw bits => pure ⟨raw, bits⟩
  | _ => throw (.unexpectedValue name "a flag set")

/-- An embedded record field. -/
def record (r : Record) (name : String) : Except Error Record := do
  match (← r.field name).asRecord? with
  | some sub => pure sub
  | none => throw (.unexpectedValue name "a nested record")

/-- A union field. -/
def union (r : Record) (name : String) : Except Error UnionValue := do
  match ← r.field name with
  | .union a d v => pure ⟨a, d, v⟩
  | _ => throw (.unexpectedValue name "a union")

/-- A trailing block field. -/
def items (r : Record) (name : String) : Except Error (List Value) := do
  match ← r.field name with
  | .repeated vs => pure vs
  | _ => throw (.unexpectedValue name "trailing elements")

end Record

end SwiftReflection
