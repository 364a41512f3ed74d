import SwiftReflection.Word
/-!
# Record layouts

A layout describes the fixed-format fields of one record, in declaration order: integers, flag
sets, unions chosen by an earlier integer, embedded records, 32-bit self-relative pointers, and
blocks of repeated elements whose count comes from the record's own header.

Every layout carries its byte order. `Node.fixedSize` is the number of bytes a node takes in a
record's fixed part: a union takes its largest arm, a trailing block takes nothing.
-/

namespace SwiftReflection

/-- Order of the bytes of a multi-byte integer. -/
inductive ByteOrder where
  | little
  | big
  deriving DecidableEq, Repr, Inhabited

/-- Width and signedness of an integer field. -/
inductive ScalarKind where
  | u8 | u16 | u32 | u64
  | i8 | i16 | i32 | i64
  deriving DecidableEq, Repr, Inhabited

namespace ScalarKind

/-- Width of the integer in bytes. -/
def width : ScalarKind → Nat
  | u8 | i8 => 1
  | u16 | i16 => 2
  | u32 | i32 => 4
  | u64 | i64 => 8

/-- Whether the integer is read as two's complement. -/
def signed : ScalarKind → Bool
  | i8 | i16 | i32 | i64 => true
  | _ => false

end ScalarKind

/-- A named mask within a flag set. -/
structure FlagBit where
  name : String
  mask : Nat
  deriving DecidableEq, Repr, Inhabited

/-- How a self-relative pointer stores its target. A tag-packed pointer keeps a small tag in
its low bits, above the indirection bit when it has one. -/
inductive PointerKind where
  | direct
  | indirectable
  | tagPacked (tagBits : Nat) (indirectable : Bool)
  deriving DecidableEq, Repr, Inhabited

/-- Where a union looks up the field that selects its arm: among the earlier fields of its own
record, or in the records enclosing it, nearest first. -/
inductive Scope where
  | current
  | enclosing
  deriving DecidableEq, Repr, Inhabited

/-- The field that selects a union's arm and how its value is narrowed: the arm is chosen by
`(value &&& mask) >>> shift`. -/
structure Selector where
  field : String
  scope : Scope := .current
  mask : Nat := u64Max
  shift : Nat := 0
  deriving DecidableEq, Repr, Inhabited

mutual

/-- The shape of one field. -/
inductive Node where
  | scalar (kind : ScalarKind)
  | flags (kind : ScalarKind) (bits : List FlagBit)
  | union (selector : Selector) (arms : List Arm)
  | nested (layout : Layout)
  | pointer (kind : PointerKind) (target : Target)
  | trailing (count : String) (stride : Option String) (element : Layout)

/-- One arm of a union: the discriminant value that selects it, its name and its shape. -/
inductive Arm where
  | mk (value : Nat) (name : String) (node : Node)

/-- What a self-relative pointer refers to: a NUL-terminated string, a symbolic name run,
bytes with no described shape, or a record of a layout. -/
inductive Target where
  | cstring
  | symbolic
  | untyped
  | layout (layout : Layout)

/-- A named field. -/
inductive Field where
  | mk (name : String) (node : Node)

/-- A record layout: its name, byte order and fields in declaration order. -/
inductive Layout where
  | mk (name : String) (order : ByteOrder) (fields : List Field)

end

instance : Inhabited Layout := ⟨.mk "" .little []⟩
instance : Inhabited Node := ⟨.scalar .u8⟩

namespace Arm

def value : Arm → Nat | mk v _ _ => v
def name : Arm → String | mk _ n _ => n
def node : Arm → Node | mk _ _ n => n

end Arm

namespace Field

def name : Field → String | mk n _ => n
def node : Field → Node | mk _ n => n

end Field

namespace Layout

def name : Layout → String | mk n _ _ => n
def order : Layout → ByteOrder | mk _ o _ => o
def fields : Layout → List Field | mk _ _ fs => fs

end Layout

/-- Whether a node is a trailing block. -/
def Node.isTrailing : Node → Bool
  | .trailing .. => true
  | _ => false

/-- Whether a layout ends in trailing blocks, so that its records vary in size. -/
def Layout.hasTrailing (l : Layout) : Bool :=
  l.fields.any (fun f => f.node.isTrailing)

/-- The first field of a list with the given name. -/
def Field.find? (fields : List Field) (name : String) : Option Node :=
  (fields.find? (fun f => f.name == name)).map Field.node

mutual

/-- Bytes the node takes in the fixed part of a record. -/
def Node.fixedSize : Node → Nat
  | .scalar k => k.width
  | .flags k _ => k.width
  | .union _ arms => Arm.maxSize arms
  | .nested l => Layout.fixedSize l
  | .pointer .. => 4
  | .trailing .. => 0

/-- The largest fixed size among union arms, `0` for none. -/
def Arm.maxSize : List Arm → Nat
  | [] => 0
  | .mk _ _ n :: rest => max (Node.fixedSize n) (Arm.maxSize rest)

/-- Size of a layout's fixed part: the sum of its fields' fixed sizes. -/
def Layout.fixedSize : Layout → Nat
  | .mk _ _ fields => Field.sumSize fields

/-- Sum of the fixed sizes of fields. -/
def Field.sumSize : List Field → Nat
  | [] => 0
  | .mk _ n :: rest => Node.fixedSize n + Field.sumSize rest

end

mutual

/-- Whether decoding the node selects a union arm, here or in an embedded record. -/
def Node.hasUnion : Node → Bool
  | .union .. => true
  | .nested (.mk _ _ fields) => Field.anyUnion fields
  | _ => false

/-- Whether some field selects a union arm. -/
def Field.anyUnion : List Field → Bool
  | [] => false
  | .mk _ n :: rest => Node.hasUnion n || Field.anyUnion rest

end

mutual

/-- Whether the node's size depends on values decoded from the record. -/
def Node.isVariable : Node → Bool
  | .trailing .. => true
  | .nested l => l.hasTrailing
  | .union _ arms => Arm.anyVariable arms
  | _ => false

/-- Whether some arm has a variable size. -/
def Arm.anyVariable : List Arm → Bool
  | [] => false
  | .mk _ _ n :: rest => Node.isVariable n || Arm.anyVariable rest

end

/-- Width of a relative pointer field in bytes. -/
def relativePointerSize : Nat := 4

end SwiftReflection
