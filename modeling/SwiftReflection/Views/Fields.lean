import SwiftReflection.Views.Basic
/-!
# Views of field, associated type, builtin type and capture records

Each view is read from a record of its catalog layout; names are read through the image with
`optionalName`. Trailing elements are read first, then the header's names, as their failures
would be reported in that order.
-/

namespace SwiftReflection.Views

/-- What kind of declaration a field descriptor describes. -/
inductive FieldDescriptorKind where
  | struct | classType | enum | multiPayloadEnum | protocol | classProtocol | objcProtocol | objcClass
  | unknown (raw : Nat)
  deriving DecidableEq, Repr

/-- The kind of a field descriptor from its 16-bit code. -/
def FieldDescriptorKind.ofRaw (raw : Nat) : FieldDescriptorKind :=
  match raw with
  | 0 => .struct | 1 => .classType | 2 => .enum | 3 => .multiPayloadEnum | 4 => .protocol
  | 5 => .classProtocol | 6 => .objcProtocol | 7 => .objcClass
  | n => .unknown n

/-- Whether the kind is an enum with one or several payloads. -/
def FieldDescriptorKind.isEnum : FieldDescriptorKind → Bool
  | .enum | .multiPayloadEnum => true
  | _ => false

/-- One stored property or enum case. -/
structure FieldEntry where
  flags : Nat
  name : Option String
  typeName : Option String

namespace FieldEntry

/-- Whether the case is `indirect`. -/
def isIndirectCase (f : FieldEntry) : Bool := f.flags &&& 1 != 0
/-- Whether the property is a `var`. -/
def isVar (f : FieldEntry) : Bool := f.flags &&& 2 != 0
/-- Whether the field was synthesized by the compiler. -/
def isArtificial (f : FieldEntry) : Bool := f.flags &&& 4 != 0

/-- Reads a field record. -/
def ofRecord (img : Image) (names : NameDecoder) (r : Record) : Except Error FieldEntry := do
  let flags ← r.flagSet "flags"
  let name ← optionalName img names r "field_name"
  let typeName ← optionalName img names r "mangled_type_name"
  return ⟨low32 flags.raw, name, typeName⟩

end FieldEntry

/-- The fields of a nominal type. -/
structure FieldDescriptor where
  address : Nat
  typeName : Option String
  superclass : Option String
  kind : FieldDescriptorKind
  fields : List FieldEntry

/-- Reads a field descriptor. -/
def FieldDescriptor.ofRecord (img : Image) (names : NameDecoder) (r : Record) :
    Except Error FieldDescriptor := do
  let fields ← (← trailingRecords r "fields").mapM (FieldEntry.ofRecord img names)
  let typeName ← optionalName img names r "mangled_type_name"
  let superclass ← optionalName img names r "superclass"
  let kind ← r.nat "kind"
  return ⟨r.address, typeName, superclass, .ofRaw (kind % pow2 16), fields⟩

/-- One associated type witness. -/
structure AssociatedType where
  name : Option String
  substitutedTypeName : Option String

/-- The associated types of one conformance. -/
structure AssociatedTypeDescriptor where
  address : Nat
  conformingTypeName : Option String
  protocolTypeName : Option String
  associatedTypes : List AssociatedType

/-- Reads an associated type descriptor. -/
def AssociatedTypeDescriptor.ofRecord (img : Image) (names : NameDecoder) (r : Record) :
    Except Error AssociatedTypeDescriptor := do
  let items ← (← trailingRecords r "associated_types").mapM fun item => do
    let name ← optionalName img names item "name"
    let subst ← optionalName img names item "substituted_type_name"
    pure (AssociatedType.mk name subst)
  let conforming ← optionalName img names r "conforming_type_name"
  let proto ← optionalName img names r "protocol_type_name"
  return ⟨r.address, conforming, proto, items⟩

/-- Size, alignment and stride of a builtin type. -/
structure BuiltinType where
  address : Nat
  typeName : Option String
  size : Nat
  alignment : Nat
  stride : Nat
  extraInhabitants : Nat
  bitwiseTakable : Bool

/-- Reads a builtin type descriptor; the alignment is the low 16 bits of its flags. -/
def BuiltinType.ofRecord (img : Image) (names : NameDecoder) (r : Record) :
    Except Error BuiltinType := do
  let flags ← r.flagSet "alignment_and_flags"
  let typeName ← optionalName img names r "type_name"
  let size ← r.nat "size"
  let stride ← r.nat "stride"
  let extra ← r.nat "num_extra_inhabitants"
  return ⟨r.address, typeName, low32 size, flags.raw &&& 0xFFFF, low32 stride, low32 extra,
    flags.contains "bitwise_takable"⟩

/-- Where the metadata of a closure's generic parameter comes from. -/
structure MetadataSource where
  typeName : Option String
  source : Option String

/-- A closure context. -/
structure CaptureDescriptor where
  address : Nat
  captureTypes : List (Option String)
  metadataSources : List MetadataSource
  numBindings : Nat

/-- Reads a capture descriptor. -/
def CaptureDescriptor.ofRecord (img : Image) (names : NameDecoder) (r : Record) :
    Except Error CaptureDescriptor := do
  let types ← (← trailingRecords r "capture_types").mapM fun item =>
    optionalName img names item "mangled_type_name"
  let sources ← (← trailingRecords r "metadata_sources").mapM fun item => do
    let t ← optionalName img names item "mangled_type_name"
    let s ← optionalName img names item "mangled_metadata_source"
    pure (MetadataSource.mk t s)
  let bindings ← r.nat "num_bindings"
  return ⟨r.address, types, sources, low32 bindings⟩

end SwiftReflection.Views
