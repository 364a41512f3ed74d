import SwiftReflection.Layout.Basic
import SwiftReflection.Scan.Table
/-!
# Layouts of the Swift 5 reflection records

The record layouts of the metadata sections and of the descriptors they point to, in either
byte order. Each is accepted by `Layout.check`.
-/

namespace SwiftReflection.Catalog

/-- A field of the given name and node. -/
def field (name : String) (node : Node) : Field :=
  .mk name node

/-- A flag set of 32 bits. -/
def flags32 (bits : List (String × Nat)) : Node :=
  .flags .u32 (bits.map fun b => ⟨b.1, b.2⟩)

/-- A direct pointer to a symbolic name run. -/
def symbolicName : Node := .pointer .direct .symbolic

/-- A direct pointer to a C string. -/
def cString : Node := .pointer .direct .cstring

/-- One stored property or enum case. -/
def fieldRecord (o : ByteOrder) : Layout :=
  .mk "FieldRecord" o [
    field "flags" (flags32 [("indirect_case", 1), ("var", 2), ("artificial", 4)]),
    field "mangled_type_name" symbolicName,
    field "field_name" cString]

/-- A field descriptor and its trailing field records. -/
def fieldDescriptor (o : ByteOrder) : Layout :=
  .mk "FieldDescriptor" o [
    field "mangled_type_name" symbolicName,
    field "superclass" symbolicName,
    field "kind" (.scalar .u16),
    field "field_record_size" (.scalar .u16),
    field "num_fields" (.scalar .u32),
    field "fields" (.trailing "num_fields" (some "field_record_size") (fieldRecord o))]

/-- One associated type witness. -/
def associatedTypeRecord (o : ByteOrder) : Layout :=
  .mk "AssociatedTypeRecord" o [
    field "name" cString,
    field "substituted_type_name" symbolicName]

/-- The associated types of one conformance. -/
def associatedTypeDescriptor (o : ByteOrder) : Layout :=
  .mk "AssociatedTypeDescriptor" o [
    field "conforming_type_name" symbolicName,
    field "protocol_type_name" symbolicName,
    field "num_associated_types" (.scalar .u32),
    field "associated_type_record_size" (.scalar .u32),
    field "associated_types" (.trailing "num_associated_types"
      (some "associated_type_record_size") (associatedTypeRecord o))]

/-- Size, alignment and stride of a builtin type. -/
def builtinTypeDescriptor (o : ByteOrder) : Layout :=
  .mk "BuiltinTypeDescriptor" o [
    field "type_name" symbolicName,
    field "size" (.scalar .u32),
    field "alignment_and_flags" (flags32 [("bitwise_takable", 0x10000)]),
    field "stride" (.scalar .u32),
    field "num_extra_inhabitants" (.scalar .u32)]

/-- The type of one closure capture. -/
def captureTypeRecord (o : ByteOrder) : Layout :=
  .mk "CaptureTypeRecord" o [field "mangled_type_name" symbolicName]

/-- Where the metadata of a closure's generic parameter comes from. -/
def metadataSourceRecord (o : ByteOrder) : Layout :=
  .mk "MetadataSourceRecord" o [
    field "mangled_type_name" symbolicName,
    field "mangled_metadata_source" symbolicName]

/-- A closure context: capture types, then metadata sources. -/
def captureDescriptor (o : ByteOrder) : Layout :=
  .mk "CaptureDescriptor" o [
    field "num_capture_types" (.scalar .u32),
    field "num_metadata_sources" (.scalar .u32),
    field "num_bindings" (.scalar .u32),
    field "capture_types" (.trailing "num_capture_types" none (captureTypeRecord o)),
    field "metadata_sources" (.trailing "num_metadata_sources" none (metadataSourceRecord o))]

/-- The header every context descriptor starts with. -/
def contextDescriptor (o : ByteOrder) : Layout :=
  .mk "ContextDescriptor" o [
    field "flags" (flags32 [("unique", 0x40), ("generic", 0x80)]),
    field "parent" (.pointer .indirectable .untyped)]

/-- A class, struct or enum descriptor, up to its field descriptor pointer. -/
def typeContextDescriptor (o : ByteOrder) : Layout :=
  .mk "TypeContextDescriptor" o [
    field "context" (.nested (contextDescriptor o)),
    field "name" cString,
    field "access_function" (.pointer .direct .untyped),
    field "fields" (.pointer .direct (.layout (fieldDescriptor o)))]

/-- One entry of a type metadata section: a pointer with a 2-bit type reference kind. -/
def typeReferenceRecord (o : ByteOrder) : Layout :=
  .mk "TypeMetadataRecord" o [field "descriptor" (.pointer (.tagPacked 2 false) .untyped)]

/-- A protocol pointer: bit 0 marks indirection, bit 1 an Objective-C protocol. -/
def protocolPointer : PointerKind := .tagPacked 1 true

/-- One requirement of a generic signature; its constraint is chosen by the low five bits of
its flags. -/
def genericRequirement (o : ByteOrder) : Layout :=
  .mk "GenericRequirementDescriptor" o [
    field "flags" (flags32 [("has_key_argument", 0x80), ("has_extra_argument", 0x40)]),
    field "param" symbolicName,
    field "constraint" (.union { field := "flags", mask := 0x1F } [
      .mk 0 "protocol" (.pointer protocolPointer .untyped),
      .mk 1 "same_type" symbolicName,
      .mk 2 "base_class" symbolicName,
      .mk 3 "same_conformance" (.pointer .indirectable .untyped),
      .mk 4 "same_shape" symbolicName,
      .mk 0x1F "layout" (.scalar .u32)])]

/-- One entry of a protocol's witness table description. -/
def protocolRequirement (o : ByteOrder) : Layout :=
  .mk "ProtocolRequirement" o [
    field "flags" (flags32 [("instance", 0x10), ("async", 0x20)]),
    field "default_implementation" (.pointer .direct .untyped)]

/-- A protocol descriptor with its requirement signature and requirements. -/
def protocolDescriptor (o : ByteOrder) : Layout :=
  .mk "ProtocolDescriptor" o [
    field "context" (.nested (contextDescriptor o)),
    field "name" cString,
    field "num_requirements_in_signature" (.scalar .u32),
    field "num_requirements" (.scalar .u32),
    field "associated_type_names" cString,
    field "requirement_signature"
      (.trailing "num_requirements_in_signature" none (genericRequirement o)),
    field "requirements" (.trailing "num_requirements" none (protocolRequirement o))]

/-- One entry of a protocols section. -/
def protocolRecord (o : ByteOrder) : Layout :=
  .mk "ProtocolRecord" o [
    field "protocol" (.pointer protocolPointer (.layout (protocolDescriptor o)))]

/-- A protocol conformance descriptor. -/
def conformanceDescriptor (o : ByteOrder) : Layout :=
  .mk "ProtocolConformanceDescriptor" o [
    field "protocol" (.pointer .indirectable .untyped),
    field "type_ref" (.pointer .direct .untyped),
    field "witness_table_pattern" (.pointer .direct .untyped),
    field "flags" (flags32 [("retroactive", 0x40), ("synthesized_non_unique", 0x80),
      ("has_resilient_witnesses", 0x10000), ("has_generic_witness_table", 0x20000)])]

/-- One entry of a protocol conformances section. -/
def conformanceRecord (o : ByteOrder) : Layout :=
  .mk "ProtocolConformanceRecord" o [
    field "descriptor" (.pointer .indirectable (.layout (conformanceDescriptor o)))]

/-- The layout of the records in sections of a role, for the roles that have one. -/
def layoutFor : Role → ByteOrder → Option Layout
  | .fieldMetadata, o => some (fieldDescriptor o)
  | .associatedTypes, o => some (associatedTypeDescriptor o)
  | .builtinTypes, o => some (builtinTypeDescriptor o)
  | .captures, o => some (captureDescriptor o)
  | .protocols, o => some (protocolRecord o)
  | .protocolConformances, o => some (conformanceRecord o)
  | .typeReferences, o => some (typeReferenceRecord o)
  | _, _ => none

/-- The catalog layouts by name. -/
def named : List (String × (ByteOrder → Layout)) :=
  [("field_record", fieldRecord), ("field_descriptor", fieldDescriptor),
    ("associated_type_record", associatedTypeRecord),
    ("associated_type_descriptor", associatedTypeDescriptor),
    ("builtin_type_descriptor", builtinTypeDescriptor), ("capture_descriptor", captureDescriptor),
    ("context_descriptor", contextDescriptor), ("type_context_descriptor", typeContextDescriptor),
    ("type_reference_record", typeReferenceRecord), ("generic_requirement", genericRequirement),
    ("protocol_requirement", protocolRequirement), ("protocol_descriptor", protocolDescriptor),
    ("protocol_record", protocolRecord), ("conformance_descriptor", conformanceDescriptor),
    ("conformance_record", conformanceRecord)]

end SwiftReflection.Catalog
