import SwiftReflection.Views.Context
/-!
# Views of protocols, generic requirements and conformances

A protocol pointer packs an indirection bit and, above it, a tag that marks an Objective-C
protocol; such protocols, and Swift protocols defined in another image, have no descriptor here
and so no name. A generic requirement's constraint is the union arm chosen by the low five bits
of its flags: a layout kind, or a pointer read according to the arm.
-/

namespace SwiftReflection.Views

/-- The tag of a protocol pointer that marks an Objective-C protocol. -/
def objcProtocolTag : Nat := 1

/-- The name of the Swift protocol a protocol pointer refers to, when its descriptor is in the
image. -/
def protocolName (img : Image) (names : NameDecoder) (o : RelOffset) :
    Except Error (Option String) := do
  if o.isNull || o.tag? == some objcProtocolTag then return none
  match ← unlessExternal (img.followAs o (Catalog.protocolDescriptor img.order)) with
  | some r => optionalName img names r "name"
  | none => return none

/-- What a generic requirement constrains its parameter to. -/
inductive Constraint where
  | protocol (name : Option String) (objc : Bool)
  | sameType (name : Option String)
  | baseClass (name : Option String)
  | sameConformance (address : Option Nat)
  | sameShape (name : Option String)
  | layout (kind : Nat)

/-- Reads the constraint of a requirement from its union arm. -/
def Constraint.ofUnion (img : Image) (names : NameDecoder) (u : UnionValue) :
    Except Error Constraint := do
  if u.discriminant == 0x1F then
    match u.value.asNat? with
    | some k => return .layout (low32 k)
    | none => throw (.unexpectedValue "constraint" "a layout kind")
  let p ← match u.value with
    | .pointer o t => pure (PointerValue.mk o t)
    | _ => throw (.unexpectedValue "constraint" "a pointer")
  match u.discriminant with
  | 0 => return .protocol (← protocolName img names p.offset) (p.offset.tag? == some objcProtocolTag)
  | 1 => return .sameType (← pointerName img names p)
  | 2 => return .baseClass (← pointerName img names p)
  | 4 => return .sameShape (← pointerName img names p)
  | _ => return .sameConformance ((← unlessExternal (img.resolve p.offset)).map Resolved.address)

/-- One requirement of a generic signature. -/
structure GenericRequirement where
  param : Option String
  constraint : Constraint
  hasKeyArgument : Bool

/-- Reads a generic requirement record. -/
def GenericRequirement.ofRecord (img : Image) (names : NameDecoder) (r : Record) :
    Except Error GenericRequirement := do
  let param ← optionalName img names r "param"
  let c ← Constraint.ofUnion img names (← r.union "constraint")
  let flags ← r.flagSet "flags"
  return ⟨param, c, flags.contains "has_key_argument"⟩

/-- The kind of a protocol requirement. -/
inductive RequirementKind where
  | baseProtocol | method | init | getter | setter | readCoroutine | modifyCoroutine
  | associatedTypeAccessFunction | associatedConformanceAccessFunction
  | unknown (raw : Nat)
  deriving DecidableEq, Repr

/-- The kind from the low four bits of a requirement's flags. -/
def RequirementKind.ofFlags (flags : Nat) : RequirementKind :=
  match flags % 16 with
  | 0 => .baseProtocol | 1 => .method | 2 => .init | 3 => .getter | 4 => .setter
  | 5 => .readCoroutine | 6 => .modifyCoroutine | 7 => .associatedTypeAccessFunction
  | 8 => .associatedConformanceAccessFunction
  | n => .unknown n

/-- One entry of a protocol's witness table description. -/
structure ProtocolRequirement where
  kind : RequirementKind
  isInstance : Bool
  hasDefaultImplementation : Bool

/-- Reads a protocol requirement record. -/
def ProtocolRequirement.ofRecord (r : Record) : Except Error ProtocolRequirement := do
  let flags ← r.flagSet "flags"
  let impl ← r.pointer "default_implementation"
  return ⟨.ofFlags flags.raw, flags.contains "instance", !impl.offset.isNull⟩

/-- A protocol: its name, associated types and requirements. -/
structure ProtocolDescriptor where
  address : Nat
  name : Option String
  classBound : Bool
  associatedTypeNames : List String
  requirementSignature : List GenericRequirement
  requirements : List ProtocolRequirement

/-- Reads a protocol descriptor; it is class-bound unless flag bit 16 is set. -/
def ProtocolDescriptor.ofRecord (img : Image) (names : NameDecoder) (r : Record) :
    Except Error ProtocolDescriptor := do
  let flags ← (← r.record "context").flagSet "flags"
  let assoc := ((← optionalName img names r "associated_type_names").map Text.splitBlank).getD []
  let sig ← (← trailingRecords r "requirement_signature").mapM (GenericRequirement.ofRecord img names)
  let reqs ← (← trailingRecords r "requirements").mapM ProtocolRequirement.ofRecord
  let name ← optionalName img names r "name"
  return ⟨r.address, name, !flags.isSet 0x10000, assoc, sig, reqs⟩

/-- One entry of a protocols section. -/
structure ProtocolRecord where
  address : Nat
  objc : Bool
  descriptor : Option ProtocolDescriptor

/-- Reads a protocol record; Objective-C protocols and protocols of other images have no
descriptor. -/
def ProtocolRecord.ofRecord (img : Image) (names : NameDecoder) (r : Record) :
    Except Error ProtocolRecord := do
  let p ← r.pointer "protocol"
  let objc := p.offset.tag? == some objcProtocolTag
  if objc then return ⟨r.address, true, none⟩
  match ← unlessExternal (img.follow p) with
  | some body => return ⟨r.address, false, some (← ProtocolDescriptor.ofRecord img names body)⟩
  | none => return ⟨r.address, false, none⟩

/-- A conformance of a type to a protocol. -/
structure Conformance where
  address : Nat
  descriptorAddress : Nat
  protocol : Option String
  typeKind : TypeReferenceKind
  typeName : Option String
  isRetroactive : Bool
  conditionalRequirements : Nat
  hasResilientWitnesses : Bool

/-- Reads a conformance record: bits 3 to 5 of the descriptor's flags are the kind of its type
reference, bits 8 to 15 the number of conditional requirements. -/
def Conformance.ofRecord (img : Image) (names : NameDecoder) (r : Record) :
    Except Error Conformance := do
  let body ← img.follow (← r.pointer "descriptor")
  let flags ← body.flagSet "flags"
  let kind ← TypeReferenceKind.ofRaw ((flags.raw &&& 0x38) >>> 3)
  let typeRef ← body.pointer "type_ref"
  let found := ((← unlessExternal (referencedType img names typeRef.offset kind)).getD {})
  let proto ← protocolName img names (← body.pointer "protocol").offset
  return ⟨r.address, body.address, proto, kind, found.name, flags.contains "retroactive",
    (flags.raw &&& 0xFF00) >>> 8, flags.contains "has_resilient_witnesses"⟩

end SwiftReflection.Views
