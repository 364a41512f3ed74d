import SwiftReflection.Views.Fields
import SwiftReflection.Catalog.Layouts
/-!
# Views of context descriptors and type references

A context descriptor's kind is the low five bits of its flags; classes, structs and enums
continue with a name, an access function and a pointer to their field descriptor.

A type reference's 2-bit kind says how its pointer is read: as a direct or indirect pointer to
a type context descriptor, as a pointer to an Objective-C class name, or as an indirect
Objective-C class (which the image cannot show). An indirect reference whose slot points
outside the image is bound at load time and names nothing here.
-/

namespace SwiftReflection.Views

/-- The kind of a context descriptor. -/
inductive ContextKind where
  | module | extension | anonymous | protocol | opaqueType | classType | struct | enum
  | unknown (raw : Nat)
  deriving DecidableEq, Repr

/-- The kind from the low five bits of a context descriptor's flags. -/
def ContextKind.ofFlags (flags : Nat) : ContextKind :=
  match flags % 32 with
  | 0 => .module | 1 => .extension | 2 => .anonymous | 3 => .protocol | 4 => .opaqueType
  | 16 => .classType | 17 => .struct | 18 => .enum
  | n => .unknown n

/-- Whether the context is a nominal type. -/
def ContextKind.isType : ContextKind → Bool
  | .classType | .struct | .enum => true
  | _ => false

/-- How a type reference locates its type. -/
inductive TypeReferenceKind where
  | directTypeDescriptor | indirectTypeDescriptor | directObjCClassName | indirectObjCClass
  deriving DecidableEq, Repr

/-- The kind with this code; codes from 4 on are refused. -/
def TypeReferenceKind.ofRaw : Nat → Except Error TypeReferenceKind
  | 0 => .ok .directTypeDescriptor
  | 1 => .ok .indirectTypeDescriptor
  | 2 => .ok .directObjCClassName
  | 3 => .ok .indirectObjCClass
  | _ => .error (.unexpectedValue "type reference kind" "a value below 4")

/-- A class, struct or enum descriptor, or another context. -/
structure TypeContext where
  address : Nat
  kind : ContextKind
  name : Option String
  isGeneric : Bool
  fields : Option Nat

/-- Reads a type context descriptor record. -/
def TypeContext.ofRecord (img : Image) (names : NameDecoder) (r : Record) :
    Except Error TypeContext := do
  let flags ← (← r.record "context").flagSet "flags"
  let kind := ContextKind.ofFlags flags.raw
  let fields ← if kind.isType then do
      let p ← r.pointer "fields"
      if p.offset.isNull then pure none else pure (some (← img.resolve p.offset).address)
    else pure none
  let name ← optionalName img names r "name"
  return ⟨r.address, kind, name, flags.contains "generic", fields⟩

/-- Reads the type context descriptor at an address. -/
def TypeContext.read (img : Image) (names : NameDecoder) (address : Nat) :
    Except Error TypeContext := do
  let w ← img.cursorAt address
  let (r, _) ← (Catalog.typeContextDescriptor img.order).decodeRecord w
  TypeContext.ofRecord img names r

/-- The field descriptor a type context points to, if it has one. -/
def TypeContext.fieldDescriptor (img : Image) (names : NameDecoder) (t : TypeContext) :
    Except Error (Option FieldDescriptor) := do
  let some address := t.fields | return none
  let w ← img.cursorAt address
  let (r, _) ← (Catalog.fieldDescriptor img.order).decodeRecord w
  return some (← FieldDescriptor.ofRecord img names r)

/-- What a type reference leads to: a descriptor in the image or an Objective-C class name. -/
structure ReferencedType where
  descriptor : Option TypeContext := none
  objcName : Option String := none

/-- Follows a type reference of the given kind; `o` is read as a direct pointer. -/
def referencedType (img : Image) (names : NameDecoder) (o : RelOffset) :
    TypeReferenceKind → Except Error ReferencedType
  | .directTypeDescriptor => do
    let t ← img.resolve o
    return { descriptor := some (← TypeContext.read img names t.address) }
  | .indirectTypeDescriptor => do
    let t ← img.resolve ⟨o.field, o.deltaBits ||| 1, .indirectable⟩
    if (img.sectionContaining? t.address).isNone then return {}
    return { descriptor := some (← TypeContext.read img names t.address) }
  | .directObjCClassName => do
    let t ← img.resolve o
    return { objcName := some (Text.decodeLossy (← img.cString t.address)) }
  | .indirectObjCClass => pure {}

/-- The name a referenced type is known by. -/
def ReferencedType.name (t : ReferencedType) : Option String :=
  (t.descriptor.bind TypeContext.name).or t.objcName

/-- One entry of a type metadata section. -/
structure TypeReference where
  address : Nat
  kind : TypeReferenceKind
  descriptor : Option TypeContext
  objcName : Option String

/-- The name of the referenced type: the descriptor's, else the Objective-C name. -/
def TypeReference.name (t : TypeReference) : Option String :=
  (t.descriptor.bind TypeContext.name).or t.objcName

/-- Reads a type reference record: the pointer's tag is the kind. -/
def TypeReference.ofRecord (img : Image) (names : NameDecoder) (r : Record) :
    Except Error TypeReference := do
  let p ← r.pointer "descriptor"
  let kind ← TypeReferenceKind.ofRaw (p.offset.tag?.getD 0)
  let found ← referencedType img names ⟨p.offset.field, p.offset.deltaBits, .direct⟩ kind
  return ⟨r.address, kind, found.descriptor, found.objcName⟩

end SwiftReflection.Views
