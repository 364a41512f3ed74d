import SwiftReflection.Views.Protocols
import SwiftReflection.Scan.Scanner
/-!
# Typed views by role

Each metadata role with a record layout has a typed view. `TypedView.ofRecord` reads the view
of a record of the role's layout, and `TypedView.readAt` decodes that layout at an address of an
image first. Protocol descriptors and generic requirements can also be read at an address.
-/

namespace SwiftReflection.Views

/-- The records a view can be read from. -/
inductive ViewKind where
  | role (r : Role)
  | protocolDescriptor
  | genericRequirement
  deriving DecidableEq, Repr

/-- A typed view of a record. -/
inductive TypedView where
  | fieldDescriptor (v : FieldDescriptor)
  | associatedTypes (v : AssociatedTypeDescriptor)
  | builtinType (v : BuiltinType)
  | capture (v : CaptureDescriptor)
  | protocolRecord (v : ProtocolRecord)
  | conformance (v : Conformance)
  | typeReference (v : TypeReference)
  | protocolDescriptor (v : ProtocolDescriptor)
  | genericRequirement (v : GenericRequirement)

/-- The layout a kind of view is read from. -/
def ViewKind.layout? (k : ViewKind) (o : ByteOrder) : Option Layout :=
  match k with
  | .role r => Catalog.layoutFor r o
  | .protocolDescriptor => some (Catalog.protocolDescriptor o)
  | .genericRequirement => some (Catalog.genericRequirement o)

/-- Reads the view of a kind from a record of its layout. -/
def TypedView.ofRecord (k : ViewKind) (img : Image) (names : NameDecoder) (r : Record) :
    Except Error TypedView :=
  match k with
  | .role .fieldMetadata => .fieldDescriptor <$> FieldDescriptor.ofRecord img names r
  | .role .associatedTypes => .associatedTypes <$> AssociatedTypeDescriptor.ofRecord img names r
  | .role .builtinTypes => .builtinType <$> BuiltinType.ofRecord img names r
  | .role .captures => .capture <$> CaptureDescriptor.ofRecord img names r
  | .role .protocols => .protocolRecord <$> ProtocolRecord.ofRecord img names r
  | .role .protocolConformances => .conformance <$> Conformance.ofRecord img names r
  | .role .typeReferences => .typeReference <$> TypeReference.ofRecord img names r
  | .protocolDescriptor => .protocolDescriptor <$> ProtocolDescriptor.ofRecord img names r
  | .genericRequirement => .genericRequirement <$> GenericRequirement.ofRecord img names r
  | .role r => .error (.unexpectedValue r.short "a role with a record layout")

/-- Decodes the layout of a kind of view at an address of an image, then reads the view. -/
def TypedView.readAt (k : ViewKind) (img : Image) (names : NameDecoder) (address : Nat) :
    Except Error TypedView := do
  let w ← img.cursorAt address
  match k.layout? img.order with
  | some l =>
    let (r, _) ← l.decodeRecord w
    TypedView.ofRecord k img names r
  | none => throw (.unexpectedValue "view" "a role with a record layout")

end SwiftReflection.Views

namespace SwiftReflection

/-- Typed views of every record of a role, in order. -/
def Scanner.typedViews (s : Scanner) (role : Role) (names : NameDecoder) :
    List (Except Error Views.TypedView) :=
  s.typed role fun img r => Views.TypedView.ofRecord (.role role) img names r

end SwiftReflection
