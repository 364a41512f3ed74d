import SwiftReflection.Views.Typed
/-!
# Declarations printed by `dump`

`dump` prints the records of each role as Swift-like declarations under a header line. Type
names are tidied first: a name that begins with an extension context `(extension in M):` keeps
only what follows the first colon, and any other name loses every `__C` (the module of imported
C declarations). A missing name is printed as `<unknown>`.

`sections` prints one line per section: the address as `0x` and ten hexadecimal digits, the size
right-aligned in ten columns, the name left-aligned in thirty-two, and the role's short name or
`-`.
-/

namespace SwiftReflection.Cli

open Views

/-- A name without the noise demangled names carry for extensions and imported types. -/
def tidyName (name : String) : String :=
  if name.startsWith "(extension in" then
    match name.splitOn ":" with
    | _ :: rest@(_ :: _) => String.intercalate ":" rest
    | _ => name.replace "__C" ""
  else name.replace "__C" ""

/-- A tidied name, or `<unknown>` when there is none. -/
def shownName (name : Option String) : String :=
  (name.map tidyName).getD "<unknown>"

/-- The header line above the records of a kind. -/
def header (title : String) : String :=
  "================DUMPING: " ++ title ++ "====================\n"

/-- The keyword a field descriptor's declaration starts with. -/
def keywordOf : FieldDescriptorKind → String
  | .struct => "struct"
  | .classType => "class"
  | .enum | .multiPayloadEnum => "enum"
  | .protocol | .classProtocol => "protocol"
  | .objcProtocol => "@objc protocol"
  | .objcClass => "@objc class"
  | .unknown _ => "/* unknown */"

/-- A field descriptor as a declaration: enum cases, `var` and `let` properties, each with its
type when it has one. -/
def renderFields (d : FieldDescriptor) : String :=
  let opening := keywordOf d.kind ++ " " ++ shownName d.typeName ++
    (if d.kind == .classProtocol then " : class" else "") ++ " \x7b\n"
  let line (f : FieldEntry) : String :=
    let introducer := if d.kind.isEnum then "case" else if f.isVar then "var" else "let"
    let typePart := match f.typeName with
      | some t => if t.isEmpty then "" else " : " ++ tidyName t
      | none => ""
    "   " ++ introducer ++ " " ++ f.name.getD "_" ++ typePart ++ "\n"
  opening ++ String.join (d.fields.map line) ++ "\x7d\n"

/-- An associated type descriptor as an extension with type aliases. -/
def renderAssociatedTypes (d : AssociatedTypeDescriptor) : String :=
  "extension " ++ shownName d.conformingTypeName ++ " : " ++ shownName d.protocolTypeName ++
    " \x7b\n" ++
    String.join (d.associatedTypes.map fun a =>
      "  typealias " ++ a.name.getD "_" ++ " = " ++ shownName a.substitutedTypeName ++ "\n") ++
    "\x7d\n"

/-- A builtin type with its size, alignment, stride and extra inhabitants. -/
def renderBuiltin (b : BuiltinType) : String :=
  shownName b.typeName ++ " : size " ++ toString b.size ++ ", alignment " ++
    toString b.alignment ++ ", stride " ++ toString b.stride ++ ", extra inhabitants " ++
    toString b.extraInhabitants ++ (if b.bitwiseTakable then ", bitwise takable" else "") ++ "\n"

/-- A protocol with its associated types. -/
def renderProtocol (p : ProtocolDescriptor) : String :=
  "protocol " ++ shownName p.name ++ (if p.classBound then " : class" else "") ++ " \x7b\n" ++
    String.join (p.associatedTypeNames.map fun n => "  associatedtype " ++ n ++ "\n") ++ "\x7d\n"

/-- A conformance as an empty extension, marked when it is retroactive. -/
def renderConformance (c : Conformance) : String :=
  "extension " ++ shownName c.typeName ++ " : " ++ shownName c.protocol ++ " {}" ++
    (if c.isRetroactive then " // retroactive" else "") ++ "\n"

/-- The printed form of a typed view; protocol records without a descriptor and kinds that
`dump` does not print give nothing. -/
def renderView : TypedView → String
  | .fieldDescriptor d => renderFields d
  | .associatedTypes d => renderAssociatedTypes d
  | .builtinType b => renderBuiltin b
  | .protocolRecord r => (r.descriptor.map renderProtocol).getD ""
  | .conformance c => renderConformance c
  | _ => ""

/-- The roles `dump` prints, in order, with their titles. -/
def dumpedRoles : List (Role × String) :=
  [(.fieldMetadata, "Field Metadata"), (.associatedTypes, "Associated Type Metadata"),
    (.builtinTypes, "Builtin Types"), (.protocols, "Protocols"),
    (.protocolConformances, "Protocol Conformances")]

/-- A line of the section table. -/
def sectionLine (table : SectionTable) (s : Section) : String :=
  Text.hexPadded 12 s.address ++ " " ++ Text.padLeft 10 ' ' (toString s.size) ++ " " ++
    Text.padRight 32 s.name ++ " " ++ ((table.classify s.name).map Role.short).getD "-" ++ "\n"

end SwiftReflection.Cli
