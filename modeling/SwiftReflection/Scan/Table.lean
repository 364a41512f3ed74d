/-!
# Section roles and the section table

Swift 5 reflection metadata lives in named sections, one kind of record per section. A section
table maps name prefixes to roles: the first entry whose prefix starts a section's name gives
its role. Names under a claimed namespace that match no entry are unrecognized metadata; all
other sections are ignored. A role may require sections of other roles to be present.
-/

namespace SwiftReflection

/-- What a metadata section holds, in table order. -/
inductive Role where
  | fieldMetadata
  | associatedTypes
  | builtinTypes
  | captures
  | reflectionStrings
  | typeRefStrings
  | protocols
  | protocolConformances
  | typeReferences
  | dynamicReplacements
  | dynamicReplacementsSome
  | accessibleFunctions
  deriving DecidableEq, Repr, Inhabited

namespace Role

/-- Every role, in table order. -/
def all : List Role :=
  [fieldMetadata, associatedTypes, builtinTypes, captures, reflectionStrings, typeRefStrings,
    protocols, protocolConformances, typeReferences, dynamicReplacements,
    dynamicReplacementsSome, accessibleFunctions]

/-- The short name of a role, as in Mach-O section names. -/
def short : Role → String
  | fieldMetadata => "fieldmd"
  | associatedTypes => "assocty"
  | builtinTypes => "builtin"
  | captures => "capture"
  | reflectionStrings => "reflstr"
  | typeRefStrings => "typeref"
  | protocols => "protos"
  | protocolConformances => "proto"
  | typeReferences => "types"
  | dynamicReplacements => "replace"
  | dynamicReplacementsSome => "replac2"
  | accessibleFunctions => "acfuncs"

/-- Position of a role in table order. -/
def index (r : Role) : Nat :=
  (all.findIdx? (· == r)).getD 0

/-- The role with this short name, or the error text for an unknown one. -/
def parse (s : String) : Except String Role :=
  match all.find? (fun r => r.short == s) with
  | some r => .ok r
  | none => .error s!"unknown section role '{s}'"

end Role

/-- Ordered entries mapping name prefixes to roles, the claimed namespaces and the roles each
role requires. -/
structure SectionTable where
  version : Nat
  entries : List (String × Role) := []
  namespaces : List String := []
  requirements : List (Role × List Role) := []
  deriving Inhabited

/-- Whether `p` starts `name`, character by character. -/
def prefixOf (p name : String) : Bool :=
  p.toList.isPrefixOf name.toList

/-- Whether `p` starts `q` and is shorter. -/
def properPrefix (p q : String) : Bool :=
  prefixOf p q && p.toList.length < q.toList.length

namespace SectionTable

/-- The role of the first entry whose prefix starts `name`. -/
def classify (t : SectionTable) (name : String) : Option Role :=
  (t.entries.find? (fun e => prefixOf e.1 name)).map Prod.snd

/-- Whether `name` falls under a claimed namespace. -/
def claims (t : SectionTable) (name : String) : Bool :=
  t.namespaces.any (fun ns => prefixOf ns name)

/-- No entry's prefix is a proper prefix of a later entry's prefix: a prefix that extends
another comes first. -/
def PrefixOrdered (t : SectionTable) : Prop :=
  t.entries.Pairwise fun a b => properPrefix a.1 b.1 = false

instance (t : SectionTable) : Decidable t.PrefixOrdered :=
  inferInstanceAs (Decidable (t.entries.Pairwise _))

/-- Keeps the entry with the longer prefix, the earlier one on a tie. -/
def keepLonger (best : Option (String × Role)) (e : String × Role) : Option (String × Role) :=
  match best with
  | none => some e
  | some b => if b.1.toList.length < e.1.toList.length then some e else some b

/-- The role of the first entry among those whose prefix of `name` is longest. -/
def longestMatch? (t : SectionTable) (name : String) : Option Role :=
  ((t.entries.filter fun e => prefixOf e.1 name).foldl keepLonger none).map Prod.snd

/-- Roles that must be present before `role` is decoded: those of its first requirement entry. -/
def required (t : SectionTable) (role : Role) : List Role :=
  ((t.requirements.find? (fun r => r.1 == role)).map Prod.snd).getD []

/-- Mach-O section names: `__swift5_` and the short name of each role. -/
def machoEntries : List (String × Role) :=
  Role.all.map fun r => ("__swift5_" ++ r.short, r)

/-- ELF section names. -/
def elfEntries : List (String × Role) :=
  [("swift5_fieldmd", .fieldMetadata), ("swift5_assocty", .associatedTypes),
    ("swift5_builtin", .builtinTypes), ("swift5_capture", .captures),
    ("swift5_reflstr", .reflectionStrings), ("swift5_typeref", .typeRefStrings),
    ("swift5_protocol_conformances", .protocolConformances), ("swift5_protocols", .protocols),
    ("swift5_type_metadata", .typeReferences), ("swift5_replace", .dynamicReplacements),
    ("swift5_replac2", .dynamicReplacementsSome),
    ("swift5_accessible_functions", .accessibleFunctions)]

/-- COFF section names. -/
def coffEntries : List (String × Role) :=
  [(".sw5flmd", .fieldMetadata), (".sw5asty", .associatedTypes), (".sw5bltn", .builtinTypes),
    (".sw5cptr", .captures), (".sw5rfst", .reflectionStrings), (".sw5tyrf", .typeRefStrings),
    (".sw5prtc", .protocolConformances), (".sw5prt", .protocols), (".sw5tymd", .typeReferences),
    (".sw5repl", .dynamicReplacements), (".sw5reps", .dynamicReplacementsSome),
    (".sw5acfn", .accessibleFunctions)]

/-- The Swift 5 table, version 5, for Mach-O, ELF and COFF names. -/
def swift5 : SectionTable where
  version := 5
  entries := machoEntries ++ elfEntries ++ coffEntries
  namespaces := ["__swift5_", "swift5_", ".sw5"]

end SectionTable

end SwiftReflection
