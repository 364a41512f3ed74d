import SwiftReflection.Format.Kind
import SwiftReflection.Image.Basic
/-!
# ELF files

An ELF file's header gives its class (32 or 64 bits), byte order and the tables of program and
section headers; entry sizes must match the class. Section names come from the section header
string table. The null section is not listed; a section whose name cannot be read, whose file
range does not fit, or whose contents are compressed (a compressed section or a `.zdebug_`
section) is left out, and a section without file contents (`SHT_NOBITS`) is empty.

Symbols come from the first symbol table section, after its null entry, with names from the
string table it links to; the first dynamic symbol table is checked the same way. A symbol is
a definition when it is in a section and is a function, an object, or an untyped symbol of
nonzero size.
-/

namespace SwiftReflection.Format

/-- A section header of an ELF file. -/
structure ElfSection where
  name : Nat
  type : Nat
  flags : Nat
  address : Nat
  offset : Nat
  size : Nat
  link : Nat
  info : Nat

/-- Reads a section header of the given class. -/
def ElfSection.read (wide : Bool) (o : ByteOrder) (rec : ByteArray) : ElfSection :=
  if wide then
    ⟨field rec o 0 4, field rec o 4 4, field rec o 8 8, field rec o 16 8, field rec o 24 8,
      field rec o 32 8, field rec o 40 4, field rec o 44 4⟩
  else
    ⟨field rec o 0 4, field rec o 4 4, field rec o 8 4, field rec o 12 4, field rec o 16 4,
      field rec o 20 4, field rec o 24 4, field rec o 28 4⟩

/-- The file range of a section; sections without file contents have none. -/
def ElfSection.range? (s : ElfSection) : Option (Nat × Nat) :=
  if s.type == 8 then none else some (s.offset, s.size)

/-- The bytes of a section: empty without a file range, nothing when the range does not fit. -/
def ElfSection.data? (s : ElfSection) (data : ByteArray) : Option ByteArray :=
  match s.range? with
  | none => some ByteArray.empty
  | some (off, len) => bytesAt? data off len

/-- The string table a section holds, if it is a string table section. -/
def ElfSection.strings (s : ElfSection) (data : ByteArray) : StringTable :=
  { data := some data, start := s.offset, stop := s.offset + s.size }

/-- Whether a section holds relocations (`SHT_REL` or `SHT_RELA`). -/
def ElfSection.isRelocation (s : ElfSection) : Bool :=
  s.type == 9 || s.type == 4

/-- Reads the symbols of the symbol table section at `index`: the definitions with readable
names, after the null symbol that opens every table. The table must hold whole entries. Its
string table is the section it links to, which must be a string table section whose range does
not overflow; a link to section zero gives an empty string table. Every extended section index
section linked to the table must hold whole 4-byte entries. -/
def elfSymbols (wide : Bool) (o : ByteOrder) (data : ByteArray) (sections : List ElfSection)
    (index : Nat) (s : ElfSection) : Except Fault (List Symbol) := do
  let size := if wide then 24 else 16
  let some bytes := s.data? data | throw .elfSymbolData
  if bytes.size % size != 0 then throw .elfSymbolData
  let strings : StringTable ← if s.link == 0 then pure {} else do
    let some linked := sections[s.link]? | throw .elfSectionIndex
    if linked.type != 3 then throw .elfStringType
    if linked.offset + linked.size ≥ pow2 64 then throw .elfStringSize
    pure (linked.strings data)
  for x in sections do
    if x.type == 18 && x.link == index then
      match x.data? data with
      | some b => if b.size % 4 != 0 then throw .elfShNdxData
      | none => throw .elfShNdxData
  let entries := ((List.range (bytes.size / size)).drop 1).map fun i =>
    bytes.extract (i * size) (i * size + size)
  return entries.filterMap fun e =>
    let (value, symSize, info, shndx) :=
      if wide then (field e o 8 8, field e o 16 8, field e o 4 1, field e o 6 2)
      else (field e o 4 4, field e o 8 4, field e o 12 1, field e o 14 2)
    let inSection := shndx != 0 && (shndx < 0xFF00 || shndx == 0xFFFF)
    let kind := info % 16
    let defined := inSection && (kind == 1 || kind == 2 || (kind == 0 && symSize != 0))
    if defined then
      match (strings.get? (field e o 0 4)).bind utf8? with
      | some name => some ⟨name, value⟩
      | none => none
    else none

/-- The index of the first section of a type, if any. -/
def firstOfType (sections : List ElfSection) (type : Nat) : Option Nat :=
  sections.findIdx? (·.type == type)

/-- Reads the symbol table of one type (the first section of that type). -/
def elfSymbolTable (wide : Bool) (o : ByteOrder) (data : ByteArray) (sections : List ElfSection)
    (type : Nat) : Except Fault (List Symbol) :=
  match firstOfType sections type with
  | some i =>
    match sections[i]? with
    | some s => elfSymbols wide o data sections i s
    | none => pure []
  | none => pure []

/-- Checks the relocation sections that use the symbol table at `symbolIndex`, from the last
section to the first: each must apply to an existing section that holds no relocations. -/
def checkRelocations (sections : List ElfSection) (symbolIndex : Nat) : Except Fault Unit :=
  sections.reverse.forM fun s => do
    if s.isRelocation && s.link == symbolIndex && s.info != 0 then
      match sections[s.info]? with
      | none => throw .elfRelocationInfo
      | some target => if target.isRelocation then throw .elfRelocationTarget

/-- Reads an ELF file of the given class. -/
def readElf (data : ByteArray) (wide : Bool) : Except Fault Container := do
  let some h := bytesAt? data 0 (if wide then 64 else 52) | throw .elfHeader
  let dataByte := h.get! 5
  if !(dataByte == 1 || dataByte == 2) || h.get! 6 != 1 then throw .elfUnsupported
  let o : ByteOrder := if dataByte == 1 then .little else .big
  let w := if wide then 8 else 4
  let base := if wide then 40 else 28
  let phoff := field h o (24 + w) w
  let shoff := field h o (24 + 2 * w) w
  let phentsize := field h o (base + 14) 2
  let phnum := field h o (base + 16) 2
  let shentsize := field h o (base + 18) 2
  let shnum := field h o (base + 20) 2
  let shstrndx := field h o (base + 22) 2
  let shsize := if wide then 64 else 40
  -- section zero holds the counts that overflow the header fields
  let sectionZero : Except Fault (Option ElfSection) := do
    if shoff == 0 then return none
    if shentsize != shsize then throw .elfShEntSize
    match bytesAt? data shoff shsize with
    | some rec => return some (ElfSection.read wide o rec)
    | none => throw .elfSectionZero
  -- program headers
  if phoff != 0 then
    let count ← if phnum < 0xFFFF then pure phnum else do
      match ← sectionZero with
      | some z => pure z.info
      | none => throw .elfPhNumOverflow
    if count != 0 then
      if phentsize != (if wide then 56 else 32) then throw .elfPhEntSize
      if (recordsAt? data phoff phentsize count).isNone then throw .elfPhHeaders
  -- section headers
  let sections ← if shoff == 0 then pure [] else do
    let count ← if shnum > 0 then pure shnum else do
      match ← sectionZero with
      | some z => if z.size < pow2 64 then pure z.size else throw .elfExtendedShNum
      | none => pure 0
    if count == 0 then pure [] else do
      if shentsize != shsize then throw .elfShEntSize
      match recordsAt? data shoff shsize count with
      | some recs => pure (recs.map (ElfSection.read wide o))
      | none => throw .elfShHeaders
  -- section names
  let names : StringTable ← if sections.isEmpty then pure {} else do
    let index ← if shstrndx != 0xFFFF then pure shstrndx else do
      match ← sectionZero with
      | some z => pure z.link
      | none => throw .elfShStrNdxOverflow
    if index == 0 then throw .elfNoShStrNdx
    let some table := sections[index]? | throw .elfBadShStrNdx
    match table.range? with
    | some (off, len) =>
      if off + len ≥ pow2 64 then throw .elfShStrTabSize
      pure { data := some data, start := off, stop := off + len }
    | none => pure {}
  let symbols ← elfSymbolTable wide o data sections 2
  let _ ← elfSymbolTable wide o data sections 11
  checkRelocations sections ((firstOfType sections 2).getD 0)
  let listed := (sections.drop 1).filterMap fun s => do
    let nameBytes ← names.get? s.name
    let name ← utf8? nameBytes
    if s.flags &&& 0x800 != 0 || name.startsWith ".zdebug_" then none
    let bytes ← s.data? data
    some (Section.mk name s.address bytes)
  return { sections := listed, symbols, pointerWidth := if wide then 8 else 4, order := o }

end SwiftReflection.Format
