import SwiftReflection.Decode.Window
import SwiftReflection.Text.Utf8
/-!
# Reading binary files

Binary formats are read at file offsets, and every read is checked against the end of the file:
a read that does not fit yields nothing, and the format decides which fault that is. A string
table is a range of the file holding zero-terminated strings; a string must end inside the
range, and the range itself must lie inside the file.

`Fault` lists why a file is refused, with the texts the readers report.
-/

namespace SwiftReflection.Format

/-- Why a binary file cannot be read. -/
inductive Fault where
  | magicShort | unknownMagic | unknownDos | unsupportedFormat | unknownAnonObject
  | fatHeader | fatMagic (wide : Bool) | fatCount | fatSlice | noSlices
  | machHeader | machUnsupported | machCommandSize | machSectionCount | machSymbols
  | machStringLength
  | elfHeader | elfUnsupported | elfPhEntSize | elfPhHeaders | elfPhNumOverflow
  | elfShEntSize | elfShHeaders | elfSectionZero | elfExtendedShNum | elfShStrNdxOverflow
  | elfNoShStrNdx | elfBadShStrNdx | elfShStrTabSize | elfSymbolData | elfSectionIndex
  | elfStringType | elfStringSize | elfShNdxData | elfRelocationInfo | elfRelocationTarget
  | coffHeader | coffSections | coffSymbols | coffStrings | coffBigHeader | coffBigValues
  | peHeaders | peOptionalSmall | peOptionalSize | peDirectories
  | xcoffHeader | xcoffAuxHeader | xcoffSections | xcoffSymbols | xcoffStrings
  deriving DecidableEq, Repr

/-- The text of a fault. -/
def Fault.message : Fault → String
  | .magicShort => "Could not read file magic"
  | .unknownMagic => "Unknown file magic"
  | .unknownDos => "Unknown MS-DOS file"
  | .unsupportedFormat => "Unsupported file format"
  | .unknownAnonObject => "Unknown anon object file"
  | .fatHeader => "Invalid fat header size or alignment"
  | .fatMagic wide => if wide then "Invalid 64-bit fat magic" else "Invalid 32-bit fat magic"
  | .fatCount => "Invalid nfat_arch"
  | .fatSlice => "Invalid fat arch offset or size"
  | .noSlices => "universal binary has no slices"
  | .machHeader => "Invalid Mach-O header size or alignment"
  | .machUnsupported => "Unsupported Mach-O header"
  | .machCommandSize => "Invalid Mach-O command size"
  | .machSectionCount => "Invalid Mach-O number of sections"
  | .machSymbols => "Invalid Mach-O symbol table offset or size"
  | .machStringLength => "Invalid Mach-O string table length"
  | .elfHeader => "Invalid ELF header size or alignment"
  | .elfUnsupported => "Unsupported ELF header"
  | .elfPhEntSize => "Invalid ELF program header entry size"
  | .elfPhHeaders => "Invalid ELF program header size or alignment"
  | .elfPhNumOverflow => "Missing ELF section headers for e_phnum overflow"
  | .elfShEntSize => "Invalid ELF section header entry size"
  | .elfShHeaders => "Invalid ELF section header offset/size/alignment"
  | .elfSectionZero => "Invalid ELF section header offset or size"
  | .elfExtendedShNum => "Invalid ELF extended e_shnum"
  | .elfShStrNdxOverflow => "Missing ELF section headers for e_shstrndx overflow"
  | .elfNoShStrNdx => "Missing ELF e_shstrndx"
  | .elfBadShStrNdx => "Invalid ELF e_shstrndx"
  | .elfShStrTabSize => "Invalid ELF shstrtab size"
  | .elfSymbolData => "Invalid ELF symbol table data"
  | .elfSectionIndex => "Invalid ELF section index"
  | .elfStringType => "Invalid ELF string section type"
  | .elfStringSize => "Invalid ELF string section offset or size"
  | .elfShNdxData => "Invalid ELF symtab_shndx data"
  | .elfRelocationInfo => "Invalid ELF sh_info for relocation section"
  | .elfRelocationTarget => "Unsupported ELF sh_info for relocation section"
  | .coffHeader => "Invalid COFF file header size or alignment"
  | .coffSections => "Invalid COFF/PE section headers"
  | .coffSymbols => "Invalid COFF symbol table offset or size"
  | .coffStrings => "Missing COFF string table"
  | .coffBigHeader => "Invalid COFF bigobj file header size or alignment"
  | .coffBigValues => "Invalid COFF bigobj header values"
  | .peHeaders => "Invalid PE headers offset or size"
  | .peOptionalSmall => "PE optional header size is too small"
  | .peOptionalSize => "Invalid PE optional header size"
  | .peDirectories => "Invalid PE number of RVA and sizes"
  | .xcoffHeader => "Invalid XCOFF header size or alignment"
  | .xcoffAuxHeader => "Invalid XCOFF auxiliary header size"
  | .xcoffSections => "Invalid XCOFF section headers"
  | .xcoffSymbols => "Invalid XCOFF symbol table offset or size"
  | .xcoffStrings => "Missing XCOFF string table"

/-- The bytes `[off, off + len)` of a file, when the file holds them all. -/
def bytesAt? (data : ByteArray) (off len : Nat) : Option ByteArray :=
  if off + len ≤ data.size then some (data.extract off (off + len)) else none

/-- An unsigned integer of `width` bytes at `off`. -/
def uintAt? (data : ByteArray) (order : ByteOrder) (off width : Nat) : Option Nat :=
  (bytesAt? data off width).map fun b => order.readUInt b.toList

/-- An unsigned integer of `width` bytes at `off` of a record already known to be long enough. -/
def field (rec : ByteArray) (order : ByteOrder) (off width : Nat) : Nat :=
  order.readUInt (rec.extract off (off + width)).toList

/-- The bytes before the first zero byte, or all of them. -/
def untilZero (bs : List UInt8) : List UInt8 :=
  bs.takeWhile (· != 0)

/-- `count` records of `size` bytes from `off`, when the file holds them all. -/
def recordsAt? (data : ByteArray) (off size count : Nat) : Option (List ByteArray) :=
  if off + size * count ≤ data.size then
    some ((List.range count).map fun i => data.extract (off + i * size) (off + i * size + size))
  else none

/-- A range of a file holding zero-terminated strings; an absent table holds none. -/
structure StringTable where
  data : Option ByteArray := none
  start : Nat := 0
  stop : Nat := 0

/-- The string at `offset` in the table: it must end with a zero byte before the table's end,
and the table must lie inside the file. -/
def StringTable.get? (t : StringTable) (offset : Nat) : Option (List UInt8) := do
  let data ← t.data
  let from_ := t.start + offset
  if from_ ≤ t.stop && t.stop ≤ data.size then
    let bs := (data.extract from_ t.stop).toList
    match bs.findIdx? (· == 0) with
    | some n => some (bs.take n)
    | none => none
  else none

/-- Bytes as UTF-8 text, when they are well-formed. -/
def utf8? (bs : List UInt8) : Option String :=
  Text.decodeStrict? bs

end SwiftReflection.Format
