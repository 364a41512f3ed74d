import SwiftReflection.Format.Kind
import SwiftReflection.Image.Basic
/-!
# XCOFF files

An XCOFF file is big-endian, with a file header of 20 bytes (32-bit) or 24 bytes (64-bit), an
auxiliary header, section headers of 40 or 72 bytes and an optional symbol table of 18-byte
records followed by a string table. The auxiliary header is skipped, except that an executable
whose auxiliary header has exactly the full size must hold all of it.

A section's name is its eight-byte name field up to the first zero byte, its address is its
physical address, and its contents are its size in bytes at its file pointer; a section whose
contents do not fit is left out.

A symbol defines an address when it is in a section, is external, weak external or hidden
external, and its last auxiliary record is a csect record (in a 64-bit file, one marked as such)
whose type is a section definition, a label or a common block. Its address is its value. A
32-bit symbol's name is inline unless the field starts with a zero byte; a 64-bit symbol's name
is always in the string table.
-/

namespace SwiftReflection.Format

/-- The sizes and field offsets of one XCOFF class. -/
structure XcoffShape where
  wide : Bool

namespace XcoffShape

/-- The size of the file header. -/
def headerSize (s : XcoffShape) : Nat := if s.wide then 24 else 20

/-- The size of a full auxiliary header. -/
def auxSize (s : XcoffShape) : Nat := if s.wide then 120 else 72

/-- The size of a section header. -/
def sectionSize (s : XcoffShape) : Nat := if s.wide then 72 else 40

/-- Reads a section header: its name, physical address, size and file pointer. -/
def sectionHeader (s : XcoffShape) (h : ByteArray) : List UInt8 × Nat × Nat × Nat :=
  let o := ByteOrder.big
  if s.wide then ((h.extract 0 8).toList, field h o 8 8, field h o 24 8, field h o 32 8)
  else ((h.extract 0 8).toList, field h o 8 4, field h o 16 4, field h o 20 4)

/-- The value of a symbol record. -/
def value (s : XcoffShape) (e : ByteArray) : Nat :=
  if s.wide then field e .big 0 8 else field e .big 8 4

/-- The section number of a symbol record, a signed 16-bit number. -/
def sectionNumber (e : ByteArray) : Int :=
  let n := field e .big 12 2
  if n ≥ pow2 15 then (n : Int) - pow2 16 else n

/-- The name of a symbol record. -/
def name? (s : XcoffShape) (strings : StringTable) (e : ByteArray) : Option String :=
  let raw := (e.extract 0 8).toList
  let bytes :=
    if s.wide then strings.get? (field e .big 8 4)
    else if raw.head? == some 0 then strings.get? (field e .big 4 4)
    else some (untilZero raw)
  bytes.bind utf8?

/-- Whether an auxiliary record is a csect record that defines something: its symbol type (the
low three bits of its type byte) is a section definition, a label or a common block, and in a
64-bit file its record type is the csect type. -/
def definesCsect (s : XcoffShape) (aux : ByteArray) : Bool :=
  let kind := field aux .big 10 1 % 8
  (kind == 1 || kind == 2 || kind == 3) && (!s.wide || field aux .big 17 1 == 251)

end XcoffShape

/-- The defined symbols of a symbol table of `records`, walking from record `index` and skipping
each record's auxiliary records. -/
def xcoffSymbols (shape : XcoffShape) (strings : StringTable) (records : Array ByteArray)
    (index : Nat) : List Symbol :=
  if h : index < records.size then
    let e := records[index]
    let aux := field e .big 17 1
    let cls := field e .big 16 1
    let defined :=
      0 < XcoffShape.sectionNumber e && aux > 0 && (cls == 2 || cls == 111 || cls == 107) &&
        match records[index + aux]? with
        | some a => shape.definesCsect a
        | none => false
    let here : List Symbol := match defined, shape.name? strings e with
      | true, some name => [⟨name, shape.value e⟩]
      | _, _ => []
    here ++ xcoffSymbols shape strings records (index + 1 + aux)
  else []
termination_by records.size - index

/-- Reads an XCOFF file; `wide` is set for the 64-bit class. -/
def readXcoff (data : ByteArray) (wide : Bool) : Except Fault Container := do
  let shape : XcoffShape := ⟨wide⟩
  let o := ByteOrder.big
  let some h := bytesAt? data 0 shape.headerSize | throw .xcoffHeader
  let nsections := field h o 2 2
  let (symtab, auxSize, flags, nsyms) :=
    if wide then (field h o 8 8, field h o 16 2, field h o 18 2, field h o 20 4)
    else (field h o 8 4, field h o 16 2, field h o 18 2, field h o 12 4)
  if flags &&& 2 != 0 && auxSize == shape.auxSize
      && shape.headerSize + auxSize > data.size then
    throw .xcoffAuxHeader
  let headerAt := shape.headerSize + auxSize
  let headers ← if nsections == 0 then pure [] else
    match recordsAt? data headerAt shape.sectionSize nsections with
    | some hs => pure hs
    | none => throw .xcoffSections
  let (records, strings) ← if symtab == 0 then pure ([], ({} : StringTable)) else do
    let some records := recordsAt? data symtab 18 nsyms | throw .xcoffSymbols
    let tableStart := symtab + 18 * nsyms
    let some len := uintAt? data o tableStart 4 | throw .xcoffStrings
    let strings : StringTable := { data := some data, start := tableStart, stop := tableStart + len }
    pure (records, strings)
  let listed := headers.filterMap fun s => do
    let (raw, address, size, offset) := shape.sectionHeader s
    let name ← utf8? (untilZero raw)
    let bytes ← bytesAt? data offset size
    some (Section.mk name address bytes)
  return Container.mk listed (xcoffSymbols shape strings records.toArray 0)
    (if wide then 8 else 4) o

end SwiftReflection.Format
