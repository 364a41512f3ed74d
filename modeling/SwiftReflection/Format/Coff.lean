import SwiftReflection.Format.Kind
import SwiftReflection.Image.Basic
/-!
# COFF object files

A COFF object file has a 20-byte header, an optional header it skips, section headers and,
when the header points at one, a symbol table followed by a string table. A big object file
has a 56-byte header of its own, no optional header, and symbol records of 20 bytes with a
32-bit section number. COFF objects are always 32-bit and little-endian.

A section name of the form `/n` is at decimal offset `n` of the string table and `//x` at
base-64 offset `x`; other names are at most eight bytes. A section address is its virtual
address; uninitialized sections are empty, and a section whose name cannot be read or whose
range does not fit is left out.

A symbol whose name field starts with a zero byte has its name in the string table, at the
offset held by the field's last four bytes. A symbol defines an address when it is in a
section and is external, weak external or static (but not a section symbol: a static symbol
of no type with auxiliary records); its address is the image base plus its section's address
plus its value, in 64-bit arithmetic.
-/

namespace SwiftReflection.Format

/-- The value of a base-64 digit of a long section name. -/
def base64Digit? (c : UInt8) : Option Nat :=
  if 0x41 ≤ c && c ≤ 0x5A then some (c.toNat - 0x41)
  else if 0x61 ≤ c && c ≤ 0x7A then some (c.toNat - 0x61 + 26)
  else if 0x30 ≤ c && c ≤ 0x39 then some (c.toNat - 0x30 + 52)
  else if c == 0x2B then some 62
  else if c == 0x2F then some 63
  else none

/-- The decimal offset of a `/n` name: digits up to the first zero byte. -/
def decimalOffset? : List UInt8 → Nat → Option Nat
  | [], acc => some acc
  | c :: rest, acc =>
    if c == 0 then some acc
    else if 0x30 ≤ c && c ≤ 0x39 then decimalOffset? rest (acc * 10 + (c.toNat - 0x30))
    else none

/-- The bytes of a section or symbol name field of eight bytes. -/
def coffSectionName? (strings : StringTable) (raw : List UInt8) : Option (List UInt8) :=
  match raw with
  | 0x2F :: 0x2F :: digits =>
    (digits.foldlM (fun acc c => (base64Digit? c).map (acc * 64 + ·)) 0).bind fun n =>
      if n < pow2 32 then strings.get? n else none
  | 0x2F :: digits => (decimalOffset? digits 0).bind fun n => strings.get? (n % pow2 32)
  | _ => some (untilZero raw)

/-- The layout of a symbol record: plain records are 18 bytes with a 16-bit section number,
big object records 20 bytes with a 32-bit one. -/
structure SymbolShape where
  big : Bool

namespace SymbolShape

/-- The size of a record. -/
def size (s : SymbolShape) : Nat := if s.big then 20 else 18

/-- The offset of the type field; the class and the auxiliary count follow it. -/
def typeAt (s : SymbolShape) : Nat := if s.big then 16 else 14

/-- The section number of a record. A 16-bit number from `0xFEFF` on is negative (the reserved
numbers), and a 32-bit number is signed. -/
def sectionNumber (s : SymbolShape) (e : ByteArray) : Int :=
  if s.big then
    let n := field e .little 12 4
    if n ≥ pow2 31 then (n : Int) - pow2 32 else n
  else
    let n := field e .little 12 2
    if n ≥ 0xFEFF then (n : Int) - 0x10000 else n

end SymbolShape

/-- Whether a symbol record defines an address: it is in a section and is external, weak
external, or static without being a section symbol. -/
def coffDefines (cls aux type : Nat) (number : Int) : Bool :=
  0 < number && (cls == 2 || cls == 105 || (cls == 3 && !(aux > 0 && type == 0)))

/-- The name of a symbol record: in the string table when the field starts with a zero byte,
else the field up to its first zero byte. -/
def coffSymbolName? (strings : StringTable) (e : ByteArray) : Option String :=
  let raw := (e.extract 0 8).toList
  let bytes := if raw.head? == some 0 then strings.get? (field e .little 4 4)
    else some (untilZero raw)
  bytes.bind utf8?

/-- The defined symbols of a symbol table, walking its records in order and skipping each
record's auxiliary records. -/
def coffSymbols (shape : SymbolShape) (strings : StringTable)
    (sectionAddress : Int → Option Nat) : List ByteArray → List Symbol
  | [] => []
  | e :: rest =>
    let o := ByteOrder.little
    let aux := field e o (shape.typeAt + 3) 1
    let cls := field e o (shape.typeAt + 2) 1
    let type := field e o shape.typeAt 2
    let number := shape.sectionNumber e
    let value := field e o 8 4
    let here : List Symbol := match coffDefines cls aux type number, coffSymbolName? strings e with
      | true, some name => [⟨name, ((sectionAddress number).map (· + value)).getD 0 % pow2 64⟩]
      | _, _ => []
    here ++ coffSymbols shape strings sectionAddress (rest.drop aux)
termination_by xs => xs.length
decreasing_by simp only [List.length_drop, List.length_cons]; omega

/-- The symbol records and string table of a file whose header puts `count` records at
`offset`; an offset of zero means there are none. -/
def coffSymbolTable (data : ByteArray) (shape : SymbolShape) (offset count : Nat) :
    Except Fault (List ByteArray × StringTable) := do
  if offset == 0 then return ([], {})
  let some records := recordsAt? data offset shape.size count | throw .coffSymbols
  let tableStart := offset + shape.size * count
  let some len := uintAt? data .little tableStart 4 | throw .coffStrings
  return (records, { data := some data, start := tableStart, stop := tableStart + len })

/-- The address of the section with a symbol's section number, offset by the image base. -/
def coffSectionAddress (headers : List ByteArray) (base : Nat) (i : Int) : Option Nat :=
  if 0 < i then (headers[i.toNat - 1]?).map (base + field · .little 12 4) else none

/-- The sections named by a table of section headers; `range` gives the file range of a
header's contents, `none` for a section without any, and `base` is added to every address
modulo 2^64. -/
def coffSectionList (data : ByteArray) (strings : StringTable) (base : Nat)
    (range : ByteArray → Option (Nat × Nat)) (headers : List ByteArray) : List Section :=
  headers.filterMap fun s => do
    let name ← (coffSectionName? strings (s.extract 0 8).toList).bind utf8?
    let bytes ← match range s with
      | none => some ByteArray.empty
      | some (off, len) => bytesAt? data off len
    some (Section.mk name ((base + field s .little 12 4) % pow2 64) bytes)

/-- The file range of an object file section: none when it is uninitialized. -/
def objectRange (s : ByteArray) : Option (Nat × Nat) :=
  if field s .little 36 4 &&& 0x80 != 0 then none
  else some (field s .little 20 4, field s .little 16 4)

/-- Reads the sections and symbols of an object file whose section headers are at `headerAt`. -/
def readObjectTables (data : ByteArray) (shape : SymbolShape) (headerAt nsections symtab nsyms : Nat) :
    Except Fault Container := do
  let some headers := recordsAt? data headerAt 40 nsections | throw .coffSections
  let (symbols, strings) ← coffSymbolTable data shape symtab nsyms
  let listed := coffSectionList data strings 0 objectRange headers
  return Container.mk listed
    (coffSymbols shape strings (coffSectionAddress headers 0) symbols) 4 .little

/-- Reads a COFF object file. -/
def readCoff (data : ByteArray) : Except Fault Container := do
  let some h := bytesAt? data 0 20 | throw .coffHeader
  let o := ByteOrder.little
  readObjectTables data ⟨false⟩ (20 + field h o 16 2) (field h o 2 2) (field h o 8 4)
    (field h o 12 4)

/-- Reads a COFF big object file; its header must carry the big object signature, a version of
at least 2 and the big object class identifier. -/
def readCoffBig (data : ByteArray) : Except Fault Container := do
  let some h := bytesAt? data 0 56 | throw .coffBigHeader
  let o := ByteOrder.little
  if field h o 0 2 != 0 || field h o 2 2 != 0xFFFF || field h o 4 2 < 2
      || (h.extract 12 28).toList != bigObjectClassId then
    throw .coffBigValues
  readObjectTables data ⟨true⟩ 56 (field h o 44 4) (field h o 48 4) (field h o 52 4)

end SwiftReflection.Format
