import SwiftReflection.Format.Coff
/-!
# PE images

A PE image starts with a DOS header whose last field gives the offset of the NT headers: the
`PE\0\0` signature, a COFF file header and an optional header whose magic tells PE32 from
PE32+. The optional header must be at least as long as its fixed part, and the data directory
entries it announces must fit in the rest of it; the section headers follow it.

Section addresses are relative to the image base, which is added to each of them modulo 2^64.
A section's contents are the smaller of its raw size and its virtual size, read at its raw data
pointer; a section whose name cannot be read or whose contents do not fit is left out. The
symbol table is optional in an image: when it cannot be read, the image has no symbols and no
string table.
-/

namespace SwiftReflection.Format

/-- The fixed part of the optional header of PE32 (96 bytes) and PE32+ (112 bytes). -/
def peOptionalFixed (wide : Bool) : Nat := if wide then 112 else 96

/-- The file range of an image section: its raw data pointer and the smaller of its raw and
virtual sizes. -/
def imageRange (s : ByteArray) : Option (Nat × Nat) :=
  some (field s .little 20 4, min (field s .little 8 4) (field s .little 16 4))

/-- Reads a PE image; `wide` is set for PE32+. -/
def readPe (data : ByteArray) (wide : Bool) : Except Fault Container := do
  let o := ByteOrder.little
  let nt := (uintAt? data o 60 4).getD 0
  let some headers := bytesAt? data nt (24 + peOptionalFixed wide) | throw .peHeaders
  let optionalSize := field headers o 20 2
  if optionalSize < peOptionalFixed wide then throw .peOptionalSmall
  let rest := optionalSize - peOptionalFixed wide
  if nt + 24 + optionalSize > data.size then throw .peOptionalSize
  let directories := field headers o (24 + peOptionalFixed wide - 4) 4
  if directories * 8 > rest then throw .peDirectories
  let base := if wide then field headers o (24 + 24) 8 else field headers o (24 + 28) 4
  let some sections := recordsAt? data (nt + 24 + optionalSize) 40 (field headers o 6 2)
    | throw .coffSections
  let (symbols, strings) :=
    match coffSymbolTable data ⟨false⟩ (field headers o 12 4) (field headers o 16 4) with
    | .ok table => table
    | .error _ => ([], {})
  let listed := coffSectionList data strings base imageRange sections
  return Container.mk listed
    (coffSymbols ⟨false⟩ strings (coffSectionAddress sections base) symbols)
    (if wide then 8 else 4) o

end SwiftReflection.Format
