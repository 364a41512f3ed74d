import SwiftReflection.Format.Coff
import SwiftReflection.Format.Elf
import SwiftReflection.Format.MachO
import SwiftReflection.Format.Pe
import SwiftReflection.Format.Xcoff
/-!
# Reading a binary file

A universal Mach-O file is narrowed to one of its slices first; the bytes that remain are read
by their format. Mach-O, ELF, COFF (plain and big object), PE and XCOFF files are read; any
other recognized format (archives, import libraries, shared caches, a universal file nested in
another) is refused. A file is accepted only when all its sections fit the 64-bit address space.
-/

namespace SwiftReflection.Format

/-- The bytes to read as a single binary: the chosen slice of a universal file, any other file
whole. -/
def thinData (data : ByteArray) : Except Fault ByteArray :=
  match Kind.detect data with
  | .ok .fat32 => fatSlice data false
  | .ok .fat64 => fatSlice data true
  | _ => .ok data

/-- Reads a single binary by its format. -/
def readThin (data : ByteArray) : Except Fault Container := do
  match ← Kind.detect data with
  | .elf32 => readElf data false
  | .elf64 => readElf data true
  | .macho32 => readMachO data false
  | .macho64 => readMachO data true
  | .coff => readCoff data
  | .coffBig => readCoffBig data
  | .pe32 => readPe data false
  | .pe64 => readPe data true
  | .xcoff32 => readXcoff data false
  | .xcoff64 => readXcoff data true
  | _ => throw .unsupportedFormat

end SwiftReflection.Format

namespace SwiftReflection

/-- Reads the binary file at `path` whose contents are `data`; a fault of the format is reported
with the path. -/
def Container.read (path : String) (data : ByteArray) : Except Error Container := do
  let c ← (Format.thinData data >>= Format.readThin).mapError fun f => .fileFormat path f.message
  c.checkAddressSpace path
  return c

end SwiftReflection
