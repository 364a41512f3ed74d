import SwiftReflection.Format.Kind
import SwiftReflection.Image.Basic
/-!
# Mach-O files

A Mach-O file starts with a header whose magic gives its width and byte order, followed by load
commands. Segment commands of the file's width carry the section headers; a symbol table command
locates the symbols and their strings. A load command table that does not fit the file, or a
malformed command, ends the list of commands quietly; a malformed segment or symbol table
command refuses the file.

A section's bytes are its file range, except for zero-fill sections, which have none; a section
whose range does not fit the file, whose name is not UTF-8, or whose contents are compressed (a
`__zdebug_` section) is left out. Symbols are the definitions (section symbols that are not
debugging entries) with readable names.

A universal file holds one slice per architecture; the slice for the preferred CPU type is
read, or else the first.
-/

namespace SwiftReflection.Format

/-- The sizes of a Mach-O file's structures, by width. -/
structure MachLayout where
  wide : Bool
  header : Nat := if wide then 32 else 28
  segmentCommand : Nat := if wide then 0x19 else 0x1
  segment : Nat := if wide then 72 else 56
  sectionHeader : Nat := if wide then 80 else 68
  nlist : Nat := if wide then 16 else 12

/-- A section header of a segment command: name, address, size, file offset and flags. -/
structure MachSection where
  name : List UInt8
  address : Nat
  size : Nat
  offset : Nat
  flags : Nat

/-- Reads a section header. -/
def MachLayout.sectionOf (m : MachLayout) (o : ByteOrder) (rec : ByteArray) : MachSection :=
  let w := if m.wide then 8 else 4
  { name := untilZero (rec.extract 0 16).toList
    address := field rec o 32 w
    size := field rec o (32 + w) w
    offset := field rec o (32 + 2 * w) 4
    flags := field rec o (if m.wide then 64 else 56) 4 }

/-- The bytes of a section, if it has a file range that fits; zero-fill sections have none. -/
def MachSection.data? (s : MachSection) (data : ByteArray) : Option ByteArray :=
  if [0x1, 0xC, 0x12].contains (s.flags % 256) then some ByteArray.empty
  else bytesAt? data s.offset s.size

/-- The load commands that fit, in order: each is its command number and bytes. -/
def machCommands (data : ByteArray) (o : ByteOrder) : Nat → Nat → Nat → List (Nat × ByteArray)
  | 0, _, _ => []
  | _, 0, _ => []
  | fuel + 1, count + 1, off =>
    match bytesAt? data off 8 with
    | none => []
    | some h =>
      let size := field h o 4 4
      if size < 8 then []
      else match bytesAt? data off size with
        | none => []
        | some c => (field h o 0 4, c) :: machCommands data o fuel count (off + size)

/-- Reads a thin Mach-O file of the given width. -/
def readMachO (data : ByteArray) (wide : Bool) : Except Fault Container := do
  let m : MachLayout := { wide := wide }
  let some h := bytesAt? data 0 m.header | throw .machHeader
  let o : ByteOrder := if h.get! 0 == 0xFE then .big else .little
  let ncmds := field h o 16 4
  let table := field h o 20 4
  -- commands are read from the table that follows the header, when it fits the file
  let cmds := match bytesAt? data m.header table with
    | some t => machCommands t o (t.size + 1) ncmds 0
    | none => []
  let mut sections : List Section := []
  let mut symbols : List Symbol := []
  for (cmd, c) in cmds do
    if cmd == m.segmentCommand then
      let some seg := bytesAt? c 0 m.segment | throw .machCommandSize
      let nsects := field seg o (if wide then 64 else 48) 4
      let some recs := recordsAt? c m.segment m.sectionHeader nsects | throw .machSectionCount
      for rec in recs do
        let s := m.sectionOf o rec
        match utf8? s.name, s.data? data with
        | some name, some bytes =>
          if !name.startsWith "__zdebug_" then
            sections := sections ++ [⟨name, s.address, bytes⟩]
        | _, _ => pure ()
    else if cmd == 0x2 then
      let some st := bytesAt? c 0 24 | throw .machCommandSize
      let symoff := field st o 8 4
      let nsyms := field st o 12 4
      let stroff := field st o 16 4
      let strsize := field st o 20 4
      let some entries := recordsAt? data symoff m.nlist nsyms | throw .machSymbols
      let strings : StringTable := { data := some data, start := stroff, stop := stroff + strsize }
      symbols := entries.filterMap fun e =>
        let ty := field e o 4 1
        if ty &&& 0xE0 == 0 && ty &&& 0x0E == 0x0E then
          match (strings.get? (field e o 0 4)).bind utf8? with
          | some name => some ⟨name, field e o 8 (if wide then 8 else 4)⟩
          | none => none
        else none
  return { sections, symbols, pointerWidth := if wide then 8 else 4, order := o }

/-- The CPU type of x86-64, the architecture whose slice is preferred. -/
def preferredCpu : Nat := 0x01000007

/-- The slice of a universal file to read: the first for the preferred CPU type, else the
first of all. -/
def fatSlice (data : ByteArray) (wide : Bool) : Except Fault ByteArray := do
  let some h := bytesAt? data 0 8 | throw .fatHeader
  if field h .big 0 4 != (if wide then 0xCAFEBABF else 0xCAFEBABE) then throw (.fatMagic wide)
  let size := if wide then 32 else 20
  let some arches := recordsAt? data 8 size (field h .big 4 4) | throw .fatCount
  let pick := (arches.find? fun a => field a .big 0 4 == preferredCpu).orElse fun _ => arches.head?
  let some a := pick | throw .noSlices
  let (off, len) := if wide then (field a .big 8 8, field a .big 16 8)
    else (field a .big 8 4, field a .big 12 4)
  match bytesAt? data off len with
  | some slice => pure slice
  | none => throw .fatSlice

end SwiftReflection.Format
