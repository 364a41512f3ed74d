import SwiftReflection.Decode.Window
/-!
# Containers and images

A container is what reading a binary yields: named sections with their addresses and bytes,
symbols, the pointer width and the byte order. An image is a container loaded under a number
and a path, with its symbols sorted by address (stably, so equal addresses keep their order).

Every section of an image fits the 64-bit address space: loading checks
`Container.checkAddressSpace` first.
-/

namespace SwiftReflection

/-- A named range of bytes at an address. -/
structure Section where
  name : String
  address : Nat
  data : ByteArray

namespace Section

/-- Number of bytes in the section. -/
def size (s : Section) : Nat := s.data.size

/-- The address after the last byte, saturating at `u64Max`. -/
def limit (s : Section) : Nat := min (s.address + s.size) u64Max

/-- Whether the section's last byte has a 64-bit address. -/
def fits (s : Section) : Bool := s.address + s.size ≤ u64Max

/-- Whether the section holds the byte at `a`. -/
def contains (s : Section) (a : Nat) : Bool := s.address ≤ a && a < s.limit

/-- A window over the whole section. -/
def window (s : Section) : Window := { data := s.data, origin := s.address }

/-- A window at address `a` of the section, if the section holds it. -/
def windowAt? (s : Section) (a : Nat) : Option Window :=
  if s.contains a then some { s.window with pos := a - s.address } else none

end Section

/-- A named address. -/
structure Symbol where
  name : String
  address : Nat
  deriving DecidableEq, Repr

/-- The sections, symbols, pointer width and byte order read from a binary. -/
structure Container where
  sections : List Section := []
  symbols : List Symbol := []
  pointerWidth : Nat := 8
  order : ByteOrder := .little

/-- Fails with `fileFormat` at the first section that does not fit the address space. -/
def Container.checkAddressSpace (c : Container) (path : String) : Except Error Unit :=
  match c.sections.find? (fun s => !s.fits) with
  | some s => .error (.fileFormat path (s!"section {s.name} at " ++ Text.hex s.address ++
      s!" ({s.size} bytes) overflows the address space"))
  | none => .ok ()

/-- A container loaded under a number and a path, with symbols sorted by address. -/
structure Image where
  id : Nat
  path : String
  sections : List Section
  symbols : List Symbol
  pointerWidth : Nat
  order : ByteOrder

namespace Image

/-- Loads a container: symbols are sorted stably by address. -/
def ofContainer (id : Nat) (path : String) (c : Container) : Image where
  id := id
  path := path
  sections := c.sections
  symbols := c.symbols.mergeSort (fun a b => a.address ≤ b.address)
  pointerWidth := c.pointerWidth
  order := c.order

/-- The first section with this name. -/
def section? (img : Image) (name : String) : Option Section :=
  img.sections.find? (fun s => s.name == name)

/-- The first section holding address `a`. -/
def sectionContaining? (img : Image) (a : Nat) : Option Section :=
  img.sections.find? (fun s => s.contains a)

/-- The symbol at address `a`: the first of the sorted symbols at or above `a`, if it is at
`a`. -/
def symbolAt? (img : Image) (a : Nat) : Option Symbol :=
  match img.symbols.dropWhile (fun s => s.address < a) with
  | s :: _ => if s.address == a then some s else none
  | [] => none

end Image

end SwiftReflection
