import SwiftReflection.Catalog.Layouts
import SwiftReflection.Pointer.Resolve
/-!
# Scanning images

A scanner loads images one by one and decodes the records of their metadata sections. Adding a
container first checks that its sections fit the address space, then classifies each section by
the section table, in container order: a section with a role is decoded later, one under a
claimed namespace without a role is an `Error.unrecognizedSection` issue, and all others are
ignored. Then each classified section is decoded back to back with the layout of its role, from
its start to its end (or to `maxRecords` records), unless a role it requires has no section or
its role has no layout.

A failure stops its section. Under `FailurePolicy.isolate` it becomes an issue at the failing
record's address and the records before it are kept; under `FailurePolicy.failFast` the whole
add fails and the scanner is unchanged. Image numbers count up from 0, and a number is used only
by an add that succeeds.
-/

namespace SwiftReflection

/-- What a scan does with a section that fails to decode. -/
inductive FailurePolicy where
  | isolate
  | failFast
  deriving DecidableEq, Repr

/-- How a scanner classifies and decodes sections. -/
structure ScanConfig where
  table : SectionTable := .swift5
  policy : FailurePolicy := .isolate
  maxRecords : Nat := 0

/-- A decoded record of a section. -/
structure Entry where
  image : Nat
  role : Role
  sectionName : String
  address : Nat
  value : Record

/-- A problem met while scanning a section. -/
structure Issue where
  image : Nat
  role : Option Role
  sectionName : String
  address : Nat
  error : Error

/-- The text of an issue. -/
def Issue.display (i : Issue) : String :=
  s!"image #{i.image} section '{i.sectionName}'" ++
    (match i.role with
     | some r => s!" ({r.short})"
     | none => "") ++
    " at " ++ Text.hex i.address ++ ": " ++ i.error.message

/-- Records decoded from one section, and the failure that stopped it, with its address. -/
structure SectionScan where
  entries : List Entry := []
  failure : Option (Nat × Error) := none

/-- Decodes records back to back from a window until it is empty, a record takes no bytes, the
limit is reached or a record fails; `fuel` bounds the number of records. -/
def decodeRecords (img : Nat) (role : Role) (name : String) (l : Layout) (limit : Nat) :
    Nat → Nat → Window → SectionScan
  | 0, _, _ => {}
  | fuel + 1, count, w =>
    if w.remaining == 0 || (limit > 0 && count ≥ limit) then {}
    else
      match l.decodeRecord w with
      | .error e => { failure := some (w.address, e) }
      | .ok (r, next) =>
        if next.address == w.address then {}
        else
          let rest := decodeRecords img role name l limit fuel (count + 1) next
          { rest with entries := ⟨img, role, name, w.address, r⟩ :: rest.entries }

/-- Decodes a whole section with a layout. -/
def Section.scan (s : Section) (img : Nat) (role : Role) (l : Layout) (limit : Nat) :
    SectionScan :=
  decodeRecords img role s.name l limit (s.size + 1) 0 s.window

/-- The records and issues of one image. -/
structure ImageScan where
  entries : List Entry := []
  issues : List Issue := []

namespace ScanConfig

/-- Classifies an image's sections: the sections with a role, in order, and an issue for each
section in a claimed namespace without one. -/
def classify (c : ScanConfig) (img : Image) : List (Role × Section) × List Issue :=
  img.sections.foldl (fun (found, issues) s =>
    match c.table.classify s.name with
    | some r => (found ++ [(r, s)], issues)
    | none =>
      if c.table.claims s.name then
        (found, issues ++ [⟨img.id, none, s.name, s.address, .unrecognizedSection s.name⟩])
      else (found, issues)) ([], [])

/-- Decodes the classified sections in order; under `failFast` the first failure is the
result. -/
def decodeAll (c : ScanConfig) (img : Image) (found : List (Role × Section)) :
    List (Role × Section) → ImageScan → Except Error ImageScan
  | [], acc => .ok acc
  | (role, s) :: rest, acc =>
    let missing := (c.table.required role).any fun needed => !found.any (·.1 == needed)
    match missing, Catalog.layoutFor role img.order with
    | false, some l =>
      let scan := s.scan img.id role l c.maxRecords
      let acc := { acc with entries := acc.entries ++ scan.entries }
      match scan.failure with
      | none => decodeAll c img found rest acc
      | some (address, e) =>
        match c.policy with
        | .failFast => .error e
        | .isolate =>
          decodeAll c img found rest
            { acc with issues := acc.issues ++ [⟨img.id, some role, s.name, address, e⟩] }
    | _, _ => decodeAll c img found rest acc

/-- Scans one image. -/
def scanImage (c : ScanConfig) (img : Image) : Except Error ImageScan :=
  let (found, issues) := c.classify img
  c.decodeAll img found found { issues := issues }

end ScanConfig

/-- Whether the scanner holds no image or how many. -/
inductive ScannerState where
  | empty
  | loaded (count : Nat)
  deriving DecidableEq, Repr

/-- Loaded images with their records and issues. -/
structure Scanner where
  config : ScanConfig := {}
  images : List Image := []
  entries : List Entry := []
  issues : List Issue := []
  nextId : Nat := 0

namespace Scanner

/-- The state of a scanner. -/
def state (s : Scanner) : ScannerState :=
  if s.images.isEmpty then .empty else .loaded s.images.length

/-- Adds a container under a path, returning the image number and the new issues. -/
def add (s : Scanner) (path : String) (c : Container) :
    Except Error (Nat × List Issue × Scanner) := do
  c.checkAddressSpace path
  let img := Image.ofContainer s.nextId path c
  let scan ← s.config.scanImage img
  return (img.id, scan.issues, { s with
    images := s.images ++ [img]
    entries := s.entries ++ scan.entries
    issues := s.issues ++ scan.issues
    nextId := s.nextId + 1 })

/-- Adds the container a reader opened at a path; a failed open is the answer. -/
def addImage (s : Scanner) (path : String) (opened : Except Error Container) :
    Except Error (Nat × List Issue × Scanner) := do
  s.add path (← opened)

/-- The image with this number. -/
def image? (s : Scanner) (id : Nat) : Option Image :=
  s.images.find? (·.id == id)

/-- The image with this number, or `unknownImage`. -/
def image (s : Scanner) (id : Nat) : Except Error Image :=
  match s.image? id with
  | some img => .ok img
  | none => .error (.unknownImage id)

/-- Unloads an image with its records and issues. -/
def remove (s : Scanner) (id : Nat) : Except Error (Image × Scanner) := do
  let img ← s.image id
  return (img, { s with
    images := s.images.filter (·.id != id)
    entries := s.entries.filter (·.image != id)
    issues := s.issues.filter (·.image != id) })

/-- The records of a role, in load and section order. -/
def records (s : Scanner) (role : Role) : List Entry :=
  s.entries.filter (·.role == role)

/-- Typed views of the records of a role, one result per record. -/
def typed {α : Type} (s : Scanner) (role : Role) (view : Image → Record → Except Error α) :
    List (Except Error α) :=
  (s.records role).map fun e => do view (← s.image e.image) e.value

end Scanner

end SwiftReflection
