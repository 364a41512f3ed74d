import SwiftReflection.Format.Bytes
/-!
# Recognizing binary formats

The first sixteen bytes of a file tell its format. A file shorter than that is refused outright.
An `MZ` file is a PE image only when its NT headers carry a PE32 or PE32+ optional header magic.
-/

namespace SwiftReflection.Format

/-- The formats a file can be recognized as. -/
inductive Kind where
  | archive | dyldCache | elf32 | elf64 | macho32 | macho64 | fat32 | fat64
  | pe32 | pe64 | coff | coffImport | coffBig | xcoff32 | xcoff64
  deriving DecidableEq, Repr

/-- The optional header magic of a PE image: the DOS header points at NT headers that start
with `PE\0\0` and are long enough for the PE32 form. -/
def peMagic? (data : ByteArray) : Option Nat := do
  let dos ← bytesAt? data 0 64
  if field dos .little 0 2 != 0x5A4D then none
  let nt := field dos .little 60 4
  let headers ← bytesAt? data nt 120
  if field headers .little 0 4 != 0x4550 then none
  some (field headers .little 24 2)

/-- The class identifier of a COFF big object file. -/
def bigObjectClassId : List UInt8 :=
  [0xC7, 0xA1, 0xBA, 0xD1, 0xEE, 0xBA, 0xA9, 0x4B, 0xAF, 0x20, 0xFA, 0xF6, 0x6A, 0xA4, 0xDC, 0xB8]

/-- Recognizes the format of a file from its first bytes. -/
def Kind.detect (data : ByteArray) : Except Fault Kind :=
  match bytesAt? data 0 16 with
  | none => .error .magicShort
  | some m =>
    match m.toList with
    | 0x21 :: 0x3C :: 0x61 :: 0x72 :: 0x63 :: 0x68 :: 0x3E :: 0x0A :: _ => .ok .archive
    | 0x21 :: 0x3C :: 0x74 :: 0x68 :: 0x69 :: 0x6E :: 0x3E :: 0x0A :: _ => .ok .archive
    | 0x64 :: 0x79 :: 0x6C :: 0x64 :: 0x5F :: 0x76 :: 0x31 :: 0x20 :: _ => .ok .dyldCache
    | 0x7F :: 0x45 :: 0x4C :: 0x46 :: 1 :: _ => .ok .elf32
    | 0x7F :: 0x45 :: 0x4C :: 0x46 :: 2 :: _ => .ok .elf64
    | 0xFE :: 0xED :: 0xFA :: 0xCE :: _ | 0xCE :: 0xFA :: 0xED :: 0xFE :: _ => .ok .macho32
    | 0xFE :: 0xED :: 0xFA :: 0xCF :: _ | 0xCF :: 0xFA :: 0xED :: 0xFE :: _ => .ok .macho64
    | 0xCA :: 0xFE :: 0xBA :: 0xBE :: _ => .ok .fat32
    | 0xCA :: 0xFE :: 0xBA :: 0xBF :: _ => .ok .fat64
    | 0x4D :: 0x5A :: _ =>
      match peMagic? data with
      | some 0x10B => .ok .pe32
      | some 0x20B => .ok .pe64
      | _ => .error .unknownDos
    | 0xC4 :: 0x01 :: _ | 0x64 :: 0xAA :: _ | 0x41 :: 0xA6 :: _ | 0x4C :: 0x01 :: _
    | 0x64 :: 0x86 :: _ => .ok .coff
    | 0x00 :: 0x00 :: 0xFF :: 0xFF :: 0x00 :: 0x00 :: _ => .ok .coffImport
    | 0x00 :: 0x00 :: 0xFF :: 0xFF :: 0x02 :: 0x00 :: _ =>
      match bytesAt? data 0 32 with
      | some h => if (h.extract 12 28).toList == bigObjectClassId then .ok .coffBig
        else .error .unknownAnonObject
      | none => .error .unknownAnonObject
    | 0x01 :: 0xDF :: _ => .ok .xcoff32
    | 0x01 :: 0xF7 :: _ => .ok .xcoff64
    | _ => .error .unknownMagic

end SwiftReflection.Format
