import SwiftReflection.Decode.Window
import SwiftReflection.Pointer.Offset
import SwiftReflection.Text.Utf8
/-!
# Symbolic name runs

A mangled name in reflection metadata may embed references to other metadata. A control byte
from `0x01` to `0x17` is followed by a 4-byte relative reference, one from `0x18` to `0x1F` by
an absolute pointer of the image's pointer width, and `0x00` ends the run; every other byte is
text.

`runExtent?` finds where a run ends, skipping reference payloads (which may hold zero bytes);
`NameRun.pieces` splits a run into text and references, resolving relative references against
the run's address.
-/

namespace SwiftReflection

/-- Length of the payload after a control byte, or nothing for a text byte. -/
def payloadLength (width : Nat) (c : UInt8) : Option Nat :=
  if 1 ≤ c && c ≤ 0x17 then some 4
  else if 0x18 ≤ c && c ≤ 0x1F then some width
  else none

/-- Length of the run before its terminating zero, skipping reference payloads; nothing when
the bytes end first or a payload runs past their end. -/
def runExtent? (width : Nat) : List UInt8 → Option Nat
  | [] => none
  | c :: rest =>
    if c == 0 then some 0
    else
      let skip := (payloadLength width c).getD 0
      if rest.length < skip then none
      else (runExtent? width (rest.drop skip)).map (· + 1 + skip)
termination_by bs => bs.length
decreasing_by simp only [List.length_drop, List.length_cons]; omega

/-- A run of name bytes at an address, read with the image's pointer width and byte order. -/
structure NameRun where
  address : Nat
  bytes : List UInt8
  width : Nat
  order : ByteOrder

/-- A piece of a name run: text bytes, or a reference with its control byte and target. -/
inductive NamePiece where
  | text (bytes : List UInt8)
  | reference (control : UInt8) (target : Nat)
  deriving DecidableEq, Repr

/-- The pending text, as a piece when it is not empty. -/
def NamePiece.textPiece (pending : List UInt8) : List NamePiece :=
  if pending.isEmpty then [] else [.text pending]

namespace NameRun

/-- The target of a reference whose control byte is at `index`: relative references count
from the byte after the control byte, wrapping within 64 bits; absolute ones are the value. -/
def referenceTarget (r : NameRun) (index : Nat) (c : UInt8) (value : Nat) : Nat :=
  if c ≤ 0x17 then
    ((r.address + index + 1 + signed32 value.toUInt32) % (pow2 64 : Int)).toNat
  else value

/-- Splits the bytes from `index` on into pieces; `pending` is the text since the last
reference. A payload that runs past the end makes the rest text. -/
def piecesFrom (r : NameRun) (index : Nat) (pending : List UInt8) :
    List UInt8 → List NamePiece
  | [] => NamePiece.textPiece pending
  | c :: rest =>
    match payloadLength r.width c with
    | none => piecesFrom r (index + 1) (pending ++ [c]) rest
    | some p =>
      if rest.length < p then NamePiece.textPiece (pending ++ c :: rest)
      else
        NamePiece.textPiece pending ++
          .reference c (r.referenceTarget index c (r.order.readUInt (rest.take p))) ::
          piecesFrom r (index + 1 + p) [] (rest.drop p)
termination_by bs => bs.length
decreasing_by all_goals (simp only [List.length_drop, List.length_cons]; omega)

/-- The pieces of a run, in order. -/
def pieces (r : NameRun) : List NamePiece :=
  r.piecesFrom 0 [] r.bytes

/-- A piece as text: decoded text, or `<ref 0xNN @0xTARGET>` for a reference. -/
def NamePiece.verbatim : NamePiece → String
  | .text bs => Text.decodeLossy bs
  | .reference c t => "<ref 0x" ++ Text.padLeft 2 '0' (Text.hexDigits c.toNat) ++ " @" ++ Text.hex t ++ ">"

/-- The run as text, with references written out verbatim. -/
def verbatim (r : NameRun) : String :=
  String.join (r.pieces.map NamePiece.verbatim)

/-- Whether the run holds no reference. -/
def isPlainText (r : NameRun) : Bool :=
  r.pieces.all fun p => match p with
    | .text _ => true
    | .reference .. => false

end NameRun

/-- How names are turned into display text: plain names, and runs that may hold references.
`runExtent` measures the run at the start of some bytes, for a pointer width, and a decoder may
measure runs its own way; by default it is the extent scan `runExtent?`. -/
structure NameDecoder where
  decode : String → String
  runExtent : List UInt8 → Nat → Option Nat := fun bytes width => runExtent? width bytes
  decodeRun : NameRun → String

/-- Names as they are stored, with references written out. -/
def NameDecoder.verbatim : NameDecoder where
  decode := id
  decodeRun := NameRun.verbatim

end SwiftReflection
