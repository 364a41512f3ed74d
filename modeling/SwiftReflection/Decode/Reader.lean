import SwiftReflection.Decode.Engine
/-!
# Byte readers

A byte reader reads a value at a window and returns it with the window after it. Readers
compose: in sequence (`pair`), with the second chosen from the first's value (`bind`), by a
mapping that reads nothing more (`map`, `tryMap`), and by repetition (`times`).
-/

namespace SwiftReflection

/-- A decoder of values of type `α` that threads the read position. -/
def ByteReader (α : Type) : Type :=
  Window → Except Error (α × Window)

namespace ByteReader

/-- Runs a reader at a window. -/
def run {α : Type} (r : ByteReader α) (w : Window) : Except Error (α × Window) :=
  r w

/-- Runs a reader at the start of a buffer that lives at address 0, keeping only its value. -/
def parse {α : Type} (r : ByteReader α) (bytes : ByteArray) : Except Error α :=
  (r { data := bytes }).map Prod.fst

/-- Reads an integer; a signed one yields its 64-bit two's-complement bits. -/
def scalar (k : ScalarKind) (o : ByteOrder) : ByteReader Nat := fun w => do
  let (raw, next) ← w.readUInt k.width o
  if k.signed then pure (bits64 (signExtend k.width raw), next) else pure (raw, next)

/-- Reads one record of a layout. -/
def layout (l : Layout) : ByteReader Value :=
  l.decodeAt

/-- Reads with `r` and then with `s` from where `r` stopped. -/
def pair {α β : Type} (r : ByteReader α) (s : ByteReader β) : ByteReader (α × β) := fun w => do
  let (a, w') ← r w
  let (b, w'') ← s w'
  pure ((a, b), w'')

/-- Reads with `r`, then with the reader its value chooses. -/
def bind {α β : Type} (r : ByteReader α) (f : α → ByteReader β) : ByteReader β := fun w => do
  let (a, w') ← r w
  f a w'

/-- Maps the value read, reading nothing more. -/
def map {α β : Type} (r : ByteReader α) (f : α → β) : ByteReader β := fun w => do
  let (a, w') ← r w
  pure (f a, w')

/-- Maps the value read by a function that may fail, reading nothing more. -/
def tryMap {α β : Type} (r : ByteReader α) (f : α → Except Error β) : ByteReader β := fun w => do
  let (a, w') ← r w
  pure (← f a, w')

/-- Reads `n` values back to back. -/
def times {α : Type} (r : ByteReader α) (n : Nat) : ByteReader (List α) :=
  Window.repeatRead r n

end ByteReader

/-- Decodes `n` records back to back, each with the window after it. -/
def Layout.decodeSeq (l : Layout) (n : Nat) (w : Window) : Except Error (List (Value × Window)) :=
  (Window.repeatRead (fun w => do
    let (v, next) ← l.decodeAt w
    pure ((v, next), next)) n w).map Prod.fst

end SwiftReflection
