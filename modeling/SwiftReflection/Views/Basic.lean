import SwiftReflection.Pointer.Resolve
/-!
# Reading typed views from records

Typed views read names and nested records out of decoded records through an image. A name
pointer with distance zero is an absent name. A pointer that leaves the image may be
legitimate (a slot bound at load time, a descriptor in another image): `unlessExternal` turns
that one error into an absent value and keeps all others.
-/

namespace SwiftReflection.Views

/-- The name a pointer field refers to, absent when its distance is zero. -/
def optionalName (img : Image) (names : NameDecoder) (r : Record) (field : String) :
    Except Error (Option String) := do
  let p ← r.pointer field
  if p.offset.isNull then return none
  return some (← img.displayName p names)

/-- The name a pointer value refers to, absent when its distance is zero. -/
def pointerName (img : Image) (names : NameDecoder) (p : PointerValue) :
    Except Error (Option String) :=
  if p.offset.isNull then .ok none else some <$> img.displayName p names

/-- A result whose pointer left the image becomes absent; other errors stay. -/
def unlessExternal {α : Type} : Except Error α → Except Error (Option α)
  | .ok a => .ok (some a)
  | .error (.pointerOutOfRange ..) => .ok none
  | .error e => .error e

/-- The records of a trailing block field, in order. -/
def trailingRecords (r : Record) (field : String) : Except Error (List Record) := do
  (← r.items field).mapM fun v =>
    match v.asRecord? with
    | some sub => pure sub
    | none => throw (.unexpectedValue field "a nested record")

/-- The low 32 bits of a value. -/
def low32 (n : Nat) : Nat := n % pow2 32

end SwiftReflection.Views
