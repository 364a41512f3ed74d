import SwiftReflection.Text.Hex
/-!
# Problems of a layout

A layout is refused for the first of these problems found while its fields are appended in
order. Each problem names the field it was found at; `LayoutProblem.message` gives its text.
-/

namespace SwiftReflection

/-- Why a layout is refused. -/
inductive LayoutProblem where
  /-- A field name is used twice. -/
  | duplicateField (name : String)
  /-- A fixed-size field comes after a trailing block. -/
  | fixedAfterTrailing (name : String)
  /-- An embedded record ends in trailing elements. -/
  | nestedTrailing (name : String) (layout : String)
  /-- A union has no arms. -/
  | noArms (name : String)
  /-- A union's own-record selector names a field that is not an integer or flag set. -/
  | selectorNotInteger (selector : String) (name : String)
  /-- A union's own-record selector names no earlier field. -/
  | selectorUndeclared (selector : String) (name : String)
  /-- Two arms of a union have the same discriminant value. -/
  | repeatedArm (name : String) (value : Nat)
  /-- A union arm has a variable size. -/
  | armNotFixed (arm : String) (name : String)
  /-- A trailing block's count or stride names a field that is not a plain integer. -/
  | sizeNotScalar (source : String) (name : String)
  /-- A trailing block's count or stride names no earlier field. -/
  | sizeUndeclared (source : String) (name : String)
  /-- A trailing block repeats an element of fixed size zero. -/
  | emptyElement (name : String)
  /-- A strided trailing block repeats an element that ends in trailing elements. -/
  | stridedVariable (name : String)
  /-- A tag-packed pointer reserves no tag bits, or more low bits than a pointer can spare. -/
  | tagBits (name : String) (tagBits : Nat) (indirectable : Bool)
  deriving DecidableEq, Repr

/-- Most low bits a relative pointer may reserve for a tag and the indirection bit. -/
def maxPointerLowBits : Nat := 30

/-- The text of a problem. -/
def LayoutProblem.message : LayoutProblem → String
  | .duplicateField n => s!"duplicate field '{n}'"
  | .fixedAfterTrailing n => s!"fixed field '{n}' follows a trailing block"
  | .nestedTrailing n l => s!"nested record '{n}' ({l}) has trailing elements"
  | .noArms n => s!"union '{n}' has no alternatives"
  | .selectorNotInteger d n => s!"discriminant '{d}' of union '{n}' is not an integer"
  | .selectorUndeclared d n => s!"discriminant '{d}' of union '{n}' must be declared before it"
  | .repeatedArm n v => s!"union '{n}' repeats discriminant value " ++ Text.hex v
  | .armNotFixed a n => s!"alternative '{a}' of union '{n}' is not fixed-size"
  | .sizeNotScalar s n => s!"size source '{s}' of trailing block '{n}' is not a scalar"
  | .sizeUndeclared s n => s!"size source '{s}' must be declared before trailing block '{n}'"
  | .emptyElement n => s!"trailing block '{n}' repeats an empty element"
  | .stridedVariable n => s!"trailing block '{n}' has a stride but a variable-size element"
  | .tagBits n t ind =>
    s!"pointer '{n}' packs {t} tag bits, expected 1 to " ++
      toString (maxPointerLowBits - (if ind then 1 else 0))

end SwiftReflection
