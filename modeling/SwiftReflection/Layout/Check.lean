import SwiftReflection.Error
import SwiftReflection.Layout.Basic
/-!
# Checking layouts

A layout is checked field by field, in the order the fields are appended; the first problem
found is the answer. For each field the checks run in this order:

1. its name is not taken by an earlier field;
2. it is not a fixed field after a trailing block;
3. the check of its node: an embedded record has no trailing elements; a union has arms, a
   selector in its own record that is an earlier integer or flag set, distinct arm values and
   fixed-size arms; a trailing block's count and stride are earlier plain integers, its element
   is not empty, and a strided element does not end in trailing elements; a tag-packed pointer
   reserves between 1 and 30 low bits.

`Layout.validate` also checks every layout inside a layout first, depth first in field order.
-/

namespace SwiftReflection

/-- A problem with a tag-packed pointer called `name`. -/
def PointerKind.problem? (name : String) : PointerKind → Option LayoutProblem
  | .tagPacked t ind =>
    if t == 0 || t + (if ind then 1 else 0) > maxPointerLowBits then some (.tagBits name t ind)
    else none
  | _ => none

/-- A problem with the arms of union `name`, given the values of the arms before them. -/
def Arm.problem? (name : String) : List Nat → List Arm → Option LayoutProblem
  | _, [] => none
  | seen, .mk v armName node :: rest =>
    if seen.contains v then some (.repeatedArm name v)
    else if node.isVariable then some (.armNotFixed armName name)
    else
      match node with
      | .pointer kind _ =>
        match kind.problem? armName with
        | some p => some p
        | none => Arm.problem? name (v :: seen) rest
      | _ => Arm.problem? name (v :: seen) rest

/-- A problem with the selector of union `name` looked up among `earlier` fields. -/
def Selector.problem? (earlier : List Field) (name : String) (s : Selector) :
    Option LayoutProblem :=
  match s.scope with
  | .enclosing => none
  | .current =>
    match Field.find? earlier s.field with
    | some (.scalar _) | some (.flags ..) => none
    | some _ => some (.selectorNotInteger s.field name)
    | none => some (.selectorUndeclared s.field name)

/-- A problem with a size source of trailing block `name`. -/
def sizeSourceProblem? (earlier : List Field) (name source : String) : Option LayoutProblem :=
  match Field.find? earlier source with
  | some (.scalar _) => none
  | some _ => some (.sizeNotScalar source name)
  | none => some (.sizeUndeclared source name)

/-- The problem of the node of field `name`, given the fields before it. -/
def Node.problem? (earlier : List Field) (name : String) : Node → Option LayoutProblem
  | .nested l => if l.hasTrailing then some (.nestedTrailing name l.name) else none
  | .union s arms =>
    if arms.isEmpty then some (.noArms name)
    else (s.problem? earlier name).or (Arm.problem? name [] arms)
  | .trailing count stride element =>
    ((count :: stride.toList).findSome? (sizeSourceProblem? earlier name)).or <|
      if Layout.fixedSize element == 0 then some (.emptyElement name)
      else if stride.isSome && element.hasTrailing then some (.stridedVariable name)
      else none
  | .pointer kind _ => kind.problem? name
  | _ => none

/-- The problem of appending field `name` after `earlier`. -/
def Field.problem? (earlier : List Field) (name : String) (node : Node) : Option LayoutProblem :=
  if earlier.any (fun f => f.name == name) then some (.duplicateField name)
  else if (earlier.getLast?.map (fun f => f.node.isTrailing)).getD false && !node.isTrailing then
    some (.fixedAfterTrailing name)
  else node.problem? earlier name

/-- The first problem of appending `fields` one by one after `earlier`. -/
def Field.firstProblem? (earlier : List Field) : List Field → Option LayoutProblem
  | [] => none
  | .mk name node :: rest =>
    (Field.problem? earlier name node).or (Field.firstProblem? (earlier ++ [.mk name node]) rest)

/-- The first problem of a layout's own fields. -/
def Layout.problem? (l : Layout) : Option LayoutProblem :=
  Field.firstProblem? [] l.fields

mutual

/-- The first refused layout inside a node, depth first. -/
def Node.innerError? : Node → Option Error
  | .nested l => Layout.validateError? l
  | .union _ arms => Arm.innerError? arms
  | .pointer _ (.layout l) => Layout.validateError? l
  | .trailing _ _ element => Layout.validateError? element
  | _ => none

/-- The first refused layout inside union arms, in order. -/
def Arm.innerError? : List Arm → Option Error
  | [] => none
  | .mk _ _ node :: rest => (Node.innerError? node).or (Arm.innerError? rest)

/-- The first refused layout inside fields, in order. -/
def Field.innerError? : List Field → Option Error
  | [] => none
  | .mk _ node :: rest => (Node.innerError? node).or (Field.innerError? rest)

/-- The first refused layout: one inside the layout, else the layout itself. -/
def Layout.validateError? : Layout → Option Error
  | .mk name order fields =>
    (Field.innerError? fields).or
      ((Layout.problem? (.mk name order fields)).map (Error.invalidLayout name))

end

/-- A layout whose inner layouts and own fields are all accepted, or the first error. -/
def Layout.validate (l : Layout) : Except Error Layout :=
  match l.validateError? with
  | some e => .error e
  | none => .ok l

end SwiftReflection
