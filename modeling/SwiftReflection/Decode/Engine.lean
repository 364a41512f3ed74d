import SwiftReflection.Decode.Value
/-!
# Decoding records

`Layout.decodeAt` reads one record of a layout at a window and returns it with the window after
it. The rules:

* Before the first field of each run of fields that select no union arm, the whole run's fixed
  size is checked, so a short buffer fails before any field of the run is read.
* A union looks up its selecting field (in the fields decoded so far, or in the enclosing
  records, nearest first), narrows it by mask and shift (a shift of 64 bits or more overflows,
  `Panic.shiftOverflow`), and fails with `Error.discriminantUnsupported` when no arm has that
  value, before any bounds check. It then
  checks its width (its largest arm), decodes the arm at its own start and moves past its width.
* A trailing block reads its count and optional stride from the fields decoded so far. A stride
  smaller than the element is `Error.invalidStride` (when the count is not zero); then
  `count * stride` (or `count * element size`) bytes must remain. With a stride, element `i`
  starts `i * stride` bytes in and the block takes `count * stride` bytes; without one, elements
  follow each other. Elements see the record holding the block as their parent.
-/

namespace SwiftReflection

/-- Fields decoded so far in the current record, and those of the enclosing records, nearest
first. -/
structure Frame where
  current : List (String × Value) := []
  parents : List (List (String × Value)) := []

namespace Frame

/-- The first field called `name` in a list of decoded fields. -/
def find? (fields : List (String × Value)) (name : String) : Option Value :=
  (fields.find? (fun f => f.1 == name)).map Prod.snd

/-- The value of `name` in the given scope. -/
def lookup (f : Frame) (scope : Scope) (name : String) : Option Value :=
  match scope with
  | .current => find? f.current name
  | .enclosing => f.parents.findSome? (fun fs => find? fs name)

/-- The integer bits of `name` in the given scope, or `unknownField` at `offset`. -/
def integer (f : Frame) (scope : Scope) (name : String) (offset : Nat) : Except Error Nat :=
  match (f.lookup scope name).bind Value.selectorBits? with
  | some n => .ok n
  | none => .error (.unknownField name offset)

/-- The frame seen by an embedded record or a trailing element. -/
def enter (f : Frame) : Frame :=
  { current := [], parents := f.current :: f.parents }

end Frame

/-- Fixed size and length of the leading run of fields that select no union arm. -/
def Field.fixedRun (fields : List Field) : Nat × Nat :=
  let run := fields.takeWhile (fun f => !f.node.hasUnion)
  (run.foldl (fun s f => s + f.node.fixedSize) 0, run.length)

/-- The bits `(raw &&& mask) >>> shift` a selector keeps of a raw value. -/
def Selector.narrow (s : Selector) (raw : Nat) : Nat :=
  (raw &&& s.mask) >>> s.shift

/-- The arm selector of a raw value. The shift is a shift of a 64-bit word, which overflows from
64 bits on. -/
def Selector.extract (s : Selector) (raw : Nat) : Except Error Nat :=
  if s.shift < 64 then .ok (s.narrow raw) else .error (.panic .shiftOverflow)

/-- A byte count that saturates at the largest 64-bit value. -/
def saturate64 (n : Nat) : Nat :=
  if n < pow2 64 then n else u64Max

/-- Runs `step` `n` times, threading the window, and collects the results in order. -/
def Window.repeatRead {α : Type} (step : Window → Except Error (α × Window)) :
    Nat → Window → Except Error (List α × Window)
  | 0, w => .ok ([], w)
  | n + 1, w => do
    let (a, w') ← step w
    let (as, w'') ← Window.repeatRead step n w'
    pure (a :: as, w'')

/-- Reads element `i` of `count` at `start + i * stride` for each `i`, in order. -/
def Window.stridedRead {α : Type} (step : Window → Except Error (α × Window)) (stride : Nat)
    (start : Window) (count : Nat) : Except Error (List α) :=
  (List.range count).mapM fun i => do
    let at_ ← start.advance (i * stride)
    let (a, _) ← step at_
    pure a

mutual

/-- Decodes the node of field `name` at a window, in the given byte order and frame. -/
def Node.decode (order : ByteOrder) (frame : Frame) (name : String) :
    Node → Window → Except Error (Value × Window)
  | .scalar k, w => do
    let (raw, next) ← w.readUInt k.width order
    if k.signed then pure (.signed (signExtend k.width raw), next)
    else pure (.unsigned raw, next)
  | .flags k bits, w => do
    let (raw, next) ← w.readUInt k.width order
    pure (.flags raw bits, next)
  | .nested l, w => do
    let (r, next) ← Layout.decodeIn frame.enter l w
    pure (Value.ofRecord r, next)
  | .pointer kind target, w => do
    let (raw, next) ← w.readWord order
    pure (.pointer ⟨w.address, raw, kind⟩ target, next)
  | .union sel arms, w => do
    let raw ← frame.integer sel.scope sel.field w.address
    let selected ← sel.extract raw
    let (armName, v) ← Arm.decodeMatching order frame name selected (Arm.maxSize arms) arms w
    let next ← w.advance (Arm.maxSize arms)
    pure (.union armName selected v, next)
  | .trailing count stride element, w => do
    let n ← frame.integer .current count w.address
    let size := Layout.fixedSize element
    let stride? ← match stride with
      | none => pure none
      | some s => do
        let sv ← frame.integer .current s w.address
        if 0 < n && sv < size then throw (.invalidStride sv w.address size)
        pure (some sv)
    let minimum := saturate64 (n * stride?.getD size)
    w.ensure minimum
    match stride? with
    | some sv => do
      let items ← Window.stridedRead (Layout.decodeIn frame.enter element) sv w n
      let next ← w.advance minimum
      pure (.repeated (items.map Value.ofRecord), next)
    | none => do
      let (items, next) ← Window.repeatRead (Layout.decodeIn frame.enter element) n w
      pure (.repeated (items.map Value.ofRecord), next)

/-- Decodes the first arm whose value is `selected`, at the union's start, after checking that
the union's `width` remains; with no such arm, fails with `discriminantUnsupported`. -/
def Arm.decodeMatching (order : ByteOrder) (frame : Frame) (name : String) (selected width : Nat) :
    List Arm → Window → Except Error (String × Value)
  | [], w => .error (.discriminantUnsupported name selected w.address)
  | .mk v armName node :: rest, w =>
    if v == selected then do
      w.ensure width
      let (value, _) ← Node.decode order frame armName node w
      pure (armName, value)
    else Arm.decodeMatching order frame name selected width rest w

/-- Decodes fields in order; `checked` counts the fields of the current run still covered by
its bounds check. -/
def Field.decodeAll (order : ByteOrder) (parents : List (List (String × Value)))
    (done : List (String × Value)) (checked : Nat) :
    List Field → Window → Except Error (List (String × Value) × Window)
  | [], w => .ok (done, w)
  | .mk name node :: rest, w => do
    let checked ← if checked == 0 then do
        let (size, count) := Field.fixedRun (.mk name node :: rest)
        w.ensure size
        pure count
      else pure checked
    let (v, next) ← Node.decode order ⟨done, parents⟩ name node w
    Field.decodeAll order parents (done ++ [(name, v)]) (checked - 1) rest next

/-- Decodes one record of a layout inside a frame. -/
def Layout.decodeIn (frame : Frame) : Layout → Window → Except Error (Record × Window)
  | .mk name order fields, w => do
    let (done, next) ← Field.decodeAll order frame.parents [] 0 fields w
    pure (⟨name, w.address, next.pos - w.pos, done⟩, next)

end

/-- Decodes one record of a layout at a window, returning it with the window after it. -/
def Layout.decodeRecord (l : Layout) (w : Window) : Except Error (Record × Window) :=
  l.decodeIn {} w

/-- Decodes one record of a layout at a window as a value. -/
def Layout.decodeAt (l : Layout) (w : Window) : Except Error (Value × Window) := do
  let (r, next) ← l.decodeRecord w
  pure (Value.ofRecord r, next)

end SwiftReflection
