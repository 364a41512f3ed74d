import Mathlib
import SwiftReflection.Proofs.Decode.Steps
import SwiftReflection.Proofs.Decode.Shape
import SwiftReflection.Catalog.Layouts
/-!
# How many bytes a decode takes

A successful decode never changes the buffer or its origin and moves the window forward, never
past the end of the buffer, and by at least the fixed size of what it decoded
(`Node.decode_ahead`). Embedded records and union arms of accepted layouts take exactly their
fixed size (`Layout.decodeIn_pos_of_fixed`), and a union always takes its width, whichever arm it
chose. A record of an accepted layout takes its fixed size plus what its trailing blocks take:
`count * stride` for a strided block and the sizes of its element records for a packed one
(`Layout.decodeIn_size`). Finally, a layout with no union that selects by an enclosing record
decodes the same in every frame, so a record embedded anywhere is the record decoded on its own
at the same place (`Layout.decodeIn_eq_decodeRecord`).
-/

namespace SwiftReflection

/-- `w'` is a window of the same buffer as `w`, at least `least` bytes ahead of it and not past
the buffer's end. -/
structure Window.Ahead (w w' : Window) (least : Nat) : Prop where
  data_eq : w'.data = w.data
  origin_eq : w'.origin = w.origin
  le_pos : w.pos + least ≤ w'.pos
  pos_le : w'.pos ≤ w.pos + w.remaining

namespace Window.Ahead

theorem move {w : Window} {n : Nat} (h : n ≤ w.remaining) :
    Window.Ahead w { w with pos := w.pos + n } n :=
  ⟨rfl, rfl, Nat.le_refl _, by simp only; omega⟩

theorem trans {w₁ w₂ w₃ : Window} {a b : Nat} (h₁ : Window.Ahead w₁ w₂ a)
    (h₂ : Window.Ahead w₂ w₃ b) : Window.Ahead w₁ w₃ (a + b) := by
  obtain ⟨hd₁, ho₁, hl₁, hp₁⟩ := h₁
  obtain ⟨hd₂, ho₂, hl₂, hp₂⟩ := h₂
  refine ⟨hd₂.trans hd₁, ho₂.trans ho₁, by omega, ?_⟩
  simp only [Window.remaining, hd₁] at hp₁ hp₂ ⊢
  omega

theorem mono {w w' : Window} {a b : Nat} (h : Window.Ahead w w' a) (hba : b ≤ a) :
    Window.Ahead w w' b :=
  ⟨h.data_eq, h.origin_eq, by have := h.le_pos; omega, h.pos_le⟩

theorem refl (w : Window) : Window.Ahead w w 0 :=
  ⟨rfl, rfl, by omega, by omega⟩

end Window.Ahead

/-- Steps that each take at least `least` bytes take at least `n * least` in `n` repetitions. -/
theorem Window.repeatRead_ahead {α : Type} {step : Window → Except Error (α × Window)}
    {least : Nat} (hstep : ∀ w a w', step w = .ok (a, w') → Window.Ahead w w' least) :
    ∀ (n : Nat) (w w' : Window) (as : List α), Window.repeatRead step n w = .ok (as, w') →
      Window.Ahead w w' (n * least)
  | 0, w, w', as, h => by
    simp only [repeatRead, Except.ok.injEq, Prod.mk.injEq] at h
    obtain ⟨-, rfl⟩ := h
    simpa using Window.Ahead.refl w
  | n + 1, w, w', as, h => by
    obtain ⟨a, w₁, rest, h₁, hrest, -⟩ := Window.repeatRead_succ_eq_ok.mp h
    have := (hstep w a w₁ h₁).trans (Window.repeatRead_ahead hstep n w₁ w' rest hrest)
    rwa [Nat.succ_mul, Nat.add_comm (n * least)]

theorem Layout.fixedSize_mk (name : String) (order : ByteOrder) (fields : List Field) :
    Layout.fixedSize (.mk name order fields) = Field.sumSize fields := by
  simp [Layout.fixedSize]

/-! ## Every decode moves forward by at least its fixed size -/

mutual

theorem Node.decode_ahead (order : ByteOrder) (frame : Frame) (name : String) :
    ∀ (node : Node) (w w' : Window) (v : Value),
      Node.decode order frame name node w = .ok (v, w') → Window.Ahead w w' node.fixedSize
  | .scalar k, w, w', v, h => by
    rw [Node.decode_scalar] at h
    split at h
    · rename_i hle
      simp only [Except.ok.injEq, Prod.mk.injEq] at h
      obtain ⟨-, rfl⟩ := h
      exact Window.Ahead.move hle
    · cases h
  | .flags k bits, w, w', v, h => by
    rw [Node.decode_flags] at h
    split at h
    · rename_i hle
      simp only [Except.ok.injEq, Prod.mk.injEq] at h
      obtain ⟨-, rfl⟩ := h
      exact Window.Ahead.move hle
    · cases h
  | .pointer kind target, w, w', v, h => by
    rw [Node.decode_pointer] at h
    split at h
    · rename_i hle
      simp only [Except.ok.injEq, Prod.mk.injEq] at h
      obtain ⟨-, rfl⟩ := h
      exact Window.Ahead.move hle
    · cases h
  | .nested l, w, w', v, h => by
    obtain ⟨r, hr, -⟩ := Node.decode_nested_eq_ok.mp h
    exact Layout.decodeIn_ahead frame.enter l w w' r hr
  | .union sel arms, w, w', v, h => by
    obtain ⟨_, _, _, _, -, _, hle, -, rfl⟩ := Node.decode_union_eq_ok.mp h
    exact Window.Ahead.move hle
  | .trailing count none element, w, w', v, h => by
    obtain ⟨n, items, -, -, hitems, -⟩ := Node.decode_packed_eq_ok.mp h
    have hsteps := Window.repeatRead_ahead
      (fun u r u' hr => Layout.decodeIn_ahead frame.enter element u u' r hr) n w w' items hitems
    exact hsteps.mono (by simp [Node.fixedSize])
  | .trailing count (some s) element, w, w', v, h => by
    obtain ⟨n, sv, items, -, -, -, hle, -, -, rfl⟩ := Node.decode_strided_eq_ok.mp h
    exact (Window.Ahead.move hle).mono (by simp [Node.fixedSize])

theorem Layout.decodeIn_ahead (frame : Frame) :
    ∀ (l : Layout) (w w' : Window) (r : Record),
      Layout.decodeIn frame l w = .ok (r, w') → Window.Ahead w w' l.fixedSize
  | .mk name order fields, w, w', r, h => by
    obtain ⟨done, hdone, -⟩ := Layout.decodeIn_eq_ok.mp h
    rw [Layout.fixedSize_mk]
    exact Field.decodeAll_ahead order frame.parents fields [] 0 w w' done hdone

theorem Field.decodeAll_ahead (order : ByteOrder) (parents : List (List (String × Value))) :
    ∀ (fields : List Field) (done : List (String × Value)) (checked : Nat) (w w' : Window)
      (done' : List (String × Value)),
      Field.decodeAll order parents done checked fields w = .ok (done', w') →
        Window.Ahead w w' (Field.sumSize fields)
  | [], done, checked, w, w', done', h => by
    simp only [Field.decodeAll_nil, Except.ok.injEq, Prod.mk.injEq] at h
    obtain ⟨-, rfl⟩ := h
    exact Window.Ahead.refl w
  | .mk name node :: rest, done, checked, w, w', done', h => by
    obtain ⟨-, v, w₁, hnode, hrest⟩ := Field.decodeAll_cons_eq_ok.mp h
    have h₁ := Node.decode_ahead order ⟨done, parents⟩ name node w w₁ v hnode
    have h₂ := Field.decodeAll_ahead order parents rest _ _ w₁ w' done' hrest
    simpa [Field.sumSize] using h₁.trans h₂

end

/-! ## Fixed-size parts take exactly their fixed size -/

theorem Arm.anyVariable_of_wellShaped {arms : List Arm} (h : Arm.wellShaped arms = true) :
    Arm.anyVariable arms = false := by
  induction arms with
  | nil => rfl
  | cons arm rest ih =>
    obtain ⟨_, _, node⟩ := arm
    simp only [Arm.wellShaped, Bool.and_eq_true, Bool.not_eq_true'] at h
    simp [Arm.anyVariable, h.1.1, ih h.2]

/-- A well-shaped field that is not a trailing block has a fixed size. -/
theorem Node.isVariable_of_wellShaped {node : Node} (h : node.wellShaped = true)
    (ht : node.isTrailing = false) : node.isVariable = false := by
  cases node with
  | nested l =>
    simp only [Node.wellShaped, Bool.and_eq_true, Bool.not_eq_true'] at h
    simp [Node.isVariable, h.1]
  | union sel arms => simp [Node.isVariable, Arm.anyVariable_of_wellShaped (by simpa [Node.wellShaped] using h)]
  | trailing => simp [Node.isTrailing] at ht
  | scalar | flags | pointer => rfl

mutual

theorem Node.decode_pos_of_fixed (order : ByteOrder) (frame : Frame) (name : String) :
    ∀ (node : Node) (w w' : Window) (v : Value), node.wellShaped = true →
      node.isVariable = false → Node.decode order frame name node w = .ok (v, w') →
        w'.pos = w.pos + node.fixedSize
  | .scalar k, w, w', v, _, _, h => by
    rw [Node.decode_scalar] at h
    split at h
    · simp only [Except.ok.injEq, Prod.mk.injEq] at h
      rw [← h.2]
      rfl
    · cases h
  | .flags k bits, w, w', v, _, _, h => by
    rw [Node.decode_flags] at h
    split at h
    · simp only [Except.ok.injEq, Prod.mk.injEq] at h
      rw [← h.2]
      rfl
    · cases h
  | .pointer kind target, w, w', v, _, _, h => by
    rw [Node.decode_pointer] at h
    split at h
    · simp only [Except.ok.injEq, Prod.mk.injEq] at h
      rw [← h.2]
      rfl
    · cases h
  | .nested l, w, w', v, hshape, _, h => by
    simp only [Node.wellShaped, Bool.and_eq_true, Bool.not_eq_true'] at hshape
    obtain ⟨r, hr, -⟩ := Node.decode_nested_eq_ok.mp h
    exact Layout.decodeIn_pos_of_fixed frame.enter l w w' r hshape.2 hshape.1 hr
  | .union sel arms, w, w', v, _, _, h => by
    obtain ⟨_, _, _, _, -, _, _, -, rfl⟩ := Node.decode_union_eq_ok.mp h
    rfl
  | .trailing .., _, _, _, _, hvar, _ => by simp [Node.isVariable] at hvar

theorem Layout.decodeIn_pos_of_fixed (frame : Frame) :
    ∀ (l : Layout) (w w' : Window) (r : Record), l.wellShaped = true → l.hasTrailing = false →
      Layout.decodeIn frame l w = .ok (r, w') → w'.pos = w.pos + l.fixedSize
  | .mk name order fields, w, w', r, hshape, htrail, h => by
    obtain ⟨done, hdone, -⟩ := Layout.decodeIn_eq_ok.mp h
    rw [Layout.fixedSize_mk]
    exact Field.decodeAll_pos_of_fixed order frame.parents fields [] 0 w w' done hshape htrail hdone

theorem Field.decodeAll_pos_of_fixed (order : ByteOrder) (parents : List (List (String × Value))) :
    ∀ (fields : List Field) (done : List (String × Value)) (checked : Nat) (w w' : Window)
      (done' : List (String × Value)), Field.wellShaped fields = true →
      fields.any (fun f => f.node.isTrailing) = false →
      Field.decodeAll order parents done checked fields w = .ok (done', w') →
        w'.pos = w.pos + Field.sumSize fields
  | [], done, checked, w, w', done', _, _, h => by
    simp only [Field.decodeAll_nil, Except.ok.injEq, Prod.mk.injEq] at h
    obtain ⟨-, rfl⟩ := h
    rfl
  | .mk name node :: rest, done, checked, w, w', done', hshape, htrail, h => by
    simp only [Field.wellShaped, Bool.and_eq_true] at hshape
    simp only [List.any_cons, Field.node, Bool.or_eq_false_iff] at htrail
    obtain ⟨-, v, w₁, hnode, hrest⟩ := Field.decodeAll_cons_eq_ok.mp h
    have h₁ := Node.decode_pos_of_fixed order ⟨done, parents⟩ name node w w₁ v hshape.1
      (Node.isVariable_of_wellShaped hshape.1 htrail.1) hnode
    have h₂ := Field.decodeAll_pos_of_fixed order parents rest _ _ w₁ w' done' hshape.2 htrail.2
      hrest
    simp only [Field.sumSize]
    omega

end

/-! ## Records that look nothing up outside themselves -/

mutual

theorem Node.decode_parents (order : ByteOrder) (current : List (String × Value))
    (ps ps' : List (List (String × Value))) (name : String) :
    ∀ (node : Node) (w : Window), node.usesEnclosing = false →
      Node.decode order ⟨current, ps⟩ name node w = Node.decode order ⟨current, ps'⟩ name node w
  | .scalar _, _, _ => rfl
  | .flags .., _, _ => rfl
  | .pointer .., _, _ => rfl
  | .nested l, w, h => by
    simp only [Node.usesEnclosing] at h
    simp only [Node.decode, Layout.decodeIn_frame l h (Frame.enter ⟨current, ps⟩)
      (Frame.enter ⟨current, ps'⟩) w]
  | .union sel arms, w, h => by
    simp only [Node.usesEnclosing, Bool.or_eq_false_iff, beq_eq_false_iff_ne] at h
    -- a union of an enclosing-free node looks its selector up among the current fields
    have hscope : sel.scope = .current := by
      cases hs : sel.scope
      · rfl
      · exact absurd hs h.1
    simp only [Node.decode, Frame.integer, Frame.lookup, hscope,
      Arm.decodeMatching_parents order current ps ps' name arms h.2]
  | .trailing count stride element, w, h => by
    simp only [Node.usesEnclosing] at h
    have helem : Layout.decodeIn (Frame.enter ⟨current, ps⟩) element =
        Layout.decodeIn (Frame.enter ⟨current, ps'⟩) element :=
      funext (Layout.decodeIn_frame element h _ _)
    simp only [Node.decode, Frame.integer, Frame.lookup, helem]

theorem Arm.decodeMatching_parents (order : ByteOrder) (current : List (String × Value))
    (ps ps' : List (List (String × Value))) (name : String) :
    ∀ (arms : List Arm), Arm.usesEnclosing arms = false → ∀ (selected width : Nat) (w : Window),
      Arm.decodeMatching order ⟨current, ps⟩ name selected width arms w =
        Arm.decodeMatching order ⟨current, ps'⟩ name selected width arms w
  | [], _, _, _, _ => rfl
  | .mk v armName node :: rest, h, selected, width, w => by
    simp only [Arm.usesEnclosing, Bool.or_eq_false_iff] at h
    simp only [Arm.decodeMatching, Node.decode_parents order current ps ps' armName node w h.1,
      Arm.decodeMatching_parents order current ps ps' name rest h.2]

theorem Layout.decodeIn_frame :
    ∀ (l : Layout), l.usesEnclosing = false → ∀ (frame frame' : Frame) (w : Window),
      Layout.decodeIn frame l w = Layout.decodeIn frame' l w
  | .mk name order fields, h, frame, frame', w => by
    simp only [Layout.usesEnclosing] at h
    simp only [Layout.decodeIn,
      Field.decodeAll_parents order frame.parents frame'.parents fields h [] 0 w]

theorem Field.decodeAll_parents (order : ByteOrder) (ps ps' : List (List (String × Value))) :
    ∀ (fields : List Field), Field.usesEnclosing fields = false →
      ∀ (done : List (String × Value)) (checked : Nat) (w : Window),
        Field.decodeAll order ps done checked fields w =
          Field.decodeAll order ps' done checked fields w
  | [], _, _, _, _ => rfl
  | .mk name node :: rest, h, done, checked, w => by
    simp only [Field.usesEnclosing, Bool.or_eq_false_iff] at h
    have hnode : ∀ u, Node.decode order ⟨done, ps⟩ name node u =
        Node.decode order ⟨done, ps'⟩ name node u :=
      fun u => Node.decode_parents order done ps ps' name node u h.1
    simp only [Field.decodeAll, hnode, Field.decodeAll_parents order ps ps' rest h.2]

end

/-- A layout with no union that selects by an enclosing record decodes the same in every frame:
embedded anywhere, its record is the record decoded on its own at the same window. -/
theorem Layout.decodeIn_eq_decodeRecord {l : Layout} (h : l.usesEnclosing = false)
    (frame : Frame) (w : Window) : Layout.decodeIn frame l w = l.decodeRecord w :=
  Layout.decodeIn_frame l h frame {} w

/-! ## What the trailing blocks of a record take -/

/-- The value of field `name` among decoded fields as a size: the bits a trailing block reads for
its count or stride, `0` when there is no such field. -/
def Frame.sizeOf (fields : List (String × Value)) (name : String) : Nat :=
  ((Frame.find? fields name).bind Value.selectorBits?).getD 0

/-- Bytes a field's value `v` takes beyond its node's fixed size, in a record with `fields`:
`count * stride` for a strided block, the sizes of its element records for a packed block, and
nothing for any other field. -/
def Node.blockBytes (fields : List (String × Value)) : Node → Value → Nat
  | .trailing count (some s) _, _ => Frame.sizeOf fields count * Frame.sizeOf fields s
  | .trailing _ none _, .repeated items =>
    (items.map fun v => (v.asRecord?.map Record.size).getD 0).sum
  | _, _ => 0

/-- Bytes the trailing blocks of a record of the layout take. -/
def Layout.trailingBytes (l : Layout) (r : Record) : Nat :=
  ((l.fields.zip r.fields).map fun p => p.1.node.blockBytes r.fields p.2.2).sum

theorem Frame.find?_append_of_some {fields more : List (String × Value)} {name : String}
    {v : Value} (h : Frame.find? fields name = some v) : Frame.find? (fields ++ more) name = some v := by
  simp only [Frame.find?, Option.map_eq_some_iff] at h ⊢
  obtain ⟨p, hp, rfl⟩ := h
  exact ⟨p, by simp [List.find?_append, hp], rfl⟩

/-- A size the decoder read from the fields before a block is read back from the whole record. -/
theorem Frame.sizeOf_of_integer {done more : List (String × Value)}
    {ps : List (List (String × Value))} {name : String} {offset n : Nat}
    (h : Frame.integer ⟨done, ps⟩ .current name offset = .ok n) :
    Frame.sizeOf (done ++ more) name = n := by
  rw [Frame.integer_eq_ok] at h
  simp only [Frame.lookup, Option.bind_eq_some_iff] at h
  obtain ⟨v, hv, hbits⟩ := h
  simp [Frame.sizeOf, Frame.find?_append_of_some hv, hbits]

/-- A count the decoder can check against a buffer shorter than `u64Max` does not saturate. -/
theorem saturate64_of_le {n m : Nat} (h : saturate64 n ≤ m) (hm : m < u64Max) :
    saturate64 n = n := by
  unfold saturate64 at h ⊢
  split
  · rfl
  · rw [if_neg ‹_›] at h
    omega

/-- A saturated byte count never exceeds the count. -/
theorem saturate64_le (n : Nat) : saturate64 n ≤ n := by
  unfold saturate64 u64Max
  split <;> omega

/-- The leading run of fields the decoder checks up front fits in the fields' fixed size. -/
theorem Field.fixedRun_le_sumSize (fields : List Field) :
    (Field.fixedRun fields).1 ≤ Field.sumSize fields := by
  -- the run's sum is a fold from `0`; generalise its start
  suffices h : ∀ (c : Nat) (fs : List Field),
      (fs.takeWhile (fun f => !f.node.hasUnion)).foldl (fun s f => s + f.node.fixedSize) c ≤
        c + Field.sumSize fs by
    simpa [Field.fixedRun] using h 0 fields
  intro c fs
  induction fs generalizing c with
  | nil => simp
  | cons f rest ih =>
    obtain ⟨name, node⟩ := f
    by_cases hu : node.hasUnion
    · simp [Field.node, hu]
    · have := ih (c + node.fixedSize)
      simp only [List.takeWhile_cons, Field.node, hu, Bool.not_false, if_true,
        List.foldl_cons, Field.sumSize] at this ⊢
      omega

theorem Window.repeatRead_pos {α : Type} {step : Window → Except Error (α × Window)}
    {g : α → Nat} (hstep : ∀ w a w', step w = .ok (a, w') → w'.pos = w.pos + g a) :
    ∀ (n : Nat) (w w' : Window) (as : List α), Window.repeatRead step n w = .ok (as, w') →
      w'.pos = w.pos + (as.map g).sum
  | 0, w, w', as, h => by
    simp only [repeatRead, Except.ok.injEq, Prod.mk.injEq] at h
    obtain ⟨rfl, rfl⟩ := h
    simp
  | n + 1, w, w', as, h => by
    obtain ⟨a, w₁, rest, h₁, hrest, rfl⟩ := Window.repeatRead_succ_eq_ok.mp h
    rw [Window.repeatRead_pos hstep n w₁ w' rest hrest, hstep w a w₁ h₁]
    simp only [List.map_cons, List.sum_cons]
    omega

/-- A decoded record's size is the bytes its decode took. -/
theorem Layout.decodeIn_size_eq {frame : Frame} {l : Layout} {w w' : Window} {r : Record}
    (h : Layout.decodeIn frame l w = .ok (r, w')) : w'.pos = w.pos + r.size := by
  obtain ⟨name, order, fields⟩ := l
  have hahead := Layout.decodeIn_ahead frame _ w w' r h
  obtain ⟨done, -, rfl⟩ := Layout.decodeIn_eq_ok.mp h
  have := hahead.le_pos
  simp only
  omega

/-- The fields a decode returns are those it started with followed by one per field. -/
theorem Field.decodeAll_done (order : ByteOrder) (parents : List (List (String × Value))) :
    ∀ (fields : List Field) (done : List (String × Value)) (checked : Nat) (w w' : Window)
      (done' : List (String × Value)),
      Field.decodeAll order parents done checked fields w = .ok (done', w') →
        ∃ vs : List (String × Value), done' = done ++ vs ∧ vs.length = fields.length
  | [], done, checked, w, w', done', h => by
    simp only [Field.decodeAll_nil, Except.ok.injEq, Prod.mk.injEq] at h
    exact ⟨[], by simp [h.1], rfl⟩
  | .mk name node :: rest, done, checked, w, w', done', h => by
    obtain ⟨-, v, w₁, -, hrest⟩ := Field.decodeAll_cons_eq_ok.mp h
    obtain ⟨vs, rfl, hlen⟩ := Field.decodeAll_done order parents rest _ _ w₁ w' done' hrest
    exact ⟨(name, v) :: vs, by simp, by simp [hlen]⟩

@[simp] theorem Value.asRecord?_ofRecord (r : Record) : (Value.ofRecord r).asRecord? = some r := rfl

/-- A field takes its fixed size plus what its trailing block takes, read from the record's
fields. -/
theorem Node.decode_pos_eq {order : ByteOrder} {done : List (String × Value)}
    {ps : List (List (String × Value))} {name : String} {node : Node} {w w' : Window} {v : Value}
    (hshape : node.wellShaped = true) (hsize : w.data.size < u64Max)
    (h : Node.decode order ⟨done, ps⟩ name node w = .ok (v, w')) (more : List (String × Value)) :
    w'.pos = w.pos + node.fixedSize + node.blockBytes (done ++ more) v := by
  cases node with
  | trailing count stride element =>
    cases stride with
    | none =>
      obtain ⟨n, items, -, -, hitems, rfl⟩ := Node.decode_packed_eq_ok.mp h
      have hpos := Window.repeatRead_pos (g := Record.size)
        (fun u r u' hr => Layout.decodeIn_size_eq hr) n w w' items hitems
      simp [hpos, Node.fixedSize, Node.blockBytes, Function.comp_def]
    | some s =>
      obtain ⟨n, sv, items, hn, hsv, -, hle, -, -, rfl⟩ := Node.decode_strided_eq_ok.mp h
      have hrem : w.remaining < u64Max := by simp only [Window.remaining]; omega
      simp [Node.fixedSize, Node.blockBytes, saturate64_of_le hle hrem,
        Frame.sizeOf_of_integer hn, Frame.sizeOf_of_integer hsv]
  | scalar | flags | pointer | nested | union =>
    rw [Node.decode_pos_of_fixed order _ name _ w w' v hshape
      (Node.isVariable_of_wellShaped hshape rfl) h]
    simp [Node.blockBytes]

/-- The fields of a record take their fixed sizes plus what their trailing blocks take. -/
theorem Field.decodeAll_pos_eq (order : ByteOrder) (parents : List (List (String × Value))) :
    ∀ (fields : List Field) (done vs : List (String × Value)) (checked : Nat) (w w' : Window),
      Field.wellShaped fields = true → w.data.size < u64Max →
      Field.decodeAll order parents done checked fields w = .ok (done ++ vs, w') →
        w'.pos = w.pos + Field.sumSize fields +
          ((fields.zip vs).map fun p => p.1.node.blockBytes (done ++ vs) p.2.2).sum
  | [], done, vs, checked, w, w', _, _, h => by
    simp only [Field.decodeAll_nil, Except.ok.injEq, Prod.mk.injEq] at h
    obtain ⟨-, rfl⟩ := h
    simp [Field.sumSize]
  | .mk name node :: rest, done, vs, checked, w, w', hshape, hsize, h => by
    simp only [Field.wellShaped, Bool.and_eq_true] at hshape
    obtain ⟨-, v, w₁, hnode, hrest⟩ := Field.decodeAll_cons_eq_ok.mp h
    obtain ⟨vs', hvs', -⟩ := Field.decodeAll_done order parents rest _ _ w₁ w' _ hrest
    -- the values after the first field are those the rest of the fields decoded
    have hvs : vs = (name, v) :: vs' := by simpa using hvs'
    subst hvs
    have hall : done ++ (name, v) :: vs' = done ++ [(name, v)] ++ vs' := by simp
    have hahead := Node.decode_ahead order _ name node w w₁ v hnode
    have h₁ := Node.decode_pos_eq hshape.1 hsize hnode ((name, v) :: vs')
    have h₂ := Field.decodeAll_pos_eq order parents rest _ vs' _ w₁ w' hshape.2
      (by rw [hahead.data_eq]; exact hsize) (hall ▸ hrest)
    rw [← hall] at h₂
    simp only [List.zip_cons_cons, List.map_cons, List.sum_cons, Field.sumSize]
    change w'.pos = w.pos + (node.fixedSize + Field.sumSize rest) +
      (node.blockBytes (done ++ (name, v) :: vs') v + _)
    omega

/-- A record of a well-shaped layout takes its fixed size plus what its trailing blocks take. -/
theorem Layout.decodeIn_size {frame : Frame} {l : Layout} {w w' : Window} {r : Record}
    (hshape : l.wellShaped = true) (hsize : w.data.size < u64Max)
    (h : Layout.decodeIn frame l w = .ok (r, w')) : r.size = l.fixedSize + l.trailingBytes r := by
  obtain ⟨name, order, fields⟩ := l
  have hpos := Layout.decodeIn_size_eq h
  obtain ⟨done, hdone, rfl⟩ := Layout.decodeIn_eq_ok.mp h
  have := Field.decodeAll_pos_eq order frame.parents fields [] done 0 w w' hshape hsize
    (by simpa using hdone)
  simp only [Layout.trailingBytes, Layout.fixedSize_mk, Layout.fields, List.nil_append] at this ⊢
  omega

/-! ## Size accounting of accepted layouts -/

/-- An embedded record of a well-shaped node takes exactly its layout's fixed size. -/
theorem Node.decode_nested_size {order : ByteOrder} {frame : Frame} {name : String} {T : Layout}
    {w w' : Window} {v : Value} (hshape : (Node.nested T).wellShaped = true)
    (h : Node.decode order frame name (.nested T) w = .ok (v, w')) :
    (∃ fields, v = .record T.name w.address T.fixedSize fields) ∧
      w'.pos = w.pos + T.fixedSize := by
  simp only [Node.wellShaped, Bool.and_eq_true, Bool.not_eq_true'] at hshape
  obtain ⟨r, hr, rfl⟩ := Node.decode_nested_eq_ok.mp h
  have hpos := Layout.decodeIn_pos_of_fixed frame.enter T w w' r hshape.2 hshape.1 hr
  have hsize := Layout.decodeIn_size_eq hr
  obtain ⟨name', order', fields⟩ := T
  obtain ⟨done, -, rfl⟩ := Layout.decodeIn_eq_ok.mp hr
  exact ⟨⟨done, by simp [Value.ofRecord, Layout.name]; omega⟩, hpos⟩

/-- Size accounting of decoding, for a buffer shorter than the largest 64-bit size as every
buffer in memory is. A record of an accepted layout lies at the window's address, and its size
is the bytes its decode took: the layout's fixed size plus what its trailing blocks take. Inside
it, every embedded record and every record chosen as a union arm takes exactly its layout's fixed
size, in whatever frame it is decoded; every union takes its width whichever arm it chose; and a
record whose layout selects nothing by an enclosing record is, wherever it is embedded, the
record decoded on its own at the same window. -/
theorem Layout.decodeRecord_accounting {S : Layout} (hS : S.validate = .ok S) :
    (∀ (c c' : Window) (r : Record), c.data.size < u64Max → S.decodeRecord c = .ok (r, c') →
      r.address = c.address ∧ r.size = c'.pos - c.pos ∧
        r.size = S.fixedSize + S.trailingBytes r) ∧
    (∀ T, Node.nested T ∈ S.subNodes → ∀ (order : ByteOrder) (frame : Frame) (name : String)
      (w w' : Window) (v : Value), Node.decode order frame name (.nested T) w = .ok (v, w') →
        (∃ fields, v = .record T.name w.address T.fixedSize fields) ∧
          w'.pos = w.pos + T.fixedSize) ∧
    (∀ (sel : Selector) (arms : List Arm) (order : ByteOrder) (frame : Frame) (name : String)
      (w w' : Window) (v : Value), Node.decode order frame name (.union sel arms) w = .ok (v, w') →
        w'.pos = w.pos + Arm.maxSize arms) ∧
    (∀ T : Layout, T.usesEnclosing = false → ∀ (frame : Frame) (w : Window),
      Layout.decodeIn frame T w = T.decodeRecord w) := by
  have hshape := Layout.wellShaped_of_validate hS
  refine ⟨fun c c' r hsize h => ?_, fun T hT order frame name w w' v h => ?_,
    fun sel arms order frame name w w' v h => ?_, fun T hT frame w => ?_⟩
  · -- the record itself: address and size come from the decode, the sum from its fields
    have hpos := Layout.decodeIn_size_eq h
    obtain ⟨name, order, fields⟩ := S
    obtain ⟨done, -, rfl⟩ := Layout.decodeIn_eq_ok.mp h
    exact ⟨rfl, rfl, Layout.decodeIn_size hshape hsize h⟩
  · exact Node.decode_nested_size (Layout.wellShaped_of_mem_subNodes S hshape _ hT) h
  · obtain ⟨_, _, _, _, -, _, _, -, rfl⟩ := Node.decode_union_eq_ok.mp h
    rfl
  · exact Layout.decodeIn_eq_decodeRecord hT frame w

/-- The field descriptor layout is accepted, so its records are accounted for. -/
theorem fieldDescriptor_accounting :
    (Catalog.fieldDescriptor .little).validate = .ok (Catalog.fieldDescriptor .little) ∧
      ∀ (c c' : Window) (r : Record), c.data.size < u64Max →
        (Catalog.fieldDescriptor .little).decodeRecord c = .ok (r, c') →
          r.address = c.address ∧ r.size = c'.pos - c.pos ∧
            r.size = (Catalog.fieldDescriptor .little).fixedSize +
              (Catalog.fieldDescriptor .little).trailingBytes r :=
  have hS : (Catalog.fieldDescriptor .little).validate = .ok (Catalog.fieldDescriptor .little) := rfl
  ⟨hS, (Layout.decodeRecord_accounting hS).1⟩

end SwiftReflection
