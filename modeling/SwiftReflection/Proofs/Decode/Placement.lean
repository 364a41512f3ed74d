import Mathlib
import SwiftReflection.Proofs.Decode.Trailing
import SwiftReflection.Proofs.Decode.Upfront
import SwiftReflection.Proofs.Layout.Acceptance
/-!
# Placing trailing elements by stride or one after another

A strided block reads element `i` at `i` strides from its start; a packed block reads each
element where the one before stopped. When the stride equals the size of an element of fixed
size, both place every element alike, so they read the same elements, stop at the same place and
fail with the same error (`Node.decode_strided_eq_packed`).

`Layout.decodeAt_strided_eq_packed` lifts this to whole records: dropping the stride of a block
whose record stores the element's size there keeps the layout accepted and changes no decode.
The checks of the fields after the block see it only through its name, its being a block and
its integer kinds (`Field.checkView`), which dropping the stride keeps; and the count of fields
still covered by a bounds check never matters at a trailing block, whose check covers no bytes.
-/

namespace SwiftReflection

/-! ## Steps of one fixed length -/

namespace Window
variable {α : Type} {step : Window → Except Error (α × Window)}

/-- Chaining steps that each move `s` bytes reads slots `k`, `k + 1`, ... of a strided block,
`f i` being the read of slot `i`. -/
theorem repeatRead_eq_mapM_slots {s : Nat} {w : Window} {f : Nat → Except Error α}
    (hstep : ∀ v a v', step v = .ok (a, v') → v' = { v with pos := v.pos + s })
    (hf : ∀ i, i * s ≤ w.remaining → f i = (step { w with pos := w.pos + i * s }).map Prod.fst) :
    ∀ n k, (k + n) * s ≤ w.remaining →
      Window.repeatRead step n { w with pos := w.pos + k * s } =
        ((List.range' k n).mapM f).map fun as => (as, { w with pos := w.pos + (k + n) * s })
  | 0, k, _ => by simp only [Nat.add_zero]; rfl
  | n + 1, k, hfit => by
    have hslot : k * s ≤ w.remaining :=
      (Nat.mul_le_mul_right s (by omega : k ≤ k + (n + 1))).trans hfit
    rw [List.range'_succ, List.mapM_cons, hf k hslot, Window.repeatRead_succ]
    cases hs : step { w with pos := w.pos + k * s } with
    | error e => rfl
    | ok p =>
      obtain ⟨a, v⟩ := p
      -- the next slot is where this step stopped
      have hv : v = { w with pos := w.pos + (k + 1) * s } := by
        rw [hstep _ _ _ hs, Nat.add_mul, one_mul, Nat.add_assoc]
      subst hv
      have hrest := repeatRead_eq_mapM_slots hstep hf n (k + 1)
        (by rw [Nat.add_right_comm]; exact hfit)
      rw [Nat.add_right_comm k 1 n] at hrest
      simp only [ok_bind, hrest]
      cases (List.range' (k + 1) n).mapM f <;> rfl

/-- Steps that each move `s` bytes read the same whether each starts where the one before
stopped or at its multiple of `s`. -/
theorem repeatRead_eq_stridedRead {s n : Nat} {w : Window}
    (hstep : ∀ v a v', step v = .ok (a, v') → v' = { v with pos := v.pos + s })
    (hfit : n * s ≤ w.remaining) :
    Window.repeatRead step n w =
      (Window.stridedRead step s w n).map fun as => (as, { w with pos := w.pos + n * s }) := by
  have h := @repeatRead_eq_mapM_slots α step s w
    (fun i => w.advance (i * s) >>= fun at_ => step at_ >>= fun p => pure p.1) hstep (fun i hi => by
    rw [Window.advance_eq, if_pos hi, ok_bind]
    cases step { w with pos := w.pos + i * s } <;> rfl) n 0 (by simpa using hfit)
  simpa [Window.stridedRead, List.range_eq_range'] using h

end Window

/-! ## A stride equal to the element's size -/

/-- A trailing block whose stride equals its element's size decodes as the packed block, when
the element has a fixed size. -/
theorem Node.decode_strided_eq_packed {order : ByteOrder} {frame : Frame} {name count st : String}
    {E : Layout} {w : Window} (hsmall : w.data.size < u64Max) (hshape : E.wellShaped = true)
    (htrail : E.hasTrailing = false)
    (hs : frame.integer .current st w.address = .ok E.fixedSize) :
    Node.decode order frame name (.trailing count (some st) E) w =
      Node.decode order frame name (.trailing count none E) w := by
  cases hn : frame.integer .current count w.address with
  | error e => simp [Node.decode.eq_6, hn]
  | ok n =>
    rw [Node.decode_strided_eq hn hs, Node.decode_packed_eq hn, if_neg (by omega)]
    split
    · rename_i hle
      have hrem : w.remaining < u64Max := by simp only [Window.remaining]; omega
      have hfit : n * E.fixedSize ≤ w.remaining := (saturate64_le_iff hrem).mp hle
      rw [Window.repeatRead_eq_stridedRead (fun _ _ _ h => Layout.decodeIn_stop_of_fixed hshape htrail h)
        hfit, saturate64_of_le hle hrem]
      cases Window.stridedRead (Layout.decodeIn frame.enter E) E.fixedSize w n <;> rfl
    · rfl

/-! ## Trailing blocks after the fixed fields -/

/-- The run checked before a list of trailing blocks covers all of them and no bytes. -/
theorem Field.fixedRun_blocks :
    ∀ {blocks : List Field}, (∀ f ∈ blocks, f.node.isTrailing = true) →
      Field.fixedRun blocks = (0, blocks.length)
  | [], _ => rfl
  | .mk name node :: rest, h => by
    have hnode : node.isTrailing = true := h (.mk name node) List.mem_cons_self
    have hrest := Field.fixedRun_blocks fun g hg => h g (List.mem_cons_of_mem _ hg)
    cases node <;> simp_all [Field.fixedRun_cons, Node.isTrailing, Node.hasUnion, Node.fixedSize]

/-- Trailing blocks appended to a list of fields add nothing to the size of its first run, and
lengthen the run only when it reaches the end of the list. -/
theorem Field.fixedRun_append_blocks {blocks : List Field}
    (hblocks : ∀ f ∈ blocks, f.node.isTrailing = true) :
    ∀ fs : List Field, (Field.fixedRun (fs ++ blocks)).1 = (Field.fixedRun fs).1 ∧
      ((Field.fixedRun (fs ++ blocks)).2 = (Field.fixedRun fs).2 ∨
        ((Field.fixedRun fs).2 = fs.length ∧
          (Field.fixedRun fs).2 ≤ (Field.fixedRun (fs ++ blocks)).2))
  | [] => by
    rw [List.nil_append, Field.fixedRun_blocks hblocks]
    exact ⟨rfl, .inr ⟨rfl, Nat.zero_le _⟩⟩
  | .mk name node :: fs => by
    obtain ⟨hsize, hcount⟩ := Field.fixedRun_append_blocks hblocks fs
    rw [List.cons_append, Field.fixedRun_cons, Field.fixedRun_cons]
    split
    · simp
    · simp only [hsize, List.length_cons, Nat.add_right_cancel_iff, true_and]
      omega

/-- Before a trailing block the decoder checks no bytes, so how far the current run's check
reaches does not matter. -/
theorem Field.decodeAll_blocks_checked (order : ByteOrder)
    (parents : List (List (String × Value))) :
    ∀ {blocks : List Field}, (∀ f ∈ blocks, f.node.isTrailing = true) →
      ∀ done checked w, Field.decodeAll order parents done checked blocks w =
        Field.decodeAll order parents done 0 blocks w
  | [], _, _, _, _ => rfl
  | .mk name node :: rest, h, done, checked, w => by
    have hrest := Field.decodeAll_blocks_checked order parents
      fun g hg => h g (List.mem_cons_of_mem _ hg)
    rw [Field.decodeAll_cons, Field.decodeAll_cons, Field.fixedRun_blocks h]
    simp only [ite_self, hrest _ (_ - 1)]

/-- Fixed fields followed by trailing blocks decode as the fixed fields, then the blocks. The
counters `c₁` and `c₂` of the two decoders agree, or the second covers exactly the fields left
and the first at least as many. -/
theorem Field.decodeAll_append_blocks (order : ByteOrder) (parents : List (List (String × Value)))
    {blocks : List Field} (hblocks : ∀ f ∈ blocks, f.node.isTrailing = true) :
    ∀ (fs : List Field) (done : List (String × Value)) (c₁ c₂ : Nat) (w : Window),
      (c₁ = c₂ ∨ (c₂ = fs.length ∧ c₂ ≤ c₁)) →
      Field.decodeAll order parents done c₁ (fs ++ blocks) w =
        Field.decodeAll order parents done c₂ fs w >>= fun p =>
          Field.decodeAll order parents p.1 0 blocks p.2
  | [], done, c₁, c₂, w, _ => by
    rw [List.nil_append, Field.decodeAll_blocks_checked order parents hblocks]
    rfl
  | .mk name node :: fs, done, c₁, c₂, w, hc => by
    -- both decoders check the same bytes before the field, and their counters stay related
    have hstep : (if c₁ = 0 then (Field.fixedRun (.mk name node :: (fs ++ blocks))).1 else 0) =
          (if c₂ = 0 then (Field.fixedRun (.mk name node :: fs)).1 else 0) ∧
        ((if c₁ = 0 then (Field.fixedRun (.mk name node :: (fs ++ blocks))).2 else c₁) - 1 =
            (if c₂ = 0 then (Field.fixedRun (.mk name node :: fs)).2 else c₂) - 1 ∨
          ((if c₂ = 0 then (Field.fixedRun (.mk name node :: fs)).2 else c₂) - 1 = fs.length ∧
            (if c₂ = 0 then (Field.fixedRun (.mk name node :: fs)).2 else c₂) - 1 ≤
              (if c₁ = 0 then (Field.fixedRun (.mk name node :: (fs ++ blocks))).2 else c₁) - 1)) := by
      obtain ⟨hsize, hcount⟩ := Field.fixedRun_append_blocks hblocks (.mk name node :: fs)
      simp only [List.length_cons, List.cons_append] at hsize hcount hc
      by_cases h₂ : c₂ = 0
      · have h₁ : c₁ = 0 := by omega
        simp only [h₁, h₂, if_true, hsize, true_and]
        omega
      · have h₁ : c₁ ≠ 0 := by omega
        simp only [h₁, h₂, if_false, true_and]
        omega
    obtain ⟨hsize, hcount⟩ := hstep
    rw [List.cons_append, Field.decodeAll_cons, Field.decodeAll_cons, hsize]
    simp only [bind_assoc]
    refine bind_congr_of_ok fun _ _ => bind_congr_of_ok fun r _ => ?_
    exact Field.decodeAll_append_blocks order parents hblocks fs _ _ _ r.2 hcount

/-- The fields after a trailing block of a list whose blocks come last are blocks. -/
theorem Field.blocksLast_after {f : Field} {post : List Field} (hf : f.node.isTrailing = true) :
    ∀ {pre : List Field}, Field.blocksLast (pre ++ f :: post) = true →
      ∀ g ∈ post, g.node.isTrailing = true
  | [], h => (Field.blocksLast_cons.mp h).1 hf
  | _ :: _, h => Field.blocksLast_after hf (Field.blocksLast_cons.mp h).2

/-! ## What the checks see of earlier fields -/

/-- What the checks of a later field see of an earlier one: its name, whether it is a trailing
block, whether it is a plain integer, and whether it is an integer or a flag set. -/
def Field.checkView (f : Field) : String × Bool × Bool × Bool :=
  (f.name, f.node.isTrailing, f.node.isScalar, f.node.isInteger)

/-- A union's selector is checked on the kind of the first earlier field of its name. -/
theorem Selector.problem?_eq_kind (earlier : List Field) (name : String) (s : Selector) :
    s.problem? earlier name = match s.scope, (Field.find? earlier s.field).map Node.isInteger with
      | .enclosing, _ => none
      | .current, some true => none
      | .current, some false => some (.selectorNotInteger s.field name)
      | .current, none => some (.selectorUndeclared s.field name) := by
  unfold Selector.problem?
  cases s.scope with
  | enclosing => rfl
  | current =>
    cases Field.find? earlier s.field with
    | none => rfl
    | some n => cases n <;> rfl

/-- A size source is checked on the kind of the first earlier field of its name. -/
theorem sizeSourceProblem?_eq_kind (earlier : List Field) (name source : String) :
    sizeSourceProblem? earlier name source =
      match (Field.find? earlier source).map Node.isScalar with
      | some true => none
      | some false => some (.sizeNotScalar source name)
      | none => some (.sizeUndeclared source name) := by
  unfold sizeSourceProblem?
  cases Field.find? earlier source with
  | none => rfl
  | some n => cases n <;> rfl

section CheckView

variable {e₁ e₂ : List Field} (h : e₁.map Field.checkView = e₂.map Field.checkView)
include h

theorem Field.find?_kind_congr (kind : Node → Bool)
    (hkind : ∃ π : String × Bool × Bool × Bool → Bool, ∀ f : Field, kind f.node = π f.checkView)
    (n : String) : (Field.find? e₁ n).map kind = (Field.find? e₂ n).map kind := by
  obtain ⟨π, hπ⟩ := hkind
  -- the first field of a name is found alike in the views
  have hview : ∀ e : List Field, (Field.find? e n).map kind =
      ((e.map Field.checkView).find? (fun v => v.1 == n)).map π := by
    intro e
    rw [List.find?_map, Option.map_map, Field.find?, Option.map_map]
    congr 1
    funext f
    exact hπ f
  rw [hview, hview, h]

theorem Selector.problem?_congr (name : String) (s : Selector) :
    s.problem? e₁ name = s.problem? e₂ name := by
  rw [Selector.problem?_eq_kind, Selector.problem?_eq_kind,
    Field.find?_kind_congr h Node.isInteger ⟨fun v => v.2.2.2, fun _ => rfl⟩]

theorem sizeSourceProblem?_congr (name source : String) :
    sizeSourceProblem? e₁ name source = sizeSourceProblem? e₂ name source := by
  rw [sizeSourceProblem?_eq_kind, sizeSourceProblem?_eq_kind,
    Field.find?_kind_congr h Node.isScalar ⟨fun v => v.2.2.1, fun _ => rfl⟩]

theorem Node.problem?_congr (name : String) : ∀ node : Node,
    node.problem? e₁ name = node.problem? e₂ name
  | .union s arms => by simp only [Node.problem?, Selector.problem?_congr h]
  | .trailing count stride element => by
    have hsource : sizeSourceProblem? e₁ name = sizeSourceProblem? e₂ name :=
      funext (sizeSourceProblem?_congr h name)
    simp only [Node.problem?, hsource]
  | .nested _ | .scalar _ | .flags .. | .pointer .. => rfl

theorem Field.problem?_congr (name : String) (node : Node) :
    Field.problem? e₁ name node = Field.problem? e₂ name node := by
  have hnames : e₁.map Field.name = e₂.map Field.name := by
    simpa [Function.comp_def, Field.checkView] using congrArg (List.map Prod.fst) h
  have htrail : e₁.map (fun f => f.node.isTrailing) = e₂.map (fun f => f.node.isTrailing) := by
    simpa [Function.comp_def, Field.checkView] using congrArg (List.map fun v => v.2.1) h
  have hany : e₁.any (fun f => f.name == name) = e₂.any (fun f => f.name == name) := by
    have := congrArg (List.any · (· == name)) hnames
    simpa [List.any_map, Function.comp_def] using this
  have hlast : e₁.getLast?.map (fun f => f.node.isTrailing) =
      e₂.getLast?.map (fun f => f.node.isTrailing) := by
    rw [← List.getLast?_map, ← List.getLast?_map, htrail]
  unfold Field.problem?
  rw [hany, hlast, Node.problem?_congr h]

end CheckView

/-- The checks of fields appended after two lists find the same problems when the lists look the
same to them. -/
theorem Field.firstProblem?_congr :
    ∀ (fs : List Field) {e₁ e₂ : List Field}, e₁.map Field.checkView = e₂.map Field.checkView →
      Field.firstProblem? e₁ fs = Field.firstProblem? e₂ fs
  | [], _, _, _ => rfl
  | .mk name node :: rest, e₁, e₂, h => by
    have h' : (e₁ ++ [Field.mk name node]).map Field.checkView =
        (e₂ ++ [Field.mk name node]).map Field.checkView := by
      simp only [List.map_append, h]
    simp only [Field.firstProblem?, Field.problem?_congr h, Field.firstProblem?_congr rest h']

/-! ## Dropping a stride equal to the element's size -/

theorem Field.node_mem_subNodes :
    ∀ {fields : List Field} {f : Field}, f ∈ fields → f.node ∈ Field.subNodes fields
  | .mk _ node :: rest, f, h => by
    rcases List.mem_cons.mp h with rfl | h
    · simp [Field.subNodes, Field.node]
    · simp [Field.subNodes, Field.node_mem_subNodes h]

section DropStride

variable {name : String} {order : ByteOrder} {pre post : List Field} {field count st : String}
  {E : Layout}

/-- Dropping a block's stride changes no layout nested inside the fields. -/
theorem Field.innerError?_drop_stride (st : String) :
    Field.innerError? (pre ++ .mk field (.trailing count none E) :: post) =
      Field.innerError? (pre ++ .mk field (.trailing count (some st) E) :: post) := by
  induction pre with
  | nil => rfl
  | cons f pre ih =>
    obtain ⟨_, node⟩ := f
    simp only [List.cons_append, Field.innerError?, ih]

/-- A layout stays accepted when one of its strided blocks drops its stride, and the stride's
field is an earlier plain integer of it. -/
theorem Layout.validate_drop_stride
    (hS : (Layout.mk name order (pre ++ .mk field (.trailing count (some st) E) :: post)).validate =
      .ok (Layout.mk name order (pre ++ .mk field (.trailing count (some st) E) :: post))) :
    (Layout.mk name order (pre ++ .mk field (.trailing count none E) :: post)).validate =
        .ok (Layout.mk name order (pre ++ .mk field (.trailing count none E) :: post)) ∧
      ∃ k, Field.find? pre st = some (.scalar k) := by
  have hnone := (Layout.validate_eq_ok.mp hS).1
  simp only [Layout.validateError?, Option.or_eq_none_iff, Option.map_eq_none_iff,
    Layout.problem?, Layout.fields, Field.firstProblem?_append, Field.firstProblem?,
    List.nil_append] at hnone
  obtain ⟨hinner, hpre, hblock, hpost⟩ := hnone
  have hnd := ((Field.firstProblem?_eq_none_iff pre).mp hpre).nodup
  obtain ⟨hfresh, hlast, hcount, hstride, hsize, -⟩ :=
    (Field.problem?_eq_none_iff hnd _ _).mp hblock
  -- the block passes its checks without its stride
  have hblock' : Field.problem? pre field (.trailing count none E) = none :=
    (Field.problem?_eq_none_iff hnd _ _).mpr ⟨hfresh, hlast, hcount, by simp, hsize, by simp⟩
  -- the fields after the block see it as before: a trailing block of the same name
  have hview : (pre ++ [Field.mk field (.trailing count none E)]).map Field.checkView =
      (pre ++ [Field.mk field (.trailing count (some st) E)]).map Field.checkView := by
    simp [Field.checkView, Field.name, Field.node, Node.isTrailing, Node.isScalar, Node.isInteger]
  have hpost' := (Field.firstProblem?_congr post hview).trans hpost
  refine ⟨Layout.validate_eq_ok.mpr ⟨?_, rfl⟩, ?_⟩
  · simp only [Layout.validateError?, Option.or_eq_none_iff, Option.map_eq_none_iff,
      Layout.problem?, Layout.fields, Field.firstProblem?_append, Field.firstProblem?,
      List.nil_append, Field.innerError?_drop_stride st, hinner, hpre, hblock', hpost',
      and_self]
  · obtain ⟨n, hfind, hscalar⟩ := (Field.declares_iff hnd st Node.isScalar).mp (hstride st rfl)
    cases n <;> simp_all [Node.isScalar]

end DropStride

/-- Placing the elements of a block at multiples of a stride equal to the element's size reads
what chaining them reads. For an accepted layout with a strided trailing block, the layout with
that block's stride dropped is accepted too, its stride field is still an earlier plain integer,
and on every buffer whose record head stores the element's size in that field the two layouts
decode alike: the same values, addresses and sizes, the same end, or the same error. -/
theorem Layout.decodeAt_strided_eq_packed {name : String} {order : ByteOrder}
    {pre post : List Field} {field count st : String} {E : Layout}
    (hS : (Layout.mk name order (pre ++ .mk field (.trailing count (some st) E) :: post)).validate =
      .ok (Layout.mk name order (pre ++ .mk field (.trailing count (some st) E) :: post))) :
    (Layout.mk name order (pre ++ .mk field (.trailing count none E) :: post)).validate =
        .ok (Layout.mk name order (pre ++ .mk field (.trailing count none E) :: post)) ∧
      (∃ k, Field.find? (pre ++ .mk field (.trailing count none E) :: post) st =
        some (.scalar k)) ∧
      ∀ w : Window, w.data.size < u64Max →
        (∀ r w', (Layout.mk name order pre).decodeRecord w = .ok (r, w') →
          (r.get? st).bind Value.selectorBits? = some E.fixedSize) →
        (Layout.mk name order (pre ++ .mk field (.trailing count (some st) E) :: post)).decodeAt w =
          (Layout.mk name order (pre ++ .mk field (.trailing count none E) :: post)).decodeAt w := by
  obtain ⟨hS', k, hfind⟩ := Layout.validate_drop_stride hS
  refine ⟨hS', ⟨k, ?_⟩, fun w hsmall hstride => ?_⟩
  · obtain ⟨f, hf, -⟩ := Option.map_eq_some_iff.mp hfind
    simpa [Field.find?, List.find?_append, hf] using hfind
  -- the block and the fields after it are trailing blocks
  obtain ⟨-, hshape, hlast⟩ := Layout.fields_of_validateError (Layout.validate_eq_ok.mp hS).1
  have hpost := Field.blocksLast_after rfl hlast
  have hblocks : ∀ node : Node, node.isTrailing = true →
      ∀ g ∈ Field.mk field node :: post, g.node.isTrailing = true := by
    intro node hnode g hg
    rcases List.mem_cons.mp hg with rfl | hg
    · exact hnode
    · exact hpost g hg
  -- the element has a fixed size
  have hnode := Field.wellShaped_of_mem_subNodes _ hshape _
    (Field.node_mem_subNodes (List.mem_append_right pre List.mem_cons_self))
  obtain ⟨htrail, hshapeE⟩ : E.hasTrailing = false ∧ E.wellShaped = true := by
    simpa only [Field.node, Node.wellShaped, Option.isNone_some, Bool.false_or, Bool.and_eq_true,
      Bool.not_eq_true'] using hnode
  have hfields :
      Field.decodeAll order [] [] 0 (pre ++ .mk field (.trailing count (some st) E) :: post) w =
        Field.decodeAll order [] [] 0 (pre ++ .mk field (.trailing count none E) :: post) w := by
    rw [Field.decodeAll_append_blocks order [] (hblocks _ rfl) pre [] 0 0 w (.inl rfl),
      Field.decodeAll_append_blocks order [] (hblocks _ rfl) pre [] 0 0 w (.inl rfl)]
    refine bind_congr_of_ok fun head hhead => ?_
    obtain ⟨done, w₁⟩ := head
    -- the block finds the element's size in its stride field
    have hs : Frame.integer ⟨done, []⟩ .current st w₁.address = .ok E.fixedSize := by
      have h := hstride ⟨name, w.address, w₁.pos - w.pos, done⟩ w₁
        (Layout.decodeIn_eq_ok.mpr ⟨done, hhead, rfl⟩)
      simp only [Record.get?] at h
      simp only [Frame.integer, Frame.lookup, Frame.find?, h]
    have hsmall₁ : w₁.data.size < u64Max := by
      rw [(Field.decodeAll_ahead order [] pre [] 0 w w₁ done hhead).data_eq]
      exact hsmall
    rw [Field.decodeAll_cons, Field.decodeAll_cons, Field.fixedRun_blocks (hblocks _ rfl),
      Field.fixedRun_blocks (hblocks _ rfl),
      Node.decode_strided_eq_packed hsmall₁ hshapeE htrail hs]
    rfl
  simp only [Layout.decodeAt, Layout.decodeRecord, Layout.decodeIn, hfields]

/-- The head of a record of pairs: their stride, then their count. -/
def pairsHead : List Field := [.mk "size" (.scalar .u16), .mk "count" (.scalar .u16)]

/-- A head that gives two pairs the pair's own size as their stride, then the two pairs. -/
def pairsWindow : Window := ⟨⟨#[4, 0, 2, 0, 1, 0, 2, 0, 3, 0, 4, 0]⟩, 0, 0⟩

theorem pairs_stride_of_size_reads_packed :
    (Layout.mk "Pairs" .little
        (pairsHead ++ [.mk "items" (.trailing "count" (some "size") pairElement)])).validate =
      .ok (Layout.mk "Pairs" .little
        (pairsHead ++ [.mk "items" (.trailing "count" (some "size") pairElement)])) ∧
    pairsWindow.data.size < u64Max ∧
    (∀ r w', (Layout.mk "Pairs" .little pairsHead).decodeRecord pairsWindow = .ok (r, w') →
      (r.get? "size").bind Value.selectorBits? = some pairElement.fixedSize) ∧
    (Layout.mk "Pairs" .little
        (pairsHead ++ [.mk "items" (.trailing "count" (some "size") pairElement)])).decodeAt
          pairsWindow =
      (Layout.mk "Pairs" .little
        (pairsHead ++ [.mk "items" (.trailing "count" none pairElement)])).decodeAt pairsWindow := by
  have hS : (Layout.mk "Pairs" .little
      (pairsHead ++ [.mk "items" (.trailing "count" (some "size") pairElement)])).validate =
      .ok (Layout.mk "Pairs" .little
        (pairsHead ++ [.mk "items" (.trailing "count" (some "size") pairElement)])) :=
    Layout.validate_eq_ok.mpr ⟨by decide, rfl⟩
  have hsmall : pairsWindow.data.size < u64Max := by decide
  have hstride : ∀ r w', (Layout.mk "Pairs" .little pairsHead).decodeRecord pairsWindow =
      .ok (r, w') → (r.get? "size").bind Value.selectorBits? = some pairElement.fixedSize := by
    intro r w' h
    -- the head stores 4, the size of a pair, in its stride field
    have hsize : ((Layout.mk "Pairs" .little pairsHead).decodeRecord pairsWindow).toOption.map
        (fun p => (p.1.get? "size").bind Value.selectorBits?) = some (some 4) := by
      decide +kernel
    have hpair : pairElement.fixedSize = 4 := rfl
    rw [h] at hsize
    simpa [Except.toOption, hpair] using hsize
  exact ⟨hS, hsmall, hstride, (@Layout.decodeAt_strided_eq_packed "Pairs" .little pairsHead []
    "items" "count" "size" pairElement hS).2.2 pairsWindow hsmall hstride⟩

end SwiftReflection
