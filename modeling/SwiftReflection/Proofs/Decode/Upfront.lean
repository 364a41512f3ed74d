import Mathlib
import SwiftReflection.Proofs.Decode.Unmatched
import SwiftReflection.Proofs.Layout.Acceptance
/-!
# Buffer shortages are found by the checks made up front

The decoder checks bounds in three places: before each run of fields that select no union arm
(the run's whole fixed size), at a union once its arm is chosen (the union's width), and at a
trailing block (its count times its stride or element size, saturated). Every integer, flag set
and pointer it reads, and every move of the window past a union, to a strided element or past a
strided block, lies inside bytes one of these checks asked for.

`Node.decodeUpfront` is the decoder with those three checks and no other: it reads and moves
without checking. `Layout.decodeAt_eq_decodeAtUpfront` proves the two equal on every accepted
layout, so every `Error.bufferTooShort` of a decode is one of the three checks, at its address,
with its size and the bytes remaining there, and no read inside a run fails.

The run check covers the fields after it through `Field.Covered`: the fields the countdown still
counts select no union arm and fit in what remains. A field of fixed size moves the window by
its size, and trailing blocks come after every fixed field (`Field.blocksLast`), so the fields
still counted after a block take no bytes.
-/

namespace SwiftReflection

/-! ## The decoder with only its up-front checks -/

/-- Reads element `i` of `count` at `start + i * stride` for each `i`, in order, without checking
that the element's start lies in the buffer. -/
def Window.stridedReadUnchecked {α : Type} (step : Window → Except Error (α × Window))
    (stride : Nat) (start : Window) (count : Nat) : Except Error (List α) :=
  (List.range count).mapM fun i => do
    let (a, _) ← step { start with pos := start.pos + i * stride }
    pure a

mutual

/-- Decodes like `Node.decode` with no bounds check but a union's width and a trailing block's
size: integers, flag sets and pointers are read, and the window is moved past a union, to a
strided element and past a strided block, without one. -/
def Node.decodeUpfront (order : ByteOrder) (frame : Frame) (name : String) :
    Node → Window → Except Error (Value × Window)
  | .scalar k, w =>
    let raw := order.readUInt (w.rest.take k.width)
    .ok (if k.signed then .signed (signExtend k.width raw) else .unsigned raw,
      { w with pos := w.pos + k.width })
  | .flags k bits, w =>
    .ok (.flags (order.readUInt (w.rest.take k.width)) bits, { w with pos := w.pos + k.width })
  | .nested l, w => do
    let (r, next) ← Layout.decodeUpfront frame.enter l w
    pure (Value.ofRecord r, next)
  | .pointer kind target, w =>
    .ok (.pointer ⟨w.address, (order.readUInt (w.rest.take 4)).toUInt32, kind⟩ target,
      { w with pos := w.pos + 4 })
  | .union sel arms, w => do
    let raw ← frame.integer sel.scope sel.field w.address
    let selected ← sel.extract raw
    let (armName, v) ← Arm.decodeUpfront order frame name selected (Arm.maxSize arms) arms w
    pure (.union armName selected v, { w with pos := w.pos + Arm.maxSize arms })
  | .trailing count stride element, w => do
    let n ← frame.integer .current count w.address
    let size := Layout.fixedSize element
    let stride? ← match stride with
      | none => pure none
      | some s => do
        let sv ← frame.integer .current s w.address
        if 0 < n && sv < size then throw (.invalidStride sv w.address size)
        pure (some sv)
    let minimum := saturate64 (n * stride?.getD size)
    w.ensure minimum
    match stride? with
    | some sv => do
      let items ← Window.stridedReadUnchecked (Layout.decodeUpfront frame.enter element) sv w n
      pure (.repeated (items.map Value.ofRecord), { w with pos := w.pos + minimum })
    | none => do
      let (items, next) ← Window.repeatRead (Layout.decodeUpfront frame.enter element) n w
      pure (.repeated (items.map Value.ofRecord), next)

/-- Decodes the first arm whose value is `selected` like `Arm.decodeMatching`, after checking
that the union's `width` remains. -/
def Arm.decodeUpfront (order : ByteOrder) (frame : Frame) (name : String) (selected width : Nat) :
    List Arm → Window → Except Error (String × Value)
  | [], w => .error (.discriminantUnsupported name selected w.address)
  | .mk v armName node :: rest, w =>
    if v == selected then do
      w.ensure width
      let (value, _) ← Node.decodeUpfront order frame armName node w
      pure (armName, value)
    else Arm.decodeUpfront order frame name selected width rest w

/-- Decodes fields in order like `Field.decodeAll`, checking each run of fields that select no
union arm before its first field. -/
def Field.decodeUpfront (order : ByteOrder) (parents : List (List (String × Value)))
    (done : List (String × Value)) (checked : Nat) :
    List Field → Window → Except Error (List (String × Value) × Window)
  | [], w => .ok (done, w)
  | .mk name node :: rest, w => do
    let checked ← if checked == 0 then do
        let (size, count) := Field.fixedRun (.mk name node :: rest)
        w.ensure size
        pure count
      else pure checked
    let (v, next) ← Node.decodeUpfront order ⟨done, parents⟩ name node w
    Field.decodeUpfront order parents (done ++ [(name, v)]) (checked - 1) rest next

/-- Decodes one record of a layout inside a frame like `Layout.decodeIn`. -/
def Layout.decodeUpfront (frame : Frame) : Layout → Window → Except Error (Record × Window)
  | .mk name order fields, w => do
    let (done, next) ← Field.decodeUpfront order frame.parents [] 0 fields w
    pure (⟨name, w.address, next.pos - w.pos, done⟩, next)

end

/-- Decodes one record of a layout at a window as a value, with only the up-front checks. -/
def Layout.decodeAtUpfront (l : Layout) (w : Window) : Except Error (Value × Window) := do
  let (r, next) ← l.decodeUpfront {} w
  pure (Value.ofRecord r, next)

theorem Field.decodeUpfront_cons (order : ByteOrder) (parents : List (List (String × Value)))
    (done : List (String × Value)) (checked : Nat) (name : String) (node : Node)
    (rest : List Field) (w : Window) :
    Field.decodeUpfront order parents done checked (.mk name node :: rest) w =
      w.ensure (if checked = 0 then (Field.fixedRun (.mk name node :: rest)).1 else 0) >>= fun _ =>
        Node.decodeUpfront order ⟨done, parents⟩ name node w >>= fun r =>
          Field.decodeUpfront order parents (done ++ [(name, r.1)])
            ((if checked = 0 then (Field.fixedRun (.mk name node :: rest)).2 else checked) - 1)
            rest r.2 := by
  by_cases hc : checked = 0
  · subst hc
    simp only [Field.decodeUpfront, beq_self_eq_true, if_true, pure_bind]
  · have hc' : (checked == 0) = false := by simpa using hc
    have hens : w.ensure 0 = .ok () := by simp [Window.ensure_eq]
    simp only [Field.decodeUpfront, hc', hc, Bool.false_eq_true, if_false, pure_bind, hens,
      ok_bind]

/-! ## Reads that agree wherever they run -/

/-- Two reads agree after a read whose successes they agree on. -/
theorem bind_congr_of_ok {ε α β : Type} {x : Except ε α} {f g : α → Except ε β}
    (h : ∀ a, x = .ok a → f a = g a) : x >>= f = x >>= g := by
  cases x with
  | error e => rfl
  | ok a => exact h a rfl

theorem mapM_congr_of_mem {ε α β : Type} {f g : α → Except ε β} :
    ∀ {l : List α}, (∀ x ∈ l, f x = g x) → l.mapM f = l.mapM g
  | [], _ => rfl
  | a :: l, h => by
    simp only [List.mapM_cons]
    rw [h a List.mem_cons_self, mapM_congr_of_mem fun x hx => h x (List.mem_cons_of_mem a hx)]

/-- Repeating two steps that agree on the windows `P` holds of, which each step keeps, agrees. -/
theorem Window.repeatRead_congr {α : Type} {step step' : Window → Except Error (α × Window)}
    (P : Window → Prop) (hstep : ∀ w, P w → step w = step' w)
    (hkeep : ∀ w a w', P w → step w = .ok (a, w') → P w') :
    ∀ (n : Nat) (w : Window), P w → Window.repeatRead step n w = Window.repeatRead step' n w
  | 0, _, _ => rfl
  | n + 1, w, hw => by
    rw [Window.repeatRead_succ, Window.repeatRead_succ, ← hstep w hw]
    refine bind_congr_of_ok fun r hr => ?_
    obtain ⟨a, w'⟩ := r
    simp only
    rw [Window.repeatRead_congr P hstep hkeep n w' (hkeep w a w' hw hr)]

/-- A strided block whose elements' starts all lie in the buffer reads alike with its moves
checked or not. -/
theorem Window.stridedRead_eq_unchecked {α : Type} {step step' : Window → Except Error (α × Window)}
    {stride count : Nat} {start : Window} (hfit : count * stride ≤ start.remaining)
    (hstep : ∀ i < count, step { start with pos := start.pos + i * stride } =
      step' { start with pos := start.pos + i * stride }) :
    Window.stridedRead step stride start count =
      Window.stridedReadUnchecked step' stride start count := by
  refine mapM_congr_of_mem fun i hi => ?_
  have hi' := List.mem_range.mp hi
  have hle : i * stride ≤ start.remaining := (Nat.mul_le_mul_right stride hi'.le).trans hfit
  rw [Window.advance_eq, if_pos hle, ok_bind, hstep i hi']

/-! ## Runs of fields covered by their check -/

/-- Whether trailing blocks come after every other field. -/
def Field.blocksLast : List Field → Bool
  | [] => true
  | f :: rest => (!f.node.isTrailing || rest.all fun g => g.node.isTrailing) && Field.blocksLast rest

theorem Field.blocksLast_cons {f : Field} {rest : List Field} :
    Field.blocksLast (f :: rest) = true ↔
      (f.node.isTrailing = true → ∀ g ∈ rest, g.node.isTrailing = true) ∧
        Field.blocksLast rest = true := by
  simp [Field.blocksLast, Bool.or_eq_true, imp_iff_not_or]

/-- Fields split into fixed ones and then blocks have their blocks last. -/
theorem Field.blocksLast_append {blocks : List Field}
    (hblocks : ∀ f ∈ blocks, f.node.isTrailing = true) :
    ∀ {fixed : List Field}, (∀ f ∈ fixed, f.node.isTrailing = false) →
      Field.blocksLast (fixed ++ blocks) = true
  | [], _ => by
    induction blocks with
    | nil => rfl
    | cons b bs ih =>
      refine Field.blocksLast_cons.mpr ⟨fun _ g hg => hblocks g (List.mem_cons_of_mem b hg), ?_⟩
      exact ih fun f hf => hblocks f (List.mem_cons_of_mem b hf)
  | f :: fixed, hfixed => by
    refine Field.blocksLast_cons.mpr ⟨fun ht => ?_, ?_⟩
    · rw [hfixed f List.mem_cons_self] at ht
      cases ht
    · exact Field.blocksLast_append hblocks fun g hg => hfixed g (List.mem_cons_of_mem f hg)

/-- Trailing blocks take no bytes of a record's fixed part. -/
theorem Field.sumSize_of_blocks :
    ∀ {fields : List Field}, (∀ g ∈ fields, g.node.isTrailing = true) → Field.sumSize fields = 0
  | [], _ => rfl
  | .mk name node :: rest, h => by
    have hnode : node.isTrailing = true := h (.mk name node) List.mem_cons_self
    have hrest := Field.sumSize_of_blocks fun g hg => h g (List.mem_cons_of_mem _ hg)
    cases node <;> simp_all [Node.isTrailing, Field.sumSize, Node.fixedSize]

/-- The leading run's size is the sum of the fixed sizes of its fields. -/
theorem Field.fixedRun_fst (fields : List Field) :
    (Field.fixedRun fields).1 = Field.sumSize (fields.take (Field.fixedRun fields).2) := by
  induction fields with
  | nil => rfl
  | cons f rest ih =>
    obtain ⟨name, node⟩ := f
    rw [Field.fixedRun_cons]
    split
    · rfl
    · simp only [List.take_succ_cons, Field.sumSize, ih]

/-- The first `checked` fields select no union arm and fit in what remains of the window: the
part of the current run that its check still covers. -/
def Field.Covered (checked : Nat) (fields : List Field) (w : Window) : Prop :=
  checked ≤ (Field.fixedRun fields).2 ∧ Field.sumSize (fields.take checked) ≤ w.remaining

namespace Field.Covered

variable {checked : Nat} {name : String} {node : Node} {rest : List Field} {w : Window}

theorem zero (fields : List Field) (w : Window) : Field.Covered 0 fields w :=
  ⟨Nat.zero_le _, by simp [Field.sumSize]⟩

/-- A run that passed its check is covered. -/
theorem of_check {fields : List Field} (h : (Field.fixedRun fields).1 ≤ w.remaining) :
    Field.Covered (Field.fixedRun fields).2 fields w :=
  ⟨le_rfl, Field.fixedRun_fst fields ▸ h⟩

/-- The first field of a covered run fits in what remains. -/
theorem head (h : Field.Covered checked (.mk name node :: rest) w) (hc : 0 < checked) :
    node.fixedSize ≤ w.remaining := by
  obtain ⟨-, hsum⟩ := h
  obtain ⟨k, rfl⟩ := Nat.exists_eq_succ_of_ne_zero (Nat.pos_iff_ne_zero.mp hc)
  simp only [List.take_succ_cons, Field.sumSize] at hsum
  omega

/-- After the first field decodes, the fields the countdown still counts are covered. -/
theorem tail {order : ByteOrder} {frame : Frame} {v : Value} {w₁ : Window}
    (h : Field.Covered checked (.mk name node :: rest) w) (hshape : node.wellShaped = true)
    (hlast : Field.blocksLast (.mk name node :: rest) = true)
    (hdec : Node.decode order frame name node w = .ok (v, w₁)) :
    Field.Covered (checked - 1) rest w₁ := by
  obtain ⟨hcount, hsum⟩ := h
  cases checked with
  | zero => exact Field.Covered.zero rest w₁
  | succ k =>
    rw [Field.fixedRun_cons] at hcount
    split at hcount
    · simp at hcount
    simp only [List.take_succ_cons, Field.sumSize] at hsum
    refine ⟨by simpa using hcount, ?_⟩
    simp only [Nat.add_sub_cancel]
    by_cases ht : node.isTrailing
    · -- blocks come last, so the fields after a block are blocks and take no fixed bytes
      have hblocks := (Field.blocksLast_cons.mp hlast).1 ht
      rw [Field.sumSize_of_blocks fun g hg => hblocks g (List.mem_of_mem_take hg)]
      exact Nat.zero_le _
    · -- a field of fixed size moves the window by its size
      have hpos := Node.decode_pos_of_fixed order frame name node w w₁ v hshape
        (Node.isVariable_of_wellShaped hshape (by simpa using ht)) hdec
      have hdata := (Node.decode_ahead order frame name node w w₁ v hdec).data_eq
      simp only [Window.remaining, hpos, hdata] at hsum ⊢
      omega

end Field.Covered

/-- The fields of a layout that validation accepts are accepted inside, well shaped, and have
their blocks last. -/
theorem Layout.fields_of_validateError {name : String} {order : ByteOrder} {fields : List Field}
    (h : (Layout.mk name order fields).validateError? = none) :
    Field.innerError? fields = none ∧ Field.wellShaped fields = true ∧
      Field.blocksLast fields = true := by
  have hshape := Layout.wellShaped_of_validateError _ h
  simp only [Layout.validateError?, Option.or_eq_none_iff, Option.map_eq_none_iff,
    Layout.problem?, Layout.fields] at h
  obtain ⟨fixed, blocks, rfl, hfixed, hblocks⟩ :=
    ((Field.firstProblem?_eq_none_iff _).mp h.2).trailingLast
  exact ⟨h.1, hshape, Field.blocksLast_append hblocks hfixed⟩

/-- Every arm fits in the union's width. -/
theorem Arm.fixedSize_le_maxSize : ∀ (arms : List Arm), ∀ a ∈ arms, a.node.fixedSize ≤ Arm.maxSize arms
  | [], _, h => absurd h List.not_mem_nil
  | .mk v n node :: rest, a, h => by
    rcases List.mem_cons.mp h with rfl | h
    · exact le_max_left _ _
    · exact (Arm.fixedSize_le_maxSize rest a h).trans (le_max_right _ _)

/-! ## Every read lies inside a check -/

mutual

/-- A node whose fixed bytes remain, unless it selects a union arm, decodes alike with its reads
checked or not. -/
theorem Node.decode_eq_upfront (order : ByteOrder) (frame : Frame) (name : String) :
    ∀ (node : Node) (w : Window), node.innerError? = none → w.data.size < u64Max →
      (node.hasUnion = false → node.fixedSize ≤ w.remaining) →
      Node.decode order frame name node w = Node.decodeUpfront order frame name node w
  | .scalar k, w, _, _, hcov => by
    have hk : k.width ≤ w.remaining := hcov rfl
    rw [Node.decode_scalar, if_pos hk]
    rfl
  | .flags k bits, w, _, _, hcov => by
    have hk : k.width ≤ w.remaining := hcov rfl
    rw [Node.decode_flags, if_pos hk]
    rfl
  | .pointer kind target, w, _, _, hcov => by
    have h4 : 4 ≤ w.remaining := hcov rfl
    rw [Node.decode_pointer, if_pos h4]
    rfl
  | .nested l, w, hin, hsmall, _ => by
    rw [Node.decode.eq_3, Node.decodeUpfront.eq_3,
      Layout.decode_eq_upfront frame.enter l w hin hsmall]
  | .union sel arms, w, hin, hsmall, _ => by
    have harms := Arm.decode_eq_upfront order frame name (Arm.maxSize arms) arms w hin hsmall
      (Arm.fixedSize_le_maxSize arms)
    rw [Node.decode.eq_5, Node.decodeUpfront.eq_5]
    refine bind_congr_of_ok fun raw _ => ?_
    refine bind_congr_of_ok fun selected _ => ?_
    rw [harms]
    refine bind_congr_of_ok fun r hr => ?_
    -- the chosen arm passed the width check, so moving past the union does not fail
    obtain ⟨-, -, hwidth, -⟩ := Arm.decodeMatching_eq_ok.mp ((harms selected).trans hr)
    rw [Window.advance_eq, if_pos hwidth]
    rfl
  | .trailing count stride element, w, hin, hsmall, _ => by
    have hel : ∀ u : Window, u.data.size < u64Max →
        Layout.decodeIn frame.enter element u = Layout.decodeUpfront frame.enter element u :=
      fun u hu => Layout.decode_eq_upfront frame.enter element u hin hu
    rw [Node.decode.eq_6, Node.decodeUpfront.eq_6]
    refine bind_congr_of_ok fun n _ => ?_
    cases stride with
    | none =>
      simp only [pure_bind, Option.getD_none]
      refine bind_congr_of_ok fun _ _ => ?_
      -- the elements follow each other over the same buffer
      rw [Window.repeatRead_congr (fun u => u.data.size < u64Max) (fun u hu => hel u hu)
        (fun u r u' hu h => (Layout.decodeIn_ahead frame.enter element u u' r h).data_eq ▸ hu)
        n w hsmall]
    | some s =>
      simp only
      refine bind_congr_of_ok fun sv _ => ?_
      split
      · rfl
      simp only [pure_bind, Option.getD_some]
      refine bind_congr_of_ok fun _ hens => ?_
      -- the block's check covers the start of every element and the move past the block
      have hmin := Window.ensure_eq_ok.mp hens
      have hfit : n * sv ≤ w.remaining := by
        have hsize : w.remaining < u64Max := by
          simp only [Window.remaining]
          omega
        rwa [← saturate64_of_le hmin hsize]
      rw [Window.stridedRead_eq_unchecked hfit fun i _ => hel _ hsmall]
      refine bind_congr_of_ok fun _ _ => ?_
      rw [Window.advance_eq, if_pos hmin, ok_bind]

theorem Arm.decode_eq_upfront (order : ByteOrder) (frame : Frame) (name : String) (width : Nat) :
    ∀ (arms : List Arm) (w : Window), Arm.innerError? arms = none → w.data.size < u64Max →
      (∀ a ∈ arms, a.node.fixedSize ≤ width) → ∀ selected,
      Arm.decodeMatching order frame name selected width arms w =
        Arm.decodeUpfront order frame name selected width arms w
  | [], _, _, _, _, _ => rfl
  | .mk v n node :: rest, w, hin, hsmall, hwidth, selected => by
    simp only [Arm.innerError?, Option.or_eq_none_iff] at hin
    simp only [Arm.decodeMatching, Arm.decodeUpfront]
    split
    · refine bind_congr_of_ok fun _ hens => ?_
      -- the arm fits in the width just checked
      have hfit : node.fixedSize ≤ w.remaining :=
        (hwidth (.mk v n node) List.mem_cons_self).trans (Window.ensure_eq_ok.mp hens)
      rw [Node.decode_eq_upfront order frame n node w hin.1 hsmall fun _ => hfit]
    · exact Arm.decode_eq_upfront order frame name width rest w hin.2 hsmall
        (fun a ha => hwidth a (List.mem_cons_of_mem _ ha)) selected

theorem Layout.decode_eq_upfront (frame : Frame) :
    ∀ (l : Layout) (w : Window), l.validateError? = none → w.data.size < u64Max →
      Layout.decodeIn frame l w = Layout.decodeUpfront frame l w
  | .mk name order fields, w, hval, hsmall => by
    obtain ⟨hin, hshape, hlast⟩ := Layout.fields_of_validateError hval
    simp only [Layout.decodeIn, Layout.decodeUpfront]
    rw [Field.decode_eq_upfront order frame.parents fields [] 0 w hin hshape hlast hsmall
      (Field.Covered.zero fields w)]

theorem Field.decode_eq_upfront (order : ByteOrder) (parents : List (List (String × Value))) :
    ∀ (fields : List Field) (done : List (String × Value)) (checked : Nat) (w : Window),
      Field.innerError? fields = none → Field.wellShaped fields = true →
      Field.blocksLast fields = true → w.data.size < u64Max → Field.Covered checked fields w →
      Field.decodeAll order parents done checked fields w =
        Field.decodeUpfront order parents done checked fields w
  | [], _, _, _, _, _, _, _, _ => rfl
  | .mk name node :: rest, done, checked, w, hin, hshape, hlast, hsmall, hcov => by
    simp only [Field.innerError?, Option.or_eq_none_iff] at hin
    simp only [Field.wellShaped, Bool.and_eq_true] at hshape
    rw [Field.decodeAll_cons, Field.decodeUpfront_cons]
    refine bind_congr_of_ok fun _ hens => ?_
    -- the fields still counted: the run just checked, or those covered before
    have hcov' : Field.Covered (if checked = 0 then (Field.fixedRun (.mk name node :: rest)).2
        else checked) (.mk name node :: rest) w := by
      split
      · rename_i hc
        rw [if_pos hc] at hens
        exact Field.Covered.of_check (Window.ensure_eq_ok.mp hens)
      · exact hcov
    have hcounted : node.hasUnion = false →
        0 < if checked = 0 then (Field.fixedRun (.mk name node :: rest)).2 else checked := by
      intro hu
      split
      · rw [Field.fixedRun_cons, if_neg (by simp [hu])]
        omega
      · omega
    have hnode := Node.decode_eq_upfront order ⟨done, parents⟩ name node w hin.1 hsmall
      fun hu => hcov'.head (hcounted hu)
    rw [hnode]
    refine bind_congr_of_ok fun r hr => ?_
    obtain ⟨v, w₁⟩ := r
    have hdec := hnode.trans hr
    exact Field.decode_eq_upfront order parents rest _ _ w₁ hin.2 hshape.2
      (Field.blocksLast_cons.mp hlast).2
      ((Node.decode_ahead order _ name node w w₁ v hdec).data_eq ▸ hsmall)
      (hcov'.tail hshape.1 hlast hdec)

end

/-- Every read of a decode lies inside bytes that a run's check, a union's width check or a
trailing block's size check asked for: on an accepted layout, decoding equals decoding with only
those checks. Every `Error.bufferTooShort` a decode reports is one of them, at the address where
it is made, with the size it asks for and the bytes that remain there; and no read inside a run,
no move to a strided element and no move past a union or a strided block fails. -/
theorem Layout.decodeAt_eq_decodeAtUpfront {S : Layout} (hS : S.validate = .ok S) {w : Window}
    (hsmall : w.data.size < u64Max) : S.decodeAt w = S.decodeAtUpfront w := by
  have hval := (Layout.validate_eq_ok.mp hS).1
  unfold Layout.decodeAt Layout.decodeAtUpfront Layout.decodeRecord
  rw [Layout.decode_eq_upfront {} S w hval hsmall]

/-- A record of two 32-bit words. -/
def wordPairLayout : Layout :=
  .mk "Pair" .little [.mk "first" (.scalar .u32), .mk "second" (.scalar .u32)]

/-- Five bytes hold the first word but not both: the two words are checked as one run at the
record's start, and the decode fails there, asking for eight bytes, before it reads a word. -/
theorem wordPair_short_before_reading :
    wordPairLayout.validate = .ok wordPairLayout ∧
      wordPairLayout.decodeAt ⟨⟨#[1, 2, 3, 4, 5]⟩, 0, 0⟩ =
        wordPairLayout.decodeAtUpfront ⟨⟨#[1, 2, 3, 4, 5]⟩, 0, 0⟩ ∧
      wordPairLayout.decodeAt ⟨⟨#[1, 2, 3, 4, 5]⟩, 0, 0⟩ = .error (.bufferTooShort 0 8 5) := by
  have hval : wordPairLayout.validate = .ok wordPairLayout :=
    Layout.validate_eq_ok.mpr ⟨by decide, rfl⟩
  exact ⟨hval, Layout.decodeAt_eq_decodeAtUpfront hval (by decide),
    Except.eq_error_of_failure (by decide +kernel)⟩

end SwiftReflection
