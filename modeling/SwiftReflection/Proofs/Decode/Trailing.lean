import Mathlib
import SwiftReflection.Proofs.Decode.Unmatched
import SwiftReflection.Proofs.Decode.Forms
import SwiftReflection.Proofs.Decode.Bounds
/-!
# Decoding trailing blocks

A trailing block reads its count, and its stride when it has one, among the fields of its record
decoded so far. Its checks come in a fixed order: a stride smaller than the element is refused
when there are elements; then the block's bytes, the count times the stride (or times the
element's size without a stride), must remain; then the elements are read, each with the record
holding the block as its parent. With a stride, element `i` is read `i` strides from the block's
start; without one, each element starts where the one before stopped (`Window.Chain`).

`Layout.trailing_block_decodes` says this of every trailing block of an accepted layout, at any
depth and in any frame (`Node.TrailingDecode`). Two facts about the element of a strided block,
which has a fixed size, carry it: decoded where its bytes remain, it never fails for lack of
bytes and its outcome depends on those bytes only (`Layout.ReadsExactly`); and it decodes no
strided block of its own, so no element reports a stride.
-/

namespace SwiftReflection

/-! ## Elements read one after the other -/

/-- `step` read `items` one after the other from `w`, each from where the one before stopped,
and stopped at `w'`. -/
inductive Window.Chain {α : Type} (step : Window → Except Error (α × Window)) :
    Window → List α → Window → Prop
  | nil (w : Window) : Window.Chain step w [] w
  | cons {w w₁ w' : Window} {a : α} {as : List α} :
      step w = .ok (a, w₁) → Window.Chain step w₁ as w' → Window.Chain step w (a :: as) w'

namespace Window

variable {α : Type} {step : Window → Except Error (α × Window)}

/-- A repetition succeeds exactly when its steps chain. -/
theorem repeatRead_eq_ok_iff :
    ∀ {n : Nat} {w w' : Window} {as : List α},
      Window.repeatRead step n w = .ok (as, w') ↔ Window.Chain step w as w' ∧ as.length = n
  | 0, w, w', as => by
    constructor
    · intro h
      simp only [repeatRead, Except.ok.injEq, Prod.mk.injEq] at h
      obtain ⟨rfl, rfl⟩ := h
      exact ⟨.nil w, rfl⟩
    · rintro ⟨hchain, hlen⟩
      cases hchain with
      | nil => rfl
      | cons => simp at hlen
  | n + 1, w, w', as => by
    rw [repeatRead_succ_eq_ok]
    constructor
    · rintro ⟨a, w₁, rest, h₁, hrest, rfl⟩
      obtain ⟨hchain, hlen⟩ := repeatRead_eq_ok_iff.mp hrest
      exact ⟨.cons h₁ hchain, by simp [hlen]⟩
    · rintro ⟨hchain, hlen⟩
      cases hchain with
      | nil => simp at hlen
      | cons h₁ hchain =>
        exact ⟨_, _, _, h₁, repeatRead_eq_ok_iff.mpr ⟨hchain, by simpa using hlen⟩, rfl⟩

/-- A repetition fails exactly when, after fewer steps than it has chained, the next step
fails. -/
theorem repeatRead_eq_error_iff {n : Nat} {w : Window} {e : Error} :
    Window.repeatRead step n w = .error e ↔
      ∃ as u, Window.Chain step w as u ∧ as.length < n ∧ step u = .error e := by
  constructor
  · intro h
    obtain ⟨k, as, u, hk, hpre, hstep⟩ := repeatRead_eq_error_split h
    obtain ⟨hchain, hlen⟩ := repeatRead_eq_ok_iff.mp hpre
    exact ⟨as, u, hchain, hlen ▸ hk, hstep⟩
  · rintro ⟨as, u, hchain, hlen, hstep⟩
    exact repeatRead_eq_error_of_prefix hlen (repeatRead_eq_ok_iff.mpr ⟨hchain, rfl⟩) hstep

/-! ## Elements read at multiples of a stride -/

/-- With every slot inside the buffer, a strided read fails exactly with the failure of its first
failing element. -/
theorem stridedRead_eq_error_iff {s n : Nat} {w : Window} {e : Error}
    (hslots : ∀ i < n, i * s ≤ w.remaining) :
    Window.stridedRead step s w n = .error e ↔
      ∃ i < n, (∀ j < i, ∃ b, step { w with pos := w.pos + j * s } = .ok b) ∧
        step { w with pos := w.pos + i * s } = .error e := by
  constructor
  · intro h
    obtain ⟨i, hi, hpre, hfail⟩ := mapM_eq_error_iff.mp h
    simp only [List.length_range] at hi
    simp only [List.getElem_range, advance_eq, if_pos (hslots i hi), ok_bind] at hfail
    refine ⟨i, hi, fun j hj => ?_, ?_⟩
    · have hmem : j ∈ (List.range n).take i := by simp; omega
      obtain ⟨a, ha⟩ := hpre j hmem
      rw [advance_eq, if_pos (hslots j (by omega)), ok_bind] at ha
      obtain ⟨b, hb, -⟩ := bind_eq_ok.mp ha
      exact ⟨b, hb⟩
    · rcases bind_eq_error.mp hfail with hstep | ⟨_, -, hpure⟩
      · exact hstep
      · exact absurd hpure pure_ne_error
  · rintro ⟨i, hi, hpre, hfail⟩
    exact stridedRead_eq_error_of_slot hi (hslots i hi) hpre hfail

end Window

/-! ## Elements of fixed size -/

mutual

theorem Node.hasStride_of_fixed :
    ∀ node : Node, node.wellShaped = true → node.isVariable = false → node.hasStride = false
  | .scalar _, _, _ => rfl
  | .flags .., _, _ => rfl
  | .pointer .., _, _ => rfl
  | .nested l, hshape, _ => by
    simp only [Node.wellShaped, Bool.and_eq_true, Bool.not_eq_true'] at hshape
    exact Layout.hasStride_of_fixed l hshape.2 hshape.1
  | .union _ arms, hshape, _ => Arm.hasStride_of_fixed arms hshape
  | .trailing .., _, hvar => by simp [Node.isVariable] at hvar

theorem Arm.hasStride_of_fixed :
    ∀ arms : List Arm, Arm.wellShaped arms = true → Arm.hasStride arms = false
  | [], _ => rfl
  | .mk _ _ node :: rest, h => by
    simp only [Arm.wellShaped, Bool.and_eq_true, Bool.not_eq_true'] at h
    simp [Arm.hasStride, Node.hasStride_of_fixed node h.1.2 h.1.1, Arm.hasStride_of_fixed rest h.2]

/-- A layout of fixed size decodes no strided block, at any depth. -/
theorem Layout.hasStride_of_fixed :
    ∀ l : Layout, l.wellShaped = true → l.hasTrailing = false → l.hasStride = false
  | .mk _ _ fields, hshape, htrail => Field.hasStride_of_fixed fields hshape htrail

theorem Field.hasStride_of_fixed :
    ∀ fields : List Field, Field.wellShaped fields = true →
      fields.any (fun f => f.node.isTrailing) = false → Field.hasStride fields = false
  | [], _, _ => rfl
  | .mk _ node :: rest, hshape, htrail => by
    simp only [Field.wellShaped, Bool.and_eq_true] at hshape
    simp only [List.any_cons, Field.node, Bool.or_eq_false_iff] at htrail
    simp [Field.hasStride,
      Node.hasStride_of_fixed node hshape.1 (Node.isVariable_of_wellShaped hshape.1 htrail.1),
      Field.hasStride_of_fixed rest hshape.2 htrail.2]

end

mutual

theorem Node.decode_not_short (order : ByteOrder) (frame : Frame) (name : String) :
    ∀ (node : Node) (w : Window) (e : Error), node.wellShaped = true →
      node.isVariable = false → node.fixedSize ≤ w.remaining →
      Node.decode order frame name node w = .error e → e.isShort = false
  | .scalar k, w, e, _, _, hfit, h => by
    simp only [Node.fixedSize] at hfit
    rw [Node.decode_scalar, if_pos hfit] at h
    cases h
  | .flags k bits, w, e, _, _, hfit, h => by
    simp only [Node.fixedSize] at hfit
    rw [Node.decode_flags, if_pos hfit] at h
    cases h
  | .pointer kind target, w, e, _, _, hfit, h => by
    simp only [Node.fixedSize] at hfit
    rw [Node.decode_pointer, if_pos hfit] at h
    cases h
  | .nested l, w, e, hshape, _, hfit, h => by
    simp only [Node.wellShaped, Bool.and_eq_true, Bool.not_eq_true'] at hshape
    rw [Node.decode.eq_3] at h
    rcases bind_eq_error.mp h with hl | ⟨_, -, hpure⟩
    · exact Layout.decodeIn_not_short frame.enter l w e hshape.2 hshape.1 hfit hl
    · exact absurd hpure pure_ne_error
  | .union sel arms, w, e, hshape, _, hfit, h => by
    rw [Node.decode.eq_5] at h
    rcases bind_eq_error.mp h with hint | ⟨raw, -, h⟩
    · obtain ⟨-, rfl⟩ := Frame.integer_eq_error hint
      rfl
    simp only [Node.fixedSize] at hfit
    rcases bind_eq_error.mp h with hsel | ⟨_, -, h⟩
    · obtain ⟨-, rfl⟩ := Selector.extract_eq_error.mp hsel
      rfl
    rcases bind_eq_error.mp h with harm | ⟨⟨armName, v⟩, -, h⟩
    · exact Arm.decodeMatching_not_short order frame name _ (Arm.maxSize arms) arms w e hshape
        le_rfl hfit harm
    -- the union moves past its width, which remains
    simp only [Window.advance_eq, if_pos hfit, ok_bind] at h
    exact absurd h pure_ne_error
  | .trailing .., _, _, _, hvar, _, _ => by simp [Node.isVariable] at hvar

theorem Arm.decodeMatching_not_short (order : ByteOrder) (frame : Frame) (name : String)
    (selected width : Nat) :
    ∀ (arms : List Arm) (w : Window) (e : Error), Arm.wellShaped arms = true →
      Arm.maxSize arms ≤ width → width ≤ w.remaining →
      Arm.decodeMatching order frame name selected width arms w = .error e → e.isShort = false
  | [], w, e, _, _, _, h => by
    simp only [Arm.decodeMatching, Except.error.injEq] at h
    subst h
    rfl
  | .mk v n node :: rest, w, e, hshape, hwidth, hfit, h => by
    simp only [Arm.wellShaped, Bool.and_eq_true, Bool.not_eq_true'] at hshape
    simp only [Arm.maxSize, Nat.max_le] at hwidth
    simp only [Arm.decodeMatching] at h
    split at h
    · rw [Window.ensure_eq, if_pos hfit, ok_bind] at h
      rcases bind_eq_error.mp h with hnode | ⟨_, -, hpure⟩
      · exact Node.decode_not_short order frame n node w e hshape.1.2 hshape.1.1
          (by omega) hnode
      · exact absurd hpure pure_ne_error
    · exact Arm.decodeMatching_not_short order frame name selected width rest w e hshape.2
        hwidth.2 hfit h

theorem Layout.decodeIn_not_short (frame : Frame) :
    ∀ (l : Layout) (w : Window) (e : Error), l.wellShaped = true → l.hasTrailing = false →
      l.fixedSize ≤ w.remaining → Layout.decodeIn frame l w = .error e → e.isShort = false
  | .mk _ order fields, w, e, hshape, htrail, hfit, h =>
    Field.decodeAll_not_short order frame.parents fields [] 0 w e hshape htrail hfit
      (Layout.decodeIn_eq_error h)

theorem Field.decodeAll_not_short (order : ByteOrder) (parents : List (List (String × Value))) :
    ∀ (fields : List Field) (done : List (String × Value)) (checked : Nat) (w : Window)
      (e : Error), Field.wellShaped fields = true →
      fields.any (fun f => f.node.isTrailing) = false → Field.sumSize fields ≤ w.remaining →
      Field.decodeAll order parents done checked fields w = .error e → e.isShort = false
  | [], _, _, _, _, _, _, _, h => by simp at h
  | .mk name node :: rest, done, checked, w, e, hshape, htrail, hfit, h => by
    simp only [Field.wellShaped, Bool.and_eq_true] at hshape
    simp only [List.any_cons, Field.node, Bool.or_eq_false_iff] at htrail
    have hvar := Node.isVariable_of_wellShaped hshape.1 htrail.1
    have hsum : Field.sumSize (.mk name node :: rest) = node.fixedSize + Field.sumSize rest := rfl
    -- the run's check asks for no more than the fields take
    have hrun : (if checked = 0 then (Field.fixedRun (.mk name node :: rest)).1 else 0) ≤
        w.remaining := by
      have := Field.fixedRun_le_sumSize (.mk name node :: rest)
      split <;> omega
    rw [Field.decodeAll_cons, Window.ensure_eq, if_pos hrun, ok_bind] at h
    rcases bind_eq_error.mp h with hnode | ⟨⟨v, w₁⟩, hok, hrest⟩
    · exact Node.decode_not_short order _ name node w e hshape.1 hvar (by omega) hnode
    · have hpos := Node.decode_pos_of_fixed order _ name node w w₁ v hshape.1 hvar hok
      have hdata := (Node.decode_ahead order _ name node w w₁ v hok).data_eq
      exact Field.decodeAll_not_short order parents rest _ _ w₁ e hshape.2 htrail.2
        (by simp only [Window.remaining, hdata, hpos] at hfit ⊢; omega) hrest

end

/-- Moves the window of a result onto another buffer. -/
def Window.onto {β : Type} (d : ByteArray) (p : β × Window) : β × Window :=
  (p.1, { p.2 with data := d })

mutual

theorem Node.decode_congr (order : ByteOrder) (frame : Frame) (name : String) :
    ∀ (node : Node) (w : Window) (d : ByteArray), node.wellShaped = true →
      node.isVariable = false → node.fixedSize ≤ w.remaining → w.pos + node.fixedSize ≤ d.size →
      w.Agrees { w with data := d } (w.pos + node.fixedSize) →
      Node.decode order frame name node { w with data := d } =
        (Node.decode order frame name node w).map (Window.onto d)
  | .scalar k, w, d, _, _, hfit, hd, hagree => by
    simp only [Node.fixedSize] at hfit hd hagree
    rw [Node.decode_scalar, Node.decode_scalar, if_pos hfit,
      if_pos (by simp only [Window.remaining]; omega), hagree.take_rest le_rfl hd]
    rfl
  | .flags k bits, w, d, _, _, hfit, hd, hagree => by
    simp only [Node.fixedSize] at hfit hd hagree
    rw [Node.decode_flags, Node.decode_flags, if_pos hfit,
      if_pos (by simp only [Window.remaining]; omega), hagree.take_rest le_rfl hd]
    rfl
  | .pointer kind target, w, d, _, _, hfit, hd, hagree => by
    simp only [Node.fixedSize] at hfit hd hagree
    rw [Node.decode_pointer, Node.decode_pointer, if_pos hfit,
      if_pos (by simp only [Window.remaining]; omega), hagree.take_rest le_rfl hd]
    rfl
  | .nested l, w, d, hshape, _, hfit, hd, hagree => by
    simp only [Node.wellShaped, Bool.and_eq_true, Bool.not_eq_true'] at hshape
    rw [Node.decode.eq_3, Node.decode.eq_3,
      Layout.decodeIn_congr frame.enter l w d hshape.2 hshape.1 hfit hd hagree]
    cases Layout.decodeIn frame.enter l w <;> rfl
  | .union sel arms, w, d, hshape, _, hfit, hd, hagree => by
    simp only [Node.fixedSize] at hfit hd hagree
    have haddr : ({ w with data := d } : Window).address = w.address := rfl
    have hfit' : Arm.maxSize arms ≤ ({ w with data := d } : Window).remaining := by
      simp only [Window.remaining]
      omega
    rw [Node.decode.eq_5, Node.decode.eq_5, haddr]
    cases frame.integer sel.scope sel.field w.address with
    | error e => rfl
    | ok raw =>
      simp only [ok_bind]
      cases sel.extract raw with
      | error e => rfl
      | ok selected =>
        simp only [ok_bind]
        rw [Arm.decodeMatching_congr order frame name _ _ arms w d hshape le_rfl hfit hd hagree]
        cases Arm.decodeMatching order frame name selected (Arm.maxSize arms) arms w with
        | error e => rfl
        | ok p =>
          obtain ⟨armName, v⟩ := p
          simp only [ok_bind, Window.advance_eq, if_pos hfit, if_pos hfit']
          rfl
  | .trailing .., _, _, _, hvar, _, _, _ => by simp [Node.isVariable] at hvar

theorem Arm.decodeMatching_congr (order : ByteOrder) (frame : Frame) (name : String)
    (selected width : Nat) :
    ∀ (arms : List Arm) (w : Window) (d : ByteArray), Arm.wellShaped arms = true →
      Arm.maxSize arms ≤ width → width ≤ w.remaining → w.pos + width ≤ d.size →
      w.Agrees { w with data := d } (w.pos + width) →
      Arm.decodeMatching order frame name selected width arms { w with data := d } =
        Arm.decodeMatching order frame name selected width arms w
  | [], _, _, _, _, _, _, _ => rfl
  | .mk v n node :: rest, w, d, hshape, hwidth, hfit, hd, hagree => by
    simp only [Arm.wellShaped, Bool.and_eq_true, Bool.not_eq_true'] at hshape
    simp only [Arm.maxSize, Nat.max_le] at hwidth
    simp only [Arm.decodeMatching]
    split
    · rw [Window.ensure_eq, Window.ensure_eq, if_pos hfit,
        if_pos (by simp only [Window.remaining]; omega), ok_bind, ok_bind,
        Node.decode_congr order frame n node w d hshape.1.2 hshape.1.1 (by omega) (by omega)
          (hagree.mono (by omega))]
      cases Node.decode order frame n node w <;> rfl
    · exact Arm.decodeMatching_congr order frame name selected width rest w d hshape.2 hwidth.2
        hfit hd hagree

theorem Layout.decodeIn_congr (frame : Frame) :
    ∀ (l : Layout) (w : Window) (d : ByteArray), l.wellShaped = true → l.hasTrailing = false →
      l.fixedSize ≤ w.remaining → w.pos + l.fixedSize ≤ d.size →
      w.Agrees { w with data := d } (w.pos + l.fixedSize) →
      Layout.decodeIn frame l { w with data := d } = (Layout.decodeIn frame l w).map (Window.onto d)
  | .mk name order fields, w, d, hshape, htrail, hfit, hd, hagree => by
    rw [Layout.decodeIn, Layout.decodeIn,
      Field.decodeAll_congr order frame.parents fields [] 0 w d hshape htrail hfit hd hagree]
    cases Field.decodeAll order frame.parents [] 0 fields w <;> rfl

theorem Field.decodeAll_congr (order : ByteOrder) (parents : List (List (String × Value))) :
    ∀ (fields : List Field) (done : List (String × Value)) (checked : Nat) (w : Window)
      (d : ByteArray), Field.wellShaped fields = true →
      fields.any (fun f => f.node.isTrailing) = false → Field.sumSize fields ≤ w.remaining →
      w.pos + Field.sumSize fields ≤ d.size →
      w.Agrees { w with data := d } (w.pos + Field.sumSize fields) →
      Field.decodeAll order parents done checked fields { w with data := d } =
        (Field.decodeAll order parents done checked fields w).map (Window.onto d)
  | [], _, _, _, _, _, _, _, _, _ => rfl
  | .mk name node :: rest, done, checked, w, d, hshape, htrail, hfit, hd, hagree => by
    simp only [Field.wellShaped, Bool.and_eq_true] at hshape
    simp only [List.any_cons, Field.node, Bool.or_eq_false_iff] at htrail
    have hvar := Node.isVariable_of_wellShaped hshape.1 htrail.1
    have hsum : Field.sumSize (.mk name node :: rest) = node.fixedSize + Field.sumSize rest := rfl
    rw [hsum] at hfit hd hagree
    -- the run's check asks for no more than the fields take, on either buffer
    have hrun0 : (if checked = 0 then (Field.fixedRun (.mk name node :: rest)).1 else 0) ≤
        node.fixedSize + Field.sumSize rest := by
      have := Field.fixedRun_le_sumSize (.mk name node :: rest)
      split <;> omega
    have hrun : (if checked = 0 then (Field.fixedRun (.mk name node :: rest)).1 else 0) ≤
        w.remaining := by omega
    have hrun' : (if checked = 0 then (Field.fixedRun (.mk name node :: rest)).1 else 0) ≤
        ({ w with data := d } : Window).remaining := by
      simp only [Window.remaining]
      omega
    rw [Field.decodeAll_cons, Field.decodeAll_cons, Window.ensure_eq, Window.ensure_eq, if_pos hrun,
      if_pos hrun', ok_bind, ok_bind, Node.decode_congr order _ name node w d hshape.1 hvar
        (by omega) (by omega) (hagree.mono (by omega))]
    cases hnode : Node.decode order ⟨done, parents⟩ name node w with
    | error e => rfl
    | ok p =>
      obtain ⟨v, w₁⟩ := p
      have hpos := Node.decode_pos_of_fixed order _ name node w w₁ v hshape.1 hvar hnode
      have hahead := Node.decode_ahead order _ name node w w₁ v hnode
      have hrem : Field.sumSize rest ≤ w₁.remaining := by
        simp only [Window.remaining, hahead.data_eq, hpos] at hfit ⊢
        omega
      simp only [Except.map, ok_bind, Window.onto]
      exact Field.decodeAll_congr order parents rest _ _ w₁ d hshape.2 htrail.2 hrem (by omega)
        ((hagree.ahead hahead).mono (by omega))

end

/-- A record of fixed size stops right after its bytes, in the same buffer. -/
theorem Layout.decodeIn_stop_of_fixed {frame : Frame} {E : Layout} {w w' : Window} {r : Record}
    (hshape : E.wellShaped = true) (htrail : E.hasTrailing = false)
    (h : E.decodeIn frame w = .ok (r, w')) : w' = { w with pos := w.pos + E.fixedSize } := by
  have hahead := Layout.decodeIn_ahead frame E w w' r h
  have hpos := Layout.decodeIn_pos_of_fixed frame E w w' r hshape htrail h
  obtain ⟨d, o, p⟩ := w'
  simp only at hahead hpos ⊢
  rw [← hahead.data_eq, ← hahead.origin_eq, hpos]

/-- Decoding `E` at `w` in `frame` reads exactly the `E.fixedSize` bytes from `w.pos`: it never
fails for lack of bytes, stops right after them, and gives the same on every buffer that holds
the same bytes there. -/
structure Layout.ReadsExactly (frame : Frame) (E : Layout) (w : Window) : Prop where
  not_short : ∀ offset needed available,
    E.decodeIn frame w ≠ .error (.bufferTooShort offset needed available)
  stop_eq : ∀ r w', E.decodeIn frame w = .ok (r, w') → w' = { w with pos := w.pos + E.fixedSize }
  same_bytes : ∀ d : ByteArray, w.pos + E.fixedSize ≤ d.size →
    (∀ i, w.pos ≤ i → i < w.pos + E.fixedSize → d[i]? = w.data[i]?) →
    E.decodeIn frame { w with data := d } = (E.decodeIn frame w).map (Window.onto d)

/-- A well-shaped layout with no trailing block reads exactly its fixed size wherever that many
bytes remain. -/
theorem Layout.readsExactly_of_fixed {frame : Frame} {E : Layout} {w : Window}
    (hshape : E.wellShaped = true) (htrail : E.hasTrailing = false)
    (hfit : E.fixedSize ≤ w.remaining) : Layout.ReadsExactly frame E w where
  not_short offset needed available h :=
    absurd (Layout.decodeIn_not_short frame E w _ hshape htrail hfit h) (by simp [Error.isShort])
  stop_eq _ _ h := Layout.decodeIn_stop_of_fixed hshape htrail h
  same_bytes d hd hbytes :=
    Layout.decodeIn_congr frame E w d hshape htrail hfit hd
      ⟨rfl, rfl, fun i h₁ h₂ _ => hbytes i h₁ h₂⟩

/-! ## The checks of a trailing block -/

theorem Except.map_eq_ok {ε α β : Type} {f : α → β} {x : Except ε α} {b : β} :
    x.map f = .ok b ↔ ∃ a, x = .ok a ∧ f a = b := by
  cases x <;> simp [Except.map]

theorem Except.map_eq_error {ε α β : Type} {f : α → β} {x : Except ε α} {e : ε} :
    x.map f = .error e ↔ x = .error e := by
  cases x <;> simp [Except.map]

/-- A saturated byte count fits in fewer than `u64Max` bytes exactly when the count does. -/
theorem saturate64_le_iff {k m : Nat} (hm : m < u64Max) : saturate64 k ≤ m ↔ k ≤ m := by
  unfold saturate64
  split
  · rfl
  · unfold u64Max at hm ⊢
    omega

namespace Node

variable {order : ByteOrder} {frame : Frame} {name count : String} {E : Layout} {w : Window}
  {n : Nat}

/-- A strided block with count `n` and stride `s` refuses a stride smaller than a present
element first, then checks its `n * s` bytes, then reads its elements at multiples of the
stride. -/
theorem decode_strided_eq {st : String} {s : Nat}
    (hn : frame.integer .current count w.address = .ok n)
    (hs : frame.integer .current st w.address = .ok s) :
    Node.decode order frame name (.trailing count (some st) E) w =
      if 0 < n ∧ s < E.fixedSize then .error (.invalidStride s w.address E.fixedSize)
      else if saturate64 (n * s) ≤ w.remaining then
        (Window.stridedRead (Layout.decodeIn frame.enter E) s w n).map fun items =>
          (.repeated (items.map Value.ofRecord), { w with pos := w.pos + saturate64 (n * s) })
      else .error (.bufferTooShort w.address (saturate64 (n * s)) w.remaining) := by
  rw [Node.decode.eq_6]
  simp only [hn, hs, ok_bind, pure_bind, Option.getD_some]
  by_cases hchk : 0 < n ∧ s < E.fixedSize
  · simp [hchk, throw, throwThe, MonadExceptOf.throw]
  · have hchk' : (decide (0 < n) && decide (s < E.fixedSize)) = false := by
      simpa using hchk
    simp only [hchk', if_neg hchk, Bool.false_eq_true, if_false, Window.ensure_eq]
    split
    · rename_i hle
      simp only [ok_bind, Window.advance_eq, if_pos hle]
      cases Window.stridedRead (Layout.decodeIn frame.enter E) s w n <;> rfl
    · rfl

/-- A packed block with count `n` checks `n` times its element's size, then reads its elements
one after the other. -/
theorem decode_packed_eq (hn : frame.integer .current count w.address = .ok n) :
    Node.decode order frame name (.trailing count none E) w =
      if saturate64 (n * E.fixedSize) ≤ w.remaining then
        (Window.repeatRead (Layout.decodeIn frame.enter E) n w).map fun p =>
          (.repeated (p.1.map Value.ofRecord), p.2)
      else .error (.bufferTooShort w.address (saturate64 (n * E.fixedSize)) w.remaining) := by
  rw [Node.decode.eq_6]
  simp only [hn, ok_bind, pure_bind, Option.getD_none, Window.ensure_eq]
  split
  · simp only [ok_bind]
    cases Window.repeatRead (Layout.decodeIn frame.enter E) n w <;> rfl
  · rfl

/-- What a strided block with count `n` and stride `s` gives at `w` once its checks pass: at most
as many elements as bytes remain; the `n` records, element `i` read at `i * s` from the block
with the record holding the block as its parent, and the window `n * s` bytes on; or else the
failure of the first element that fails. Each element reads exactly its own bytes. -/
structure StridedElements (order : ByteOrder) (frame : Frame) (name count st : String)
    (E : Layout) (w : Window) (n s : Nat) : Prop where
  count_le : n ≤ w.remaining
  ok_iff : ∀ v w', Node.decode order frame name (.trailing count (some st) E) w = .ok (v, w') ↔
    ∃ items : List Record, items.length = n ∧
      (∀ i (h : i < items.length), ∃ u,
        E.decodeIn frame.enter { w with pos := w.pos + i * s } = .ok (items[i], u)) ∧
      v = .repeated (items.map Value.ofRecord) ∧ w' = { w with pos := w.pos + n * s }
  error_iff : ∀ e, Node.decode order frame name (.trailing count (some st) E) w = .error e ↔
    ∃ i < n, (∀ j < i, ∃ b, E.decodeIn frame.enter { w with pos := w.pos + j * s } = .ok b) ∧
      E.decodeIn frame.enter { w with pos := w.pos + i * s } = .error e
  slot : ∀ i < n, Layout.ReadsExactly frame.enter E { w with pos := w.pos + i * s }

/-- What a packed block with count `n` gives at `w` once its check passes: at most as many
elements as bytes remain; the `n` records read one after the other from `w`, each from where
the one before stopped, with the record holding the block as their parent, and the window
where the last stopped; or else the failure of the first element that fails. -/
structure PackedElements (order : ByteOrder) (frame : Frame) (name count : String)
    (E : Layout) (w : Window) (n : Nat) : Prop where
  count_le : n ≤ w.remaining
  ok_iff : ∀ v w', Node.decode order frame name (.trailing count none E) w = .ok (v, w') ↔
    ∃ items, Window.Chain (E.decodeIn frame.enter) w items w' ∧ items.length = n ∧
      v = .repeated (items.map Value.ofRecord)
  error_iff : ∀ e, Node.decode order frame name (.trailing count none E) w = .error e ↔
    ∃ items u, Window.Chain (E.decodeIn frame.enter) w items u ∧ items.length < n ∧
      E.decodeIn frame.enter u = .error e

/-- Past its checks, a strided block of a fixed-size element reads element `i` at `i * s`, each
exactly its own bytes. -/
theorem stridedElements {st : String} {s : Nat} (hsmall : w.data.size < u64Max)
    (hshape : E.wellShaped = true) (htrail : E.hasTrailing = false) (hpos : 0 < E.fixedSize)
    (hn : frame.integer .current count w.address = .ok n)
    (hs : frame.integer .current st w.address = .ok s) (hchk : ¬(0 < n ∧ s < E.fixedSize))
    (hle : n * s ≤ w.remaining) : StridedElements order frame name count st E w n s := by
  have hrem : w.remaining < u64Max := by
    simp only [Window.remaining]
    omega
  have hsat : saturate64 (n * s) = n * s :=
    saturate64_of_le ((saturate64_le _).trans hle) hrem
  have hdec := @decode_strided_eq order frame name count E w n st s hn hs
  rw [if_neg hchk, hsat, if_pos hle] at hdec
  obtain ⟨-, hcount, hslots⟩ := Window.repetition_within hsmall hpos
    (fun h => Nat.not_lt.mp fun h' => hchk ⟨h, h'⟩)
    (by rw [Window.ensure_eq, hsat, if_pos hle])
  refine ⟨hcount, fun v w' => ?_, fun e => ?_, fun i hi => ?_⟩
  · rw [hdec, Except.map_eq_ok]
    constructor
    · rintro ⟨items, hitems, hpair⟩
      obtain ⟨hlen, hall⟩ := Window.stridedRead_eq_ok.mp hitems
      simp only [Prod.mk.injEq] at hpair
      exact ⟨items, hlen, fun i h => (hall i h).2, hpair.1.symm, hpair.2.symm⟩
    · rintro ⟨items, hlen, hall, rfl, rfl⟩
      refine ⟨items, Window.stridedRead_eq_ok.mpr ⟨hlen, fun i h => ⟨?_, hall i h⟩⟩, rfl⟩
      have := hslots i (hlen ▸ h)
      omega
  · rw [hdec, Except.map_eq_error]
    exact Window.stridedRead_eq_error_iff fun i hi => by have := hslots i hi; omega
  · refine Layout.readsExactly_of_fixed hshape htrail ?_
    have := hslots i hi
    simp only [Window.remaining] at this ⊢
    omega

/-- Past its check, a packed block reads its elements one after the other. -/
theorem packedElements (hsmall : w.data.size < u64Max) (hpos : 0 < E.fixedSize)
    (hn : frame.integer .current count w.address = .ok n)
    (hle : n * E.fixedSize ≤ w.remaining) : PackedElements order frame name count E w n := by
  have hrem : w.remaining < u64Max := by
    simp only [Window.remaining]
    omega
  have hsat : saturate64 (n * E.fixedSize) = n * E.fixedSize :=
    saturate64_of_le ((saturate64_le _).trans hle) hrem
  have hdec := @decode_packed_eq order frame name count E w n hn
  rw [hsat, if_pos hle] at hdec
  obtain ⟨-, hcount, -⟩ := Window.repetition_within hsmall hpos (fun _ => le_rfl)
    (by rw [Window.ensure_eq, hsat, if_pos hle])
  refine ⟨hcount, fun v w' => ?_, fun e => ?_⟩
  · rw [hdec, Except.map_eq_ok]
    constructor
    · rintro ⟨⟨items, w''⟩, hitems, hpair⟩
      obtain ⟨hchain, hlen⟩ := Window.repeatRead_eq_ok_iff.mp hitems
      simp only [Prod.mk.injEq] at hpair
      obtain ⟨rfl, rfl⟩ := hpair
      exact ⟨items, hchain, hlen, rfl⟩
    · rintro ⟨items, hchain, hlen, rfl⟩
      exact ⟨(items, w'), Window.repeatRead_eq_ok_iff.mpr ⟨hchain, hlen⟩, rfl⟩
  · rw [hdec, Except.map_eq_error]
    exact Window.repeatRead_eq_error_iff

/-- A strided block of a fixed-size element refuses its stride exactly when it has elements and
the stride is smaller than the element: no element can report a stride of its own. -/
theorem decode_eq_invalidStride_iff {st : String} {s : Nat} (hshape : E.wellShaped = true)
    (htrail : E.hasTrailing = false) (hn : frame.integer .current count w.address = .ok n)
    (hs : frame.integer .current st w.address = .ok s) :
    Node.decode order frame name (.trailing count (some st) E) w =
        .error (.invalidStride s w.address E.fixedSize) ↔ 0 < n ∧ s < E.fixedSize := by
  rw [decode_strided_eq hn hs]
  by_cases hchk : 0 < n ∧ s < E.fixedSize
  · simp [hchk]
  · simp only [hchk, if_false, iff_false]
    split
    · intro h
      rcases Window.stridedRead_eq_error (Except.map_eq_error.mp h) with hshort | ⟨u, hu⟩
      · simp [Error.isShort] at hshort
      · -- an element of fixed size decodes no strided block
        have hfail := Layout.decodeIn_failure frame.enter E u _ hu
        rw [Layout.hasStride_of_fixed E hshape htrail] at hfail
        simp [Error.FromDecoding] at hfail
    · simp

end Node

/-! ## Trailing blocks of accepted layouts -/

/-- How a trailing block with count `n` decodes at `w`, in the order of its checks. Its element
has a positive size `e`. With a stride `s`, it fails with `invalidStride` at its address exactly
when it has elements and `s < e`; past that check, it fails for lack of bytes at its address,
before any element, exactly when fewer than `n * s` bytes remain, and otherwise reads its
elements at multiples of the stride (`Node.StridedElements`). Without a stride, the same holds
with `e` for `s` and no stride check, and its elements are read one after the other
(`Node.PackedElements`). -/
structure Node.TrailingDecode (order : ByteOrder) (frame : Frame) (name count : String)
    (stride : Option String) (E : Layout) (w : Window) (n : Nat) : Prop where
  element_pos : 0 < E.fixedSize
  invalid_iff : ∀ st s, stride = some st → frame.integer .current st w.address = .ok s →
    (Node.decode order frame name (.trailing count stride E) w =
      .error (.invalidStride s w.address E.fixedSize) ↔ 0 < n ∧ s < E.fixedSize)
  strided_short : ∀ st s, stride = some st → frame.integer .current st w.address = .ok s →
    ¬(0 < n ∧ s < E.fixedSize) → w.remaining < n * s →
    Node.decode order frame name (.trailing count stride E) w =
      .error (.bufferTooShort w.address (saturate64 (n * s)) w.remaining)
  strided : ∀ st s, stride = some st → frame.integer .current st w.address = .ok s →
    ¬(0 < n ∧ s < E.fixedSize) → n * s ≤ w.remaining →
    Node.StridedElements order frame name count st E w n s
  packed_short : stride = none → w.remaining < n * E.fixedSize →
    Node.decode order frame name (.trailing count stride E) w =
      .error (.bufferTooShort w.address (saturate64 (n * E.fixedSize)) w.remaining)
  packed : stride = none → n * E.fixedSize ≤ w.remaining →
    Node.PackedElements order frame name count E w n

/-- A trailing block of a layout that validation accepts, at any depth, decodes as
`Node.TrailingDecode` says in any frame and at any window over a buffer shorter than `u64Max`
bytes, once its count `n` is read; a byte count past 64 bits counts as more than remain. -/
theorem Layout.trailing_block_decodes {S : Layout} (hS : S.validate = .ok S) {count : String}
    {stride : Option String} {E : Layout} (hmem : Node.trailing count stride E ∈ S.subNodes)
    {order : ByteOrder} {frame : Frame} {name : String} {w : Window} {n : Nat}
    (hsmall : w.data.size < u64Max) (hn : frame.integer .current count w.address = .ok n) :
    Node.TrailingDecode order frame name count stride E w n := by
  have hpos := Layout.elementsNonempty_of_validate hS count stride E hmem
  have hshape := Layout.wellShaped_of_mem_subNodes S (Layout.wellShaped_of_validate hS) _ hmem
  have hrem : w.remaining < u64Max := by
    simp only [Window.remaining]
    omega
  -- a strided element ends in no trailing block
  have hstrided : ∀ st, stride = some st → E.hasTrailing = false ∧ E.wellShaped = true := by
    rintro st rfl
    simpa only [Node.wellShaped, Option.isNone_some, Bool.false_or, Bool.and_eq_true,
      Bool.not_eq_true'] using hshape
  refine ⟨hpos, fun st s hst hs => ?_, fun st s hst hs hchk hlt => ?_,
    fun st s hst hs hchk hle => ?_, fun hst hlt => ?_, fun hst hle => ?_⟩
  · obtain ⟨htrail, hshape'⟩ := hstrided st hst
    subst hst
    exact Node.decode_eq_invalidStride_iff hshape' htrail hn hs
  · subst hst
    rw [Node.decode_strided_eq hn hs, if_neg hchk,
      if_neg (by rw [saturate64_le_iff hrem]; omega)]
  · obtain ⟨htrail, hshape'⟩ := hstrided st hst
    subst hst
    exact Node.stridedElements hsmall hshape' htrail hpos hn hs hchk hle
  · subst hst
    rw [Node.decode_packed_eq hn, if_neg (by rw [saturate64_le_iff hrem]; omega)]
  · subst hst
    exact Node.packedElements hsmall hpos hn hle

/-- An element of two 16-bit integers. -/
def pairElement : Layout :=
  .mk "Element" .little [.mk "value" (.scalar .u16), .mk "tag" (.scalar .u16)]

/-- A record whose header gives a stride and a count, followed by that many elements at that
stride. -/
def stridedLayout : Layout :=
  .mk "Strided" .little [.mk "size" (.scalar .u16), .mk "count" (.scalar .u16),
    .mk "items" (.trailing "count" (some "size") pairElement)]

/-- The decoded header of a strided record: stride 6, count 2. -/
def stridedHeader : Frame :=
  ⟨[("size", .unsigned 6), ("count", .unsigned 2)], []⟩

/-- Sixteen bytes holding a strided record, at its block after the four bytes of its header. -/
def stridedBlockWindow : Window :=
  ⟨⟨#[6, 0, 2, 0, 7, 0, 0, 0, 0xEE, 0xEE, 9, 0, 0, 0, 0xEE, 0xEE]⟩, 0, 4⟩

/-- The block of a strided record with stride 6 and count 2, after its header in a buffer of 16
bytes. -/
theorem stridedLayout_block_decodes :
    stridedLayout.validate = .ok stridedLayout ∧
      Node.trailing "count" (some "size") pairElement ∈ stridedLayout.subNodes ∧
      stridedBlockWindow.data.size < u64Max ∧
      stridedHeader.integer .current "count" stridedBlockWindow.address = .ok 2 ∧
      Node.TrailingDecode .little stridedHeader "items" "count" (some "size") pairElement
        stridedBlockWindow 2 := by
  have hS : stridedLayout.validate = .ok stridedLayout := Layout.validate_eq_ok.mpr ⟨by decide, rfl⟩
  have hmem : Node.trailing "count" (some "size") pairElement ∈ stridedLayout.subNodes := by
    simp [stridedLayout, Layout.subNodes, Field.subNodes]
  have hsmall : stridedBlockWindow.data.size < u64Max := by decide
  have hn : stridedHeader.integer .current "count" stridedBlockWindow.address = .ok 2 := by decide
  exact ⟨hS, hmem, hsmall, hn, Layout.trailing_block_decodes hS hmem hsmall hn⟩

end SwiftReflection
