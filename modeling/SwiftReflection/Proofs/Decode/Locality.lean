import Mathlib
import SwiftReflection.Proofs.Decode.RoundTrip
/-!
# Decoding reads only what it consumes

A decode's outcome depends on exactly the bytes it consumes. Replayed on another buffer that
holds the same bytes from where the decode started to where it stopped, whatever lies around
them, it gives the same value and stops at the same place; replayed on a buffer cut short
anywhere inside those bytes, it fails with `Error.bufferTooShort` and never with another error.

Both halves come from one invariant, proved node by node for layouts that validation accepts:
every bounds check a decode makes asks for no byte past where the decode stops, and every other
check (a selector, a count, a stride) looks at values the decode has already read.
`Window.Agrees` says which bytes the two buffers share, and `Replays` what a step of the decode
gives on the other buffer.
-/

namespace SwiftReflection

/-! ## Two buffers that share the bytes a decode reads -/

/-- The window `u` is placed like `w` and holds the same bytes from `w.pos` up to `stop`, as far
as its buffer goes. -/
structure Window.Agrees (w u : Window) (stop : Nat) : Prop where
  origin_eq : u.origin = w.origin
  pos_eq : u.pos = w.pos
  byte_eq : ∀ i, w.pos ≤ i → i < stop → i < u.data.size → u.data[i]? = w.data[i]?

namespace Window.Agrees

variable {w u : Window} {stop : Nat}

theorem mono (h : w.Agrees u stop) {stop' : Nat} (hle : stop' ≤ stop) : w.Agrees u stop' :=
  ⟨h.origin_eq, h.pos_eq, fun i h₁ h₂ h₃ => h.byte_eq i h₁ (by omega) h₃⟩

theorem move (h : w.Agrees u stop) (n : Nat) :
    Window.Agrees { w with pos := w.pos + n } { u with pos := u.pos + n } stop :=
  ⟨h.origin_eq, by simp [h.pos_eq], fun i h₁ h₂ h₃ => h.byte_eq i (by simp at h₁; omega) h₂ h₃⟩

/-- After a step of the decode on `w`, the two buffers still agree from where it stopped. -/
theorem ahead (h : w.Agrees u stop) {w₁ : Window} {k : Nat} (ha : Window.Ahead w w₁ k) :
    w₁.Agrees { w₁ with data := u.data } stop := by
  refine ⟨rfl, rfl, fun i h₁ h₂ h₃ => ?_⟩
  rw [ha.data_eq]
  exact h.byte_eq i (by have := ha.le_pos; omega) h₂ h₃

theorem address (h : w.Agrees u stop) : u.address = w.address := by
  simp [Window.address, h.origin_eq, h.pos_eq]

/-- Windows moved alike are the same window over the other buffer. -/
theorem moved_eq (h : w.Agrees u stop) (n : Nat) :
    { u with pos := u.pos + n } = { { w with pos := w.pos + n } with data := u.data } := by
  obtain ⟨d, o, p⟩ := u
  have ho : o = w.origin := h.origin_eq
  have hp : p = w.pos := h.pos_eq
  subst ho hp
  rfl

theorem eq_self (h : w.Agrees u stop) : u = { w with data := u.data } :=
  h.moved_eq 0

/-- Bytes read within the shared range are the same in both windows. -/
theorem take_rest (h : w.Agrees u stop) {k : Nat} (hk : w.pos + k ≤ stop)
    (hu : w.pos + k ≤ u.data.size) : u.rest.take k = w.rest.take k := by
  apply List.ext_getElem?
  intro j
  rw [Window.rest_eq, Window.rest_eq, List.getElem?_take, List.getElem?_take,
    List.getElem?_drop, List.getElem?_drop]
  split
  · rw [← ByteArray.getElem?_eq_toList, ← ByteArray.getElem?_eq_toList, h.pos_eq]
    exact h.byte_eq _ (by omega) (by omega) (by omega)
  · rfl

end Window.Agrees

/-! ## What a decode gives on the other buffer -/

/-- A step replayed on the buffer `data`: if `stop`, where the step ended on the first buffer,
lies within `data`, it gives the same result `x`; otherwise it fails a bounds check. -/
def Replays {β : Type} (data : ByteArray) (stop : Nat) (x : β) (r : Except Error β) : Prop :=
  (stop ≤ data.size → r = .ok x) ∧ (data.size < stop → ∃ e, r = .error e ∧ e.isShort = true)

namespace Replays

variable {β γ : Type} {data : ByteArray} {stop : Nat}

theorem ok {x : β} (h : stop ≤ data.size) : Replays data stop x (.ok x) :=
  ⟨fun _ => rfl, fun h' => absurd h (Nat.not_le.mpr h')⟩

/-- Steps replay one after the other, as long as each stops no later than the next. -/
theorem bind {s₁ s₂ : Nat} {a : β} {b : γ} {r : Except Error β} {f : β → Except Error γ}
    (h₁ : Replays data s₁ a r) (hle : s₁ ≤ s₂) (h₂ : s₁ ≤ data.size → Replays data s₂ b (f a)) :
    Replays data s₂ b (r >>= f) := by
  by_cases hs : s₁ ≤ data.size
  · rw [h₁.1 hs, ok_bind]
    exact h₂ hs
  · obtain ⟨e, he, hshort⟩ := h₁.2 (by omega)
    rw [he, error_bind]
    exact ⟨fun h => absurd h (by omega), fun _ => ⟨e, rfl, hshort⟩⟩

/-- A bounds check replays up to the last byte it asks for. -/
theorem ensure {u : Window} {k : Nat} (hpos : u.pos ≤ u.data.size) (hstop : u.pos + k = stop) :
    Replays u.data stop () (u.ensure k) := by
  rw [Window.ensure_eq]
  refine ⟨fun h => ?_, fun h => ?_⟩
  · rw [if_pos (by simp only [Window.remaining]; omega)]
  · rw [if_neg (by simp only [Window.remaining]; omega)]
    exact ⟨_, rfl, rfl⟩

theorem advance {u : Window} {k : Nat} (hpos : u.pos ≤ u.data.size) (hstop : u.pos + k = stop) :
    Replays u.data stop { u with pos := u.pos + k } (u.advance k) := by
  rw [Window.advance_eq]
  refine ⟨fun h => ?_, fun h => ?_⟩
  · rw [if_pos (by simp only [Window.remaining]; omega)]
  · rw [if_neg (by simp only [Window.remaining]; omega)]
    exact ⟨_, rfl, rfl⟩

/-- A read of `k` bytes that succeeded on the first window replays with the bytes it read, when
the other window agrees with it up to where the read stopped. -/
theorem read {w u w' : Window} {k : Nat} {x : β} (f : List UInt8 → β) {e e' : Error}
    (he' : e'.isShort = true)
    (h : (if k ≤ w.remaining then .ok (f (w.rest.take k), { w with pos := w.pos + k })
      else .error e) = Except.ok (x, w'))
    (hagree : w.Agrees u w'.pos) (hpos : u.pos ≤ u.data.size) :
    Replays u.data w'.pos (x, { w' with data := u.data })
      (if k ≤ u.remaining then .ok (f (u.rest.take k), { u with pos := u.pos + k })
        else .error e') := by
  split at h
  · simp only [Except.ok.injEq, Prod.mk.injEq] at h
    obtain ⟨rfl, rfl⟩ := h
    have hp := hagree.pos_eq
    refine ⟨fun hs => ?_, fun hs => ?_⟩ <;> dsimp only at hs
    · rw [if_pos (by simp only [Window.remaining]; omega), hagree.take_rest le_rfl hs,
        hagree.moved_eq]
    · rw [if_neg (by simp only [Window.remaining]; omega)]
      exact ⟨e', rfl, he'⟩
  · cases h

end Replays

theorem Error.eq_bufferTooShort {e : Error} (h : e.isShort = true) :
    ∃ address needed available, e = .bufferTooShort address needed available := by
  cases e <;> simp_all [Error.isShort]

/-! ## Every step of an accepted layout replays -/

/-- A repeated step replays when each step does. -/
theorem Window.repeatRead_replays {α : Type} {step : Window → Except Error (α × Window)}
    (hahead : ∀ w a w', step w = .ok (a, w') → Window.Ahead w w' 0)
    (hstep : ∀ w w' u a, w.data.size < u64Max → step w = .ok (a, w') → w.Agrees u w'.pos →
      u.pos ≤ u.data.size → Replays u.data w'.pos (a, { w' with data := u.data }) (step u)) :
    ∀ (n : Nat) (w w' u : Window) (as : List α), w.data.size < u64Max →
      Window.repeatRead step n w = .ok (as, w') → w.Agrees u w'.pos → u.pos ≤ u.data.size →
      Replays u.data w'.pos (as, { w' with data := u.data }) (Window.repeatRead step n u)
  | 0, w, w', u, as, _, h, hagree, hpos => by
    simp only [Window.repeatRead, Except.ok.injEq, Prod.mk.injEq] at h
    obtain ⟨rfl, rfl⟩ := h
    rw [Window.repeatRead, ← hagree.eq_self]
    exact Replays.ok (hagree.pos_eq ▸ hpos)
  | n + 1, w, w', u, as, hsmall, h, hagree, hpos => by
    obtain ⟨a, w₁, rest, h₁, hrest, rfl⟩ := Window.repeatRead_succ_eq_ok.mp h
    have hahead₁ := hahead w a w₁ h₁
    have hle : w₁.pos ≤ w'.pos := by
      have := (Window.repeatRead_ahead hahead n w₁ w' rest hrest).le_pos
      omega
    rw [Window.repeatRead_succ]
    refine Replays.bind (hstep w w₁ u a hsmall h₁ (hagree.mono hle) hpos) hle fun hs => ?_
    refine Replays.bind (Window.repeatRead_replays hahead hstep n w₁ w' _ rest
      (hahead₁.data_eq ▸ hsmall) hrest (hagree.ahead hahead₁) hs) le_rfl fun hs' => ?_
    exact Replays.ok hs'

/-- A strided read replays on a window that agrees with the first over the whole block, when
each element takes `size` bytes, at most a stride, from the start of its slot. -/
theorem Window.stridedRead_replays {α : Type} {step : Window → Except Error (α × Window)}
    {stride size n : Nat}
    (hend : ∀ w a w', step w = .ok (a, w') → w'.pos = w.pos + size)
    (hstep : ∀ w w' u a, w.data.size < u64Max → step w = .ok (a, w') → w.Agrees u w'.pos →
      u.pos ≤ u.data.size → Replays u.data w'.pos (a, { w' with data := u.data }) (step u))
    (hfit : 0 < n → size ≤ stride) {w u : Window} {items : List α}
    (hsmall : w.data.size < u64Max) (h : Window.stridedRead step stride w n = .ok items)
    (hagree : w.Agrees u (w.pos + n * stride)) (hblock : u.pos + n * stride ≤ u.data.size) :
    Window.stridedRead step stride u n = .ok items := by
  obtain ⟨hlen, hall⟩ := Window.stridedRead_eq_ok.mp h
  refine Window.stridedRead_eq_ok.mpr ⟨hlen, fun i hi => ?_⟩
  obtain ⟨-, wi, hwi⟩ := hall i hi
  have hendi := hend _ _ _ hwi
  -- element `i` ends within the block
  have hslot : i * stride + size ≤ n * stride := by
    have h₁ : (i + 1) * stride ≤ n * stride := Nat.mul_le_mul_right stride (by omega)
    have h₂ := hfit (by omega)
    rw [Nat.succ_mul] at h₁
    omega
  have hp := hagree.pos_eq
  have hrep := hstep { w with pos := w.pos + i * stride } wi { u with pos := u.pos + i * stride }
    items[i] hsmall hwi ((hagree.move (i * stride)).mono (by simp only at hendi ⊢; omega))
    (by simp only; omega)
  exact ⟨by simp only [Window.remaining]; omega, _, hrep.1 (by simp only at hendi ⊢; omega)⟩

mutual

theorem Node.decode_replays (order : ByteOrder) (frame : Frame) (name : String) :
    ∀ (node : Node) (w w' u : Window) (v : Value), node.wellShaped = true →
      w.data.size < u64Max → Node.decode order frame name node w = .ok (v, w') →
      w.Agrees u w'.pos → u.pos ≤ u.data.size →
      Replays u.data w'.pos (v, { w' with data := u.data }) (Node.decode order frame name node u)
  | .scalar k, w, w', u, v, _, _, h, hagree, hpos => by
    rw [Node.decode_scalar] at h ⊢
    exact Replays.read (fun bs => if k.signed then Value.signed (signExtend k.width
      (order.readUInt bs)) else Value.unsigned (order.readUInt bs)) rfl h hagree hpos
  | .flags k bits, w, w', u, v, _, _, h, hagree, hpos => by
    rw [Node.decode_flags] at h ⊢
    exact Replays.read (fun bs => Value.flags (order.readUInt bs) bits) rfl h hagree hpos
  | .pointer kind target, w, w', u, v, _, _, h, hagree, hpos => by
    -- the pointer records where it was read, which is the same place in both windows
    rw [Node.decode_pointer] at h
    rw [Node.decode_pointer, hagree.address]
    exact Replays.read
      (fun bs => Value.pointer ⟨w.address, (order.readUInt bs).toUInt32, kind⟩ target) rfl h
      hagree hpos
  | .nested l, w, w', u, v, hshape, hsmall, h, hagree, hpos => by
    simp only [Node.wellShaped, Bool.and_eq_true] at hshape
    obtain ⟨r, hr, rfl⟩ := Node.decode_nested_eq_ok.mp h
    rw [Node.decode.eq_3]
    exact Replays.bind (Layout.decodeIn_replays frame.enter l w w' u r hshape.2 hsmall hr hagree hpos)
      le_rfl fun hs => Replays.ok hs
  | .union sel arms, w, w', u, v, hshape, hsmall, h, hagree, hpos => by
    obtain ⟨raw, armName, val, hraw, hshift, harm, -, rfl, rfl⟩ := Node.decode_union_eq_ok.mp h
    have hraw' : frame.integer sel.scope sel.field u.address = .ok raw := hagree.address ▸ hraw
    rw [Node.decode.eq_5]
    simp only [hraw', ok_bind, Selector.extract_of_lt hshift]
    -- the arm is read within the union's width, and the union moves past all of it
    refine Replays.bind (Arm.decodeMatching_replays order frame name (sel.narrow raw)
      (Arm.maxSize arms) arms w u armName val hshape hsmall le_rfl harm hagree hpos) le_rfl
      fun _ => ?_
    refine Replays.bind (Replays.advance hpos (by rw [hagree.pos_eq])) le_rfl fun hs => ?_
    rw [hagree.moved_eq]
    exact Replays.ok hs
  | .trailing count none element, w, w', u, v, hshape, hsmall, h, hagree, hpos => by
    simp only [Node.wellShaped, Bool.and_eq_true] at hshape
    obtain ⟨n, items, hn, -, hitems, rfl⟩ := Node.decode_packed_eq_ok.mp h
    have hn' : frame.integer .current count u.address = .ok n := hagree.address ▸ hn
    have hahead : ∀ w a w', Layout.decodeIn frame.enter element w = .ok (a, w') →
        Window.Ahead w w' 0 := fun w a w' h =>
      (Layout.decodeIn_ahead frame.enter element w w' a h).mono (Nat.zero_le _)
    rw [Node.decode.eq_6]
    simp only [hn', ok_bind, pure_bind, Option.getD_none]
    -- the up-front check asks for the elements' fixed sizes, which they all take
    have hmin : u.pos + saturate64 (n * element.fixedSize) ≤ w'.pos := by
      have h₁ := saturate64_le (n * element.fixedSize)
      have h₂ := (Window.repeatRead_ahead (fun u r u' hr =>
        Layout.decodeIn_ahead frame.enter element u u' r hr) n w w' items hitems).le_pos
      rw [hagree.pos_eq]
      omega
    refine Replays.bind (Replays.ensure hpos rfl) hmin fun _ => ?_
    refine Replays.bind (Window.repeatRead_replays hahead (fun w w' u a hsmall h hagree hpos =>
        Layout.decodeIn_replays frame.enter element w w' u a hshape.2 hsmall h hagree hpos)
      n w w' u items hsmall hitems hagree hpos) le_rfl fun hs => ?_
    exact Replays.ok hs
  | .trailing count (some s) element, w, w', u, v, hshape, hsmall, h, hagree, hpos => by
    simp only [Node.wellShaped, Bool.and_eq_true, Option.isNone_some, Bool.false_or,
      Bool.not_eq_true'] at hshape
    obtain ⟨n, sv, items, hn, hsv, hfit, hle, hitems, rfl, rfl⟩ := Node.decode_strided_eq_ok.mp h
    -- the block's byte count does not saturate, as the buffer is shorter than `u64Max`
    have hsat : saturate64 (n * sv) = n * sv :=
      saturate64_of_le hle (by simp only [Window.remaining]; omega)
    have hn' : frame.integer .current count u.address = .ok n := hagree.address ▸ hn
    have hsv' : frame.integer .current s u.address = .ok sv := hagree.address ▸ hsv
    have hchk : ¬((decide (0 < n) && decide (sv < element.fixedSize)) = true) := by
      simp only [Bool.and_eq_true, decide_eq_true_eq, not_and, Nat.not_lt]
      exact hfit
    rw [Node.decode.eq_6]
    simp only [hn', hsv', ok_bind, pure_bind, Option.getD_some, if_neg hchk]
    refine Replays.bind (Replays.ensure hpos (by rw [hagree.pos_eq])) le_rfl fun hs => ?_
    -- past the check every element lies within the block, so each replays in full
    have hread : Window.stridedRead (Layout.decodeIn frame.enter element) sv u n = .ok items := by
      have hagree' : w.Agrees u (w.pos + n * sv) := by
        rw [← hsat]
        exact hagree
      have hp := hagree.pos_eq
      exact Window.stridedRead_replays
        (fun w a w' h => Layout.decodeIn_pos_of_fixed frame.enter element w w' a hshape.2 hshape.1 h)
        (fun w w' u a hsmall h hagree hpos =>
          Layout.decodeIn_replays frame.enter element w w' u a hshape.2 hsmall h hagree hpos)
        hfit hsmall hitems hagree' (by omega)
    rw [hread, ok_bind]
    refine Replays.bind (Replays.advance hpos (by rw [hagree.pos_eq])) le_rfl fun hs' => ?_
    rw [hagree.moved_eq]
    exact Replays.ok hs'

theorem Arm.decodeMatching_replays (order : ByteOrder) (frame : Frame) (name : String)
    (selected width : Nat) :
    ∀ (arms : List Arm) (w u : Window) (armName : String) (val : Value), Arm.wellShaped arms = true →
      w.data.size < u64Max → Arm.maxSize arms ≤ width →
      Arm.decodeMatching order frame name selected width arms w = .ok (armName, val) →
      w.Agrees u (w.pos + width) → u.pos ≤ u.data.size →
      Replays u.data (w.pos + width) (armName, val)
        (Arm.decodeMatching order frame name selected width arms u)
  | [], w, u, armName, val, _, _, _, h, _, _ => by simp [Arm.decodeMatching] at h
  | .mk v n node :: rest, w, u, armName, val, hshape, hsmall, hwidth, h, hagree, hpos => by
    simp only [Arm.wellShaped, Bool.and_eq_true, Bool.not_eq_true'] at hshape
    simp only [Arm.maxSize, Nat.max_le] at hwidth
    by_cases hv : v = selected
    · subst hv
      simp only [Arm.decodeMatching, beq_self_eq_true, if_true] at h ⊢
      simp only [bind_eq_ok, Window.ensure_eq_ok, pure_eq_ok, Prod.mk.injEq] at h
      obtain ⟨_, -, ⟨val', wa⟩, hnode, rfl, rfl⟩ := h
      -- an arm has a fixed size within the union's width
      have hwa := Node.decode_pos_of_fixed order frame n node w wa val' hshape.1.2 hshape.1.1 hnode
      refine Replays.bind (Replays.ensure hpos (by rw [hagree.pos_eq])) le_rfl fun hs => ?_
      exact Replays.bind (Node.decode_replays order frame n node w wa u val' hshape.1.2 hsmall hnode
        (hagree.mono (by omega)) hpos) (by omega) fun _ => Replays.ok hs
    · have hne : (v == selected) = false := by simpa using hv
      simp only [Arm.decodeMatching, hne, Bool.false_eq_true, if_false] at h ⊢
      exact Arm.decodeMatching_replays order frame name selected width rest w u armName val
        hshape.2 hsmall hwidth.2 h hagree hpos

theorem Layout.decodeIn_replays (frame : Frame) :
    ∀ (l : Layout) (w w' u : Window) (r : Record), l.wellShaped = true →
      w.data.size < u64Max → Layout.decodeIn frame l w = .ok (r, w') →
      w.Agrees u w'.pos → u.pos ≤ u.data.size →
      Replays u.data w'.pos (r, { w' with data := u.data }) (Layout.decodeIn frame l u)
  | .mk name order fields, w, w', u, r, hshape, hsmall, h, hagree, hpos => by
    obtain ⟨done, hdone, rfl⟩ := Layout.decodeIn_eq_ok.mp h
    rw [Layout.decodeIn]
    refine Replays.bind (Field.decodeAll_replays order frame.parents fields [] 0 w w' u done hshape
      hsmall hdone hagree hpos) le_rfl fun hs => ?_
    rw [hagree.address, hagree.pos_eq]
    exact Replays.ok hs

theorem Field.decodeAll_replays (order : ByteOrder) (parents : List (List (String × Value))) :
    ∀ (fields : List Field) (done : List (String × Value)) (checked : Nat) (w w' u : Window)
      (done' : List (String × Value)), Field.wellShaped fields = true →
      w.data.size < u64Max → Field.decodeAll order parents done checked fields w = .ok (done', w') →
      w.Agrees u w'.pos → u.pos ≤ u.data.size →
      Replays u.data w'.pos (done', { w' with data := u.data })
        (Field.decodeAll order parents done checked fields u)
  | [], done, checked, w, w', u, done', _, _, h, hagree, hpos => by
    simp only [Field.decodeAll_nil, Except.ok.injEq, Prod.mk.injEq] at h
    obtain ⟨rfl, rfl⟩ := h
    rw [Field.decodeAll_nil, ← hagree.eq_self]
    exact Replays.ok (hagree.pos_eq ▸ hpos)
  | .mk name node :: rest, done, checked, w, w', u, done', hshape, hsmall, h, hagree, hpos => by
    simp only [Field.wellShaped, Bool.and_eq_true] at hshape
    obtain ⟨-, v, w₁, hnode, hrest⟩ := Field.decodeAll_cons_eq_ok.mp h
    have hahead₁ := Node.decode_ahead order ⟨done, parents⟩ name node w w₁ v hnode
    have hle : w₁.pos ≤ w'.pos := by
      have := (Field.decodeAll_ahead order parents rest _ _ w₁ w' done' hrest).le_pos
      omega
    -- the field and the fields after it replay, with the count of checked fields the run left
    have hcont : Replays u.data w'.pos (done', { w' with data := u.data })
        (Node.decode order ⟨done, parents⟩ name node u >>= fun x =>
          Field.decodeAll order parents (done ++ [(name, x.1)])
            ((if checked = 0 then (Field.fixedRun (.mk name node :: rest)).2 else checked) - 1)
            rest x.2) :=
      Replays.bind (Node.decode_replays order ⟨done, parents⟩ name node w w₁ u v hshape.1 hsmall
        hnode (hagree.mono hle) hpos) hle fun hs =>
        Field.decodeAll_replays order parents rest _ _ w₁ w' _ done' hshape.2
          (hahead₁.data_eq ▸ hsmall) hrest (hagree.ahead hahead₁) hs
    by_cases hc : checked = 0
    · subst hc
      rw [Field.decodeAll.eq_2]
      simp only [beq_self_eq_true, if_true, pure_bind]
      -- the run's bounds check asks for no more than the fields take
      have hrun : u.pos + (Field.fixedRun (.mk name node :: rest)).1 ≤ w'.pos := by
        have h₁ := Field.fixedRun_le_sumSize (.mk name node :: rest)
        have h₂ := (Field.decodeAll_ahead order parents _ done 0 w w' done' h).le_pos
        rw [hagree.pos_eq]
        omega
      exact Replays.bind (Replays.ensure hpos rfl) hrun fun _ => by simpa using hcont
    · have hc' : (checked == 0) = false := by simpa using hc
      rw [Field.decodeAll.eq_2]
      simp only [hc', Bool.false_eq_true, if_false, pure_bind]
      simpa [hc] using hcont

end

/-! ## A decode reads exactly the bytes it consumes -/

/-- A decode of an accepted layout depends on exactly the bytes it consumes, for a buffer
shorter than the largest 64-bit size. Any buffer that holds the same bytes from the window's
position to where the decode stopped, whatever else it holds, decodes to the same value and
stops at the same place; the buffer cut anywhere inside those bytes fails with
`Error.bufferTooShort`, never with another error. -/
theorem Layout.decodeAt_reads_consumed {S : Layout} (hS : S.validate = .ok S) {w w' : Window}
    {v : Value} (hsmall : w.data.size < u64Max) (h : S.decodeAt w = .ok (v, w')) :
    (∀ d : ByteArray, w.pos ≤ d.size → (∀ i, w.pos ≤ i → i < w'.pos → d[i]? = w.data[i]?) →
      S.decodeAt { w with data := d } = .ok (v, { w' with data := d })) ∧
    (∀ L, w.pos ≤ L → L < w'.pos → ∃ address needed available,
      S.decodeAt { w with data := w.data.extract 0 L } =
        .error (.bufferTooShort address needed available)) := by
  have hshape := Layout.wellShaped_of_validate hS
  obtain ⟨r, hr, rfl⟩ := Layout.decodeAt_eq_ok.mp h
  have hahead := Layout.decodeIn_ahead {} S w w' r hr
  -- a decode that consumes bytes stops within the buffer
  have hend : w.pos < w'.pos → w'.pos ≤ w.data.size := by
    have := hahead.pos_le
    simp only [Window.remaining] at this
    omega
  -- the decode replayed on any buffer placed like `w`
  have hreplay : ∀ d : ByteArray, w.pos ≤ d.size → w.Agrees { w with data := d } w'.pos →
      Replays d w'.pos (Value.ofRecord r, { w' with data := d })
        (S.decodeAt { w with data := d }) := fun d hd hagree =>
    Replays.bind (Layout.decodeIn_replays {} S w w' _ r hshape hsmall hr hagree hd) le_rfl
      fun hs => Replays.ok hs
  refine ⟨fun d hd hbytes => ?_, fun L hL hLw => ?_⟩
  · refine (hreplay d hd ⟨rfl, rfl, fun i h₁ h₂ _ => hbytes i h₁ h₂⟩).1 ?_
    -- the last byte consumed is in `d`, as it is in `w.data`
    have hle := hahead.le_pos
    by_cases hn : w'.pos = w.pos
    · omega
    · have hlast : w'.pos - 1 < w.data.size := by
        have := hend (by omega)
        omega
      have hbyte := hbytes (w'.pos - 1) (by omega) (by omega)
      rw [getElem?_pos w.data _ hlast] at hbyte
      by_contra hlt
      rw [getElem?_neg d _ (by omega)] at hbyte
      cases hbyte
  · have hsize : (w.data.extract 0 L).size = L := by
      have := hend (by omega)
      simp only [ByteArray.size_extract]
      omega
    have hagree : w.Agrees { w with data := w.data.extract 0 L } w'.pos := by
      refine ⟨rfl, rfl, fun i _ _ hi => ?_⟩
      rw [hsize] at hi
      simp [ByteArray.getElem?_eq_toList, ByteArray.toList_eq_data_toList, ByteArray.data_extract,
        Array.toList_extract, List.extract_eq_take_drop, hi]
    obtain ⟨e, he, hshort⟩ := (hreplay _ (by rw [hsize]; exact hL) hagree).2 (by rw [hsize]; exact hLw)
    obtain ⟨address, needed, available, rfl⟩ := Error.eq_bufferTooShort hshort
    exact ⟨address, needed, available, he⟩

/-- The twelve bytes of a generic requirement are read exactly: any buffer that starts with
them decodes alike, and any shorter one fails for lack of bytes. -/
theorem genericRequirement_reads_consumed :
    (∀ d : ByteArray, (∀ i, i < 12 → d[i]? = (⟨#[0x81, 0, 0, 0, 16, 0, 0, 0, 8, 0, 0, 0]⟩ : ByteArray)[i]?) →
      (Catalog.genericRequirement .little).decodeAt ⟨d, 0, 0⟩ =
        .ok (Value.ofRecord ⟨"GenericRequirementDescriptor", 0, 12,
          [("flags", .flags 0x81 [⟨"has_key_argument", 0x80⟩, ⟨"has_extra_argument", 0x40⟩]),
           ("param", .pointer ⟨4, 16, .direct⟩ .symbolic),
           ("constraint", .union "same_type" 1 (.pointer ⟨8, 8, .direct⟩ .symbolic))]⟩,
          ⟨d, 0, 12⟩)) ∧
    (∀ L, L < 12 → ∃ address needed available,
      (Catalog.genericRequirement .little).decodeAt
          ⟨(⟨#[0x81, 0, 0, 0, 16, 0, 0, 0, 8, 0, 0, 0]⟩ : ByteArray).extract 0 L, 0, 0⟩ =
        .error (.bufferTooShort address needed available)) := by
  have hdecode := genericRequirement_encodes.decodeIn
    ⟨⟨#[0x81, 0, 0, 0, 16, 0, 0, 0, 8, 0, 0, 0]⟩, 0, 0⟩
    ⟨rfl, by rw [Window.rest_eq, ByteArray.toList_eq_data_toList]; exact ⟨[], rfl⟩, by decide⟩
  obtain ⟨hsame, hshort⟩ := Layout.decodeAt_reads_consumed
    (Layout.validate_eq_ok.mpr ⟨by decide, rfl⟩) (by decide) (Layout.decodeAt_eq_ok.mpr ⟨_, hdecode, rfl⟩)
  exact ⟨fun d hd => hsame d (Nat.zero_le _) fun i _ hi => hd i hi,
    fun L hL => hshort L (Nat.zero_le _) hL⟩

end SwiftReflection
