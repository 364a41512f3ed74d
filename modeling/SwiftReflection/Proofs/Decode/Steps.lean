import SwiftReflection.Proofs.Decode.Window
/-!
# What each decoding step can do

One lemma per kind of node says everything a successful decode of it consists of: the reads it
made, the values it looked up in its frame, the result and the window after it. The laws of
decoding are proved from these lemmas and never unfold `Node.decode` again. The repetition
helpers behind trailing blocks get the same treatment: `Window.repeatRead` is a chain of steps,
each from where the last stopped, and `Window.stridedRead` runs one step at each multiple of
the stride.
-/

namespace SwiftReflection

@[simp] theorem ok_bind {ε α β : Type} (a : α) (f : α → Except ε β) :
    (Except.ok a >>= f : Except ε β) = f a := rfl

@[simp] theorem error_bind {ε α β : Type} (e : ε) (f : α → Except ε β) :
    (Except.error e >>= f : Except ε β) = .error e := rfl

/-! ## Looking up selectors and sizes -/

theorem Frame.integer_eq_ok {f : Frame} {scope : Scope} {name : String} {offset n : Nat} :
    f.integer scope name offset = .ok n ↔ (f.lookup scope name).bind Value.selectorBits? = some n := by
  unfold Frame.integer
  split
  · rename_i m hm
    simp [hm]
  · rename_i hm
    simp [hm]

theorem Frame.integer_eq_error {f : Frame} {scope : Scope} {name : String} {offset : Nat}
    {e : Error} : f.integer scope name offset = .error e →
      (f.lookup scope name).bind Value.selectorBits? = none ∧ e = .unknownField name offset := by
  unfold Frame.integer
  split <;> simp_all [eq_comm]

/-! ## Narrowing a selector -/

theorem Selector.extract_eq_ok {sel : Selector} {raw d : Nat} :
    sel.extract raw = .ok d ↔ sel.shift < 64 ∧ d = sel.narrow raw := by
  unfold Selector.extract
  split
  · simp_all [eq_comm]
  · simp only [reduceCtorEq, false_iff, not_and]
    omega

theorem Selector.extract_of_lt {sel : Selector} (h : sel.shift < 64) (raw : Nat) :
    sel.extract raw = .ok (sel.narrow raw) :=
  Selector.extract_eq_ok.mpr ⟨h, rfl⟩

/-- Narrowing fails only by overflowing its shift. -/
theorem Selector.extract_eq_error {sel : Selector} {raw : Nat} {e : Error} :
    sel.extract raw = .error e ↔ 64 ≤ sel.shift ∧ e = .panic .shiftOverflow := by
  unfold Selector.extract
  split
  · simp only [reduceCtorEq, false_iff, not_and]
    omega
  · simp only [Except.error.injEq]
    constructor
    · intro h
      exact ⟨by omega, h.symm⟩
    · rintro ⟨-, rfl⟩
      rfl

/-! ## Repetition -/

theorem Window.repeatRead_succ {α : Type} (step : Window → Except Error (α × Window)) (n : Nat)
    (w : Window) : Window.repeatRead step (n + 1) w = (do
      let (a, w') ← step w
      let (as, w'') ← Window.repeatRead step n w'
      pure (a :: as, w'')) := rfl

theorem Window.repeatRead_succ_eq_ok {α : Type} {step : Window → Except Error (α × Window)}
    {n : Nat} {w w'' : Window} {as : List α} :
    Window.repeatRead step (n + 1) w = .ok (as, w'') ↔
      ∃ a w' rest, step w = .ok (a, w') ∧ Window.repeatRead step n w' = .ok (rest, w'') ∧
        as = a :: rest := by
  simp only [repeatRead_succ, bind_eq_ok, Prod.exists]
  constructor
  · rintro ⟨a, w', hstep, rest, w₂, hrest, hpure⟩
    simp only [pure_eq_ok, Prod.mk.injEq] at hpure
    obtain ⟨rfl, rfl⟩ := hpure
    exact ⟨a, w', rest, hstep, hrest, rfl⟩
  · rintro ⟨a, w', rest, hstep, hrest, rfl⟩
    exact ⟨a, w', hstep, rest, w'', hrest, rfl⟩

theorem mapM_eq_ok {ε α β : Type} {f : α → Except ε β} :
    ∀ {l : List α} {bs : List β}, l.mapM f = .ok bs ↔
      bs.length = l.length ∧ ∀ i (h : i < bs.length) (h' : i < l.length), f l[i] = .ok bs[i]
  | [], bs => by cases bs <;> simp [pure, Except.pure]
  | a :: l, bs => by
    simp only [List.mapM_cons, bind_eq_ok, pure_eq_ok]
    constructor
    · rintro ⟨b, hb, rest, hrest, rfl⟩
      obtain ⟨hlen, hall⟩ := mapM_eq_ok.mp hrest
      refine ⟨by simp [hlen], fun i hi => ?_⟩
      intro hi'
      cases i with
      | zero => exact hb
      | succ i => exact hall i (by simpa using hi) (by simpa using hi')
    · rintro ⟨hlen, hall⟩
      cases bs with
      | nil => simp at hlen
      | cons b rest =>
        refine ⟨b, hall 0 (by simp) (by simp), rest, mapM_eq_ok.mpr ⟨by simpa using hlen, ?_⟩, rfl⟩
        intro i hi hi'
        exact hall (i + 1) (by simpa using hi) (by simpa using hi')

/-- A strided read succeeds when each element, read at its multiple of the stride, does. -/
theorem Window.stridedRead_eq_ok {α : Type} {step : Window → Except Error (α × Window)}
    {stride count : Nat} {start : Window} {items : List α} :
    Window.stridedRead step stride start count = .ok items ↔
      items.length = count ∧ ∀ i (h : i < items.length), i * stride ≤ start.remaining ∧
        ∃ w', step { start with pos := start.pos + i * stride } = .ok (items[i], w') := by
  simp only [stridedRead, mapM_eq_ok, List.length_range, List.getElem_range]
  constructor
  · rintro ⟨hlen, h⟩
    refine ⟨hlen, fun i hi => ?_⟩
    have hi' := h i hi (by omega)
    simp only [bind_eq_ok, Window.advance_eq_ok, Prod.exists] at hi'
    obtain ⟨w₁, ⟨hle, rfl⟩, a, w', hstep, hpure⟩ := hi'
    simp only [pure_eq_ok] at hpure
    exact ⟨hle, w', hpure ▸ hstep⟩
  · rintro ⟨hlen, h⟩
    refine ⟨hlen, fun i hi _ => ?_⟩
    obtain ⟨hle, w', hstep⟩ := h i hi
    simp only [bind_eq_ok, Window.advance_eq_ok, Prod.exists]
    exact ⟨_, ⟨hle, rfl⟩, _, w', hstep, rfl⟩

/-- A strided read of one more element reads it at the start and the others from one stride
on. -/
theorem Window.stridedRead_succ {α : Type} {step : Window → Except Error (α × Window)}
    {stride count : Nat} {start : Window} {a : α} {as : List α} (hle : stride ≤ start.remaining)
    (ha : ∃ w', step start = .ok (a, w'))
    (has : Window.stridedRead step stride { start with pos := start.pos + stride } count = .ok as) :
    Window.stridedRead step stride start (count + 1) = .ok (a :: as) := by
  obtain ⟨hlen, hall⟩ := Window.stridedRead_eq_ok.mp has
  refine Window.stridedRead_eq_ok.mpr ⟨by simp [hlen], fun i hi => ?_⟩
  cases i with
  | zero => simpa using ha
  | succ i =>
    have hi' : i < as.length := by simpa using hi
    obtain ⟨hrem, w', hstep⟩ := hall i hi'
    -- element `i + 1` from the start is element `i` from one stride on
    have hpos : start.pos + stride + i * stride = start.pos + (i + 1) * stride := by
      rw [Nat.succ_mul]; omega
    simp only [Window.remaining] at hrem hle
    refine ⟨by simp only [Window.remaining]; rw [Nat.succ_mul]; omega, w', ?_⟩
    simpa [hpos] using hstep

/-! ## One lemma per kind of node -/

/-- Integers and flag sets are at most eight bytes wide, so their reads never assert. -/
theorem ScalarKind.width_le_eight (k : ScalarKind) : k.width ≤ 8 := by
  cases k <;> decide

namespace Node

variable {order : ByteOrder} {frame : Frame} {name : String} {w w' : Window} {v : Value}

theorem decode_scalar (k : ScalarKind) : Node.decode order frame name (.scalar k) w =
    if k.width ≤ w.remaining then
      .ok (if k.signed then .signed (signExtend k.width (order.readUInt (w.rest.take k.width)))
        else .unsigned (order.readUInt (w.rest.take k.width)), { w with pos := w.pos + k.width })
    else .error (.bufferTooShort w.address k.width w.remaining) := by
  simp only [Node.decode, Window.readUInt_eq_of_le k.width_le_eight]
  split
  · simp only [ok_bind]
    split <;> rfl
  · rfl

theorem decode_flags (k : ScalarKind) (bits : List FlagBit) :
    Node.decode order frame name (.flags k bits) w =
    if k.width ≤ w.remaining then
      .ok (.flags (order.readUInt (w.rest.take k.width)) bits, { w with pos := w.pos + k.width })
    else .error (.bufferTooShort w.address k.width w.remaining) := by
  simp only [Node.decode, Window.readUInt_eq_of_le k.width_le_eight]
  split <;> rfl

theorem decode_pointer (kind : PointerKind) (target : Target) :
    Node.decode order frame name (.pointer kind target) w =
    if 4 ≤ w.remaining then
      .ok (.pointer ⟨w.address, (order.readUInt (w.rest.take 4)).toUInt32, kind⟩ target,
        { w with pos := w.pos + 4 })
    else .error (.bufferTooShort w.address 4 w.remaining) := by
  simp only [Node.decode, Window.readWord_eq]
  split <;> rfl

theorem decode_nested_eq_ok {l : Layout} :
    Node.decode order frame name (.nested l) w = .ok (v, w') ↔
      ∃ r, Layout.decodeIn frame.enter l w = .ok (r, w') ∧ v = Value.ofRecord r := by
  simp only [Node.decode, bind_eq_ok, Prod.exists, pure_eq_ok, Prod.mk.injEq]
  constructor
  · rintro ⟨r, next, h, rfl, rfl⟩
    exact ⟨r, h, rfl⟩
  · rintro ⟨r, h, rfl⟩
    exact ⟨r, w', h, rfl, rfl⟩

/-- A union reads its selector, narrows it by a shift below 64 bits, decodes the first arm of
that value at its own start, and moves past its width, whichever arm it chose. -/
theorem decode_union_eq_ok {sel : Selector} {arms : List Arm} :
    Node.decode order frame name (.union sel arms) w = .ok (v, w') ↔
      ∃ raw armName val, frame.integer sel.scope sel.field w.address = .ok raw ∧
        sel.shift < 64 ∧
        Arm.decodeMatching order frame name (sel.narrow raw) (Arm.maxSize arms) arms w =
          .ok (armName, val) ∧ Arm.maxSize arms ≤ w.remaining ∧
        v = .union armName (sel.narrow raw) val ∧
        w' = { w with pos := w.pos + Arm.maxSize arms } := by
  simp only [Node.decode, bind_eq_ok, Prod.exists, pure_eq_ok, Prod.mk.injEq, Window.advance_eq_ok,
    Selector.extract_eq_ok]
  constructor
  · rintro ⟨raw, hraw, _, ⟨hshift, rfl⟩, armName, val, harm, next, ⟨hle, rfl⟩, rfl, rfl⟩
    exact ⟨raw, armName, val, hraw, hshift, harm, hle, rfl, rfl⟩
  · rintro ⟨raw, armName, val, hraw, hshift, harm, hle, rfl, rfl⟩
    exact ⟨raw, hraw, _, ⟨hshift, rfl⟩, armName, val, harm, _, ⟨hle, rfl⟩, rfl, rfl⟩

/-- A packed trailing block checks `count * size` bytes up front and then reads its elements one
after the other. -/
theorem decode_packed_eq_ok {count : String} {element : Layout} :
    Node.decode order frame name (.trailing count none element) w = .ok (v, w') ↔
      ∃ n items, frame.integer .current count w.address = .ok n ∧
        saturate64 (n * element.fixedSize) ≤ w.remaining ∧
        Window.repeatRead (Layout.decodeIn frame.enter element) n w = .ok (items, w') ∧
        v = .repeated (items.map Value.ofRecord) := by
  rw [Node.decode.eq_6]
  simp only [pure_bind, Option.getD_none, bind_eq_ok, Window.ensure_eq_ok, exists_const,
    Prod.exists, pure_eq_ok, Prod.mk.injEq]
  constructor
  · rintro ⟨n, hn, hle, items, next, hitems, rfl, rfl⟩
    exact ⟨n, items, hn, hle, hitems, rfl⟩
  · rintro ⟨n, items, hn, hle, hitems, rfl⟩
    exact ⟨n, hn, hle, items, w', hitems, rfl, rfl⟩

/-- A strided trailing block checks its stride and `count * stride` bytes, reads element `i` at
`i * stride`, and moves past `count * stride` bytes. -/
theorem decode_strided_eq_ok {count s : String} {element : Layout} :
    Node.decode order frame name (.trailing count (some s) element) w = .ok (v, w') ↔
      ∃ n sv items, frame.integer .current count w.address = .ok n ∧
        frame.integer .current s w.address = .ok sv ∧ (0 < n → element.fixedSize ≤ sv) ∧
        saturate64 (n * sv) ≤ w.remaining ∧
        Window.stridedRead (Layout.decodeIn frame.enter element) sv w n = .ok items ∧
        v = .repeated (items.map Value.ofRecord) ∧
        w' = { w with pos := w.pos + saturate64 (n * sv) } := by
  rw [Node.decode.eq_6]
  simp only [pure_bind, Option.getD_some, bind_eq_ok]
  constructor
  · rintro ⟨n, hn, sv, hsv, h⟩
    split at h
    · simp [throw, throwThe, MonadExceptOf.throw] at h
    · rename_i hchk
      simp only [bind_eq_ok, Window.ensure_eq_ok, Window.advance_eq_ok, pure_eq_ok,
        Prod.mk.injEq] at h
      obtain ⟨_, hle, items, hitems, next, ⟨_, rfl⟩, rfl, rfl⟩ := h
      refine ⟨n, sv, items, hn, hsv, fun hn0 => ?_, hle, hitems, rfl, rfl⟩
      simp only [Bool.and_eq_true, decide_eq_true_eq, not_and, Nat.not_lt] at hchk
      exact hchk hn0
  · rintro ⟨n, sv, items, hn, hsv, hchk, hle, hitems, rfl, rfl⟩
    refine ⟨n, hn, sv, hsv, ?_⟩
    have hchk' : ¬((decide (0 < n) && decide (sv < element.fixedSize)) = true) := by
      simp only [Bool.and_eq_true, decide_eq_true_eq, not_and, Nat.not_lt]
      exact hchk
    rw [if_neg hchk']
    simp only [bind_eq_ok, Window.ensure_eq_ok, Window.advance_eq_ok, pure_eq_ok]
    exact ⟨(), hle, items, hitems, _, ⟨hle, rfl⟩, rfl⟩

end Node

/-- The arm a union decodes is the first with the selected value, read after the union's width
is checked. -/
theorem Arm.decodeMatching_eq_ok {order : ByteOrder} {frame : Frame} {name : String}
    {selected width : Nat} {w : Window} {armName : String} {val : Value} :
    ∀ {arms : List Arm}, Arm.decodeMatching order frame name selected width arms w =
      .ok (armName, val) ↔ ∃ node, arms.find? (fun a => a.value == selected) =
        some (.mk selected armName node) ∧ width ≤ w.remaining ∧
        ∃ w', Node.decode order frame armName node w = .ok (val, w')
  | [] => by simp [Arm.decodeMatching]
  | .mk v n node :: rest => by
    by_cases hv : v = selected
    · subst hv
      simp only [Arm.decodeMatching, beq_self_eq_true, if_true, bind_eq_ok, Window.ensure_eq_ok,
        Prod.exists, pure_eq_ok, Prod.mk.injEq, List.find?_cons, Arm.value, Arm.mk.injEq,
        Option.some.injEq, true_and]
      constructor
      · rintro ⟨_, hle, v', w', h, rfl, rfl⟩
        exact ⟨node, ⟨rfl, rfl⟩, hle, w', h⟩
      · rintro ⟨node', ⟨rfl, rfl⟩, hle, w', h⟩
        exact ⟨(), hle, val, w', h, rfl, rfl⟩
    · have hne : (v == selected) = false := by simpa using hv
      simp only [Arm.decodeMatching, hne, Bool.false_eq_true, if_false, List.find?_cons,
        Arm.value]
      exact Arm.decodeMatching_eq_ok

/-- A record is its fields decoded from an empty frame of its own, with the window's address
and the bytes the fields took. -/
theorem Layout.decodeIn_eq_ok {frame : Frame} {name : String} {order : ByteOrder}
    {fields : List Field} {w w' : Window} {r : Record} :
    Layout.decodeIn frame (.mk name order fields) w = .ok (r, w') ↔
      ∃ done, Field.decodeAll order frame.parents [] 0 fields w = .ok (done, w') ∧
        r = ⟨name, w.address, w'.pos - w.pos, done⟩ := by
  simp only [Layout.decodeIn, bind_eq_ok, Prod.exists, pure_eq_ok, Prod.mk.injEq]
  constructor
  · rintro ⟨done, next, h, rfl, rfl⟩
    exact ⟨done, h, rfl⟩
  · rintro ⟨done, h, rfl⟩
    exact ⟨done, w', h, rfl, rfl⟩

@[simp] theorem Field.decodeAll_nil {order : ByteOrder} {parents : List (List (String × Value))}
    {done : List (String × Value)} {checked : Nat} {w : Window} :
    Field.decodeAll order parents done checked [] w = .ok (done, w) := rfl

/-- A field is decoded in the frame of the fields before it, after its run's bounds check when
it starts a run. -/
theorem Field.decodeAll_cons_eq_ok {order : ByteOrder} {parents : List (List (String × Value))}
    {done done' : List (String × Value)} {checked : Nat} {name : String} {node : Node}
    {rest : List Field} {w w' : Window} :
    Field.decodeAll order parents done checked (.mk name node :: rest) w = .ok (done', w') ↔
      (checked = 0 → (Field.fixedRun (.mk name node :: rest)).1 ≤ w.remaining) ∧
      ∃ v w₁, Node.decode order ⟨done, parents⟩ name node w = .ok (v, w₁) ∧
        Field.decodeAll order parents (done ++ [(name, v)])
          ((if checked = 0 then (Field.fixedRun (.mk name node :: rest)).2 else checked) - 1)
          rest w₁ = .ok (done', w') := by
  by_cases hc : checked = 0
  · subst hc
    simp only [Field.decodeAll, beq_self_eq_true, if_true, bind_eq_ok, Window.ensure_eq_ok,
      pure_bind, Prod.exists, forall_const, exists_const]
  · have hc' : (checked == 0) = false := by simpa using hc
    simp only [Field.decodeAll, hc', Bool.false_eq_true, if_false, hc, pure_bind, bind_eq_ok,
      Prod.exists, false_implies, true_and]

/-- A record decoded at a window is handed back as a value. -/
theorem Layout.decodeAt_eq_ok {l : Layout} {w w' : Window} {v : Value} :
    l.decodeAt w = .ok (v, w') ↔ ∃ r, l.decodeRecord w = .ok (r, w') ∧ v = Value.ofRecord r := by
  simp only [Layout.decodeAt, bind_eq_ok, Prod.exists, pure_eq_ok, Prod.mk.injEq]
  constructor
  · rintro ⟨r, w₁, hr, rfl, rfl⟩
    exact ⟨r, hr, rfl⟩
  · rintro ⟨r, hr, rfl⟩
    exact ⟨r, w', hr, rfl, rfl⟩

end SwiftReflection
