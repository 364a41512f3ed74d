import Mathlib
import SwiftReflection.Proofs.Decode.Locality
import SwiftReflection.Proofs.Decode.Selectors
/-!
# An unmatched selector is reported before the payload is read

A union looks up its selector and searches its arms before it checks that its width remains, so
a selector value with no arm is reported as `Error.discriminantUnsupported` without a look at
the union's bytes. Whether the whole failure depends only on the bytes before the union depends
on the checks made before it. The runs of fields before a union end at the union, so when the
union is reached through embedded records only (`Layout.ReachesUnmatched`), no check looks past
it. A union inside a union arm or a trailing element comes after its enclosing union's width
check or its block's bounds check, which do look past it.

`Window.FailsAgain` says what a failure gives on another buffer: it is about the byte at `site`,
every check made before it asks for no byte past `reach`, and it comes back on any window placed
alike that agrees before `site` and holds `reach` bytes. `Layout.decodeAt_unmatched_before_payload`
puts the two cases together: a buffer that agrees before the union's position and is at least as
long fails alike, and when the union is reached through embedded records only, so does one that
ends at the union. The union's position `p` is what its address reports, `min (origin + p)
u64Max`: an address saturates at `u64Max`, and then it no longer gives the position
(`saturatedUnion_short_buffer`).
-/

namespace SwiftReflection

/-- A failure reporting a selector value that matches no arm. -/
def Error.isUnsupported : Error → Bool
  | .discriminantUnsupported .. => true
  | _ => false

theorem Error.isUnsupported_of_isShort {e : Error} (h : e.isShort = true) :
    e.isUnsupported = false := by
  cases e <;> simp_all [Error.isShort, Error.isUnsupported]

/-- The leading run of a field list: nothing when the first field selects a union arm, else the
first field's fixed size and the run of the rest. -/
theorem Field.fixedRun_cons (name : String) (node : Node) (rest : List Field) :
    Field.fixedRun (.mk name node :: rest) = if node.hasUnion then (0, 0)
      else (node.fixedSize + (Field.fixedRun rest).1, (Field.fixedRun rest).2 + 1) := by
  -- the run's sum is a fold from `0`; shift its start
  have hshift : ∀ (c : Nat) (fs : List Field),
      fs.foldl (fun s f => s + f.node.fixedSize) c = c + fs.foldl (fun s f => s + f.node.fixedSize) 0 := by
    intro c fs
    induction fs generalizing c with
    | nil => simp
    | cons f fs ih => simp only [List.foldl_cons, Nat.zero_add, ih (c + _), ih f.node.fixedSize]; omega
  have hnode : (Field.mk name node).node = node := rfl
  by_cases hu : node.hasUnion
  · simp [Field.fixedRun, hnode, hu]
  · simp only [Field.fixedRun, List.takeWhile_cons, hnode, hu, Bool.not_false, if_true,
      List.foldl_cons, List.length_cons, Bool.false_eq_true, if_false]
    rw [hshift, Nat.zero_add]

/-! ## Reaching a union through embedded records only -/

mutual

/-- Decoding the node reaches, through embedded records only, a union whose selector value
matches none of its arms. -/
inductive Node.ReachesUnmatched : ByteOrder → Frame → String → Node → Window → Prop
  /-- The node is such a union. -/
  | union {order : ByteOrder} {frame : Frame} {name : String} {sel : Selector} {arms : List Arm}
      {w : Window} {raw : Nat} :
      frame.integer sel.scope sel.field w.address = .ok raw →
      arms.find? (fun a => a.value == sel.narrow raw) = none →
      Node.ReachesUnmatched order frame name (.union sel arms) w
  /-- The node is an embedded record whose decoding reaches one. -/
  | nested {order : ByteOrder} {frame : Frame} {name : String} {l : Layout} {w : Window} :
      Layout.ReachesUnmatched frame.enter l w → Node.ReachesUnmatched order frame name (.nested l) w

/-- Decoding a record of the layout reaches such a union through its fields. -/
inductive Layout.ReachesUnmatched : Frame → Layout → Window → Prop
  | mk {frame : Frame} {name : String} {order : ByteOrder} {fields : List Field} {w : Window} :
      Field.ReachesUnmatched order frame.parents [] fields w →
      Layout.ReachesUnmatched frame (.mk name order fields) w

/-- Decoding the fields one after the other reaches such a union: in the first field, or in a
later one after the first decodes. -/
inductive Field.ReachesUnmatched :
    ByteOrder → List (List (String × Value)) → List (String × Value) → List Field → Window → Prop
  | here {order : ByteOrder} {parents : List (List (String × Value))}
      {done : List (String × Value)} {name : String} {node : Node} {rest : List Field}
      {w : Window} :
      Node.ReachesUnmatched order ⟨done, parents⟩ name node w →
      Field.ReachesUnmatched order parents done (.mk name node :: rest) w
  | later {order : ByteOrder} {parents : List (List (String × Value))}
      {done : List (String × Value)} {name : String} {node : Node} {rest : List Field}
      {w w' : Window} {v : Value} :
      Node.decode order ⟨done, parents⟩ name node w = .ok (v, w') →
      Field.ReachesUnmatched order parents (done ++ [(name, v)]) rest w' →
      Field.ReachesUnmatched order parents done (.mk name node :: rest) w

end

mutual

/-- A node that reaches an unmatched union selects a union arm itself or in an embedded record,
so it ends any run of fields before it. -/
theorem Node.ReachesUnmatched.hasUnion {order : ByteOrder} {frame : Frame} {name : String}
    {node : Node} {w : Window} : Node.ReachesUnmatched order frame name node w →
      node.hasUnion = true
  | .union _ _ => rfl
  | .nested h => h.anyUnion

theorem Layout.ReachesUnmatched.anyUnion {frame : Frame} {l : Layout} {w : Window} :
    Layout.ReachesUnmatched frame l w → (Node.nested l).hasUnion = true
  | .mk h => by simpa [Node.hasUnion] using h.anyUnion

theorem Field.ReachesUnmatched.anyUnion {order : ByteOrder}
    {parents : List (List (String × Value))} {done : List (String × Value)} {fields : List Field}
    {w : Window} : Field.ReachesUnmatched order parents done fields w → Field.anyUnion fields = true
  | .here h => by simp [Field.anyUnion, h.hasUnion]
  | .later _ h => by simp [Field.anyUnion, h.anyUnion]

end

/-- With no arm of the selected value, the arm search fails at the union's address. -/
theorem Arm.decodeMatching_of_find?_none {order : ByteOrder} {frame : Frame} {name : String}
    {selected width : Nat} {w : Window} :
    ∀ {arms : List Arm}, arms.find? (fun a => a.value == selected) = none →
      Arm.decodeMatching order frame name selected width arms w =
        .error (.discriminantUnsupported name selected w.address)
  | [], _ => rfl
  | .mk v n node :: rest, h => by
    have hv : (v == selected) = false := by
      simpa [List.find?_cons, Arm.value] using (List.find?_eq_none.mp h) (.mk v n node) (by simp)
    simp only [List.find?_cons, Arm.value, hv] at h
    simp only [Arm.decodeMatching, hv, Bool.false_eq_true, if_false]
    exact Arm.decodeMatching_of_find?_none h

mutual

/-- A node that reaches an unmatched union fails to decode. -/
theorem Node.ReachesUnmatched.not_ok {order : ByteOrder} {frame : Frame} {name : String}
    {node : Node} {w : Window} : Node.ReachesUnmatched order frame name node w →
      ∀ {v : Value} {w' : Window}, Node.decode order frame name node w ≠ .ok (v, w')
  | .union hraw hfind, v, w', h => by
    obtain ⟨raw', armName, val, hraw', -, harm, -⟩ := Node.decode_union_eq_ok.mp h
    rw [hraw] at hraw'
    cases hraw'
    rw [Arm.decodeMatching_of_find?_none hfind] at harm
    cases harm
  | .nested hl, v, w', h => by
    obtain ⟨r, hr, -⟩ := Node.decode_nested_eq_ok.mp h
    exact hl.not_ok hr

theorem Layout.ReachesUnmatched.not_ok {frame : Frame} {l : Layout} {w : Window} :
    Layout.ReachesUnmatched frame l w → ∀ {r : Record} {w' : Window},
      Layout.decodeIn frame l w ≠ .ok (r, w')
  | .mk hf, r, w', h => by
    obtain ⟨done, hdone, -⟩ := Layout.decodeIn_eq_ok.mp h
    exact hf.not_ok hdone

theorem Field.ReachesUnmatched.not_ok {order : ByteOrder}
    {parents : List (List (String × Value))} {done : List (String × Value)} {fields : List Field}
    {w : Window} : Field.ReachesUnmatched order parents done fields w →
      ∀ {checked : Nat} {done' : List (String × Value)} {w' : Window},
        Field.decodeAll order parents done checked fields w ≠ .ok (done', w')
  | .here hn, checked, done', w', h => by
    obtain ⟨-, v, w₁, hnode, -⟩ := Field.decodeAll_cons_eq_ok.mp h
    exact hn.not_ok hnode
  | .later hok hrest, checked, done', w', h => by
    obtain ⟨-, v, w₁, hnode, hall⟩ := Field.decodeAll_cons_eq_ok.mp h
    rw [hok] at hnode
    cases hnode
    exact hrest.not_ok hall

end

/-! ## Failing steps and loops -/

/-- A monadic map fails with the error of its first failing element. -/
theorem mapM_eq_error_iff {ε α β : Type} {f : α → Except ε β} :
    ∀ {l : List α} {e : ε}, l.mapM f = .error e ↔
      ∃ i, ∃ h : i < l.length, (∀ x ∈ l.take i, ∃ b, f x = .ok b) ∧ f l[i] = .error e
  | [], e => by simp [pure, Except.pure]
  | a :: l, e => by
    rw [List.mapM_cons]
    constructor
    · intro h
      rcases bind_eq_error.mp h with ha | ⟨b, hb, h⟩
      · exact ⟨0, by simp, by simp, ha⟩
      · rcases bind_eq_error.mp h with hl | ⟨_, -, hpure⟩
        · obtain ⟨i, hi, hpre, hfail⟩ := mapM_eq_error_iff.mp hl
          refine ⟨i + 1, by simp [hi], ?_, by simpa using hfail⟩
          intro x hx
          rcases List.mem_cons.mp (by simpa using hx) with rfl | hx
          · exact ⟨b, hb⟩
          · exact hpre x hx
        · exact absurd hpure pure_ne_error
    · rintro ⟨i, hi, hpre, hfail⟩
      cases i with
      | zero => simp only [List.getElem_cons_zero] at hfail; rw [hfail, error_bind]
      | succ i =>
        obtain ⟨b, hb⟩ := hpre a (by simp)
        have hl : l.mapM f = .error e := mapM_eq_error_iff.mpr
          ⟨i, by simpa using hi, fun x hx => hpre x (by simp [hx]), by simpa using hfail⟩
        rw [hb, ok_bind, hl, error_bind]

/-- A repetition that fails does so at some step, after the steps before it succeed. -/
theorem Window.repeatRead_eq_error_split {α : Type} {step : Window → Except Error (α × Window)} :
    ∀ {n : Nat} {w : Window} {e : Error}, Window.repeatRead step n w = .error e →
      ∃ k as w', k < n ∧ Window.repeatRead step k w = .ok (as, w') ∧ step w' = .error e
  | 0, w, e, h => by simp [Window.repeatRead] at h
  | n + 1, w, e, h => by
    rw [Window.repeatRead_succ] at h
    rcases bind_eq_error.mp h with hw | ⟨⟨a, w₁⟩, hw₁, hrest⟩
    · exact ⟨0, [], w, by omega, rfl, hw⟩
    · rcases bind_eq_error.mp hrest with hn | ⟨_, -, hpure⟩
      · obtain ⟨k, as, w', hk, hpre, hstep⟩ := Window.repeatRead_eq_error_split hn
        exact ⟨k + 1, a :: as, w', by omega,
          Window.repeatRead_succ_eq_ok.mpr ⟨a, w₁, as, hw₁, hpre, rfl⟩, hstep⟩
      · exact absurd hpure pure_ne_error

/-- A repetition whose step fails after `k` successful steps fails, if it has more than `k`. -/
theorem Window.repeatRead_eq_error_of_prefix {α : Type} {step : Window → Except Error (α × Window)}
    {e : Error} : ∀ {k n : Nat} {w w' : Window} {as : List α}, k < n →
      Window.repeatRead step k w = .ok (as, w') → step w' = .error e →
      Window.repeatRead step n w = .error e
  | _, 0, _, _, _, hk, _, _ => absurd hk (Nat.not_lt_zero _)
  | 0, n + 1, w, w', as, _, hpre, hstep => by
    simp only [Window.repeatRead, Except.ok.injEq, Prod.mk.injEq] at hpre
    obtain ⟨-, rfl⟩ := hpre
    rw [Window.repeatRead_succ, hstep, error_bind]
  | k + 1, n + 1, w, w', as, hk, hpre, hstep => by
    obtain ⟨a, w₁, rest, h₁, hrest, -⟩ := Window.repeatRead_succ_eq_ok.mp hpre
    simp only [Window.repeatRead_succ, h₁, ok_bind]
    rw [Window.repeatRead_eq_error_of_prefix (by omega) hrest hstep, error_bind]

/-- The fields of a record are decoded one by one, each after the bounds check of the run it
starts, if it starts one; a check of nothing stands for no check. -/
theorem Field.decodeAll_cons (order : ByteOrder) (parents : List (List (String × Value)))
    (done : List (String × Value)) (checked : Nat) (name : String) (node : Node)
    (rest : List Field) (w : Window) :
    Field.decodeAll order parents done checked (.mk name node :: rest) w =
      w.ensure (if checked = 0 then (Field.fixedRun (.mk name node :: rest)).1 else 0) >>= fun _ =>
        Node.decode order ⟨done, parents⟩ name node w >>= fun r =>
          Field.decodeAll order parents (done ++ [(name, r.1)])
            ((if checked = 0 then (Field.fixedRun (.mk name node :: rest)).2 else checked) - 1)
            rest r.2 := by
  by_cases hc : checked = 0
  · subst hc
    simp only [Field.decodeAll, beq_self_eq_true, if_true, pure_bind]
  · have hc' : (checked == 0) = false := by simpa using hc
    have hens : w.ensure 0 = .ok () := by simp [Window.ensure_eq]
    simp only [Field.decodeAll, hc', hc, Bool.false_eq_true, if_false, pure_bind, hens, ok_bind]

/-! ## A failure replayed on another buffer -/

/-- The read `run` fails with `e` at `w`. The failure is about position `site`, whose address it
reports; the bounds checks made before it ask for no byte past `reach`; and on any window placed
like `w` that agrees with it before `site` and holds `reach` bytes, `run` fails alike. -/
structure Window.FailsAgain {β : Type} (w : Window) (run : Window → Except Error β) (e : Error)
    (site reach : Nat) : Prop where
  offset_eq : e.offset? = some (min (w.origin + site) u64Max)
  le_site : w.pos ≤ site
  site_le : site ≤ reach
  reach_le : reach ≤ w.data.size
  again : ∀ u : Window, w.Agrees u site → u.pos ≤ u.data.size → reach ≤ u.data.size →
    run u = .error e

namespace Window.FailsAgain

variable {β γ : Type} {w : Window} {run : Window → Except Error β} {e : Error} {site reach : Nat}

/-- A read that fails wherever `run` fails, on the windows `run` fails again on, fails again. -/
theorem lift (h : w.FailsAgain run e site reach) {run' : Window → Except Error γ}
    (hrun : ∀ u : Window, w.Agrees u site → u.pos ≤ u.data.size → reach ≤ u.data.size →
      run u = .error e → run' u = .error e) : w.FailsAgain run' e site reach :=
  ⟨h.offset_eq, h.le_site, h.site_le, h.reach_le,
    fun u hagree hpos hreach => hrun u hagree hpos hreach (h.again u hagree hpos hreach)⟩

/-- A failure also fails again on the windows that hold more bytes. -/
theorem widen (h : w.FailsAgain run e site reach) {reach' : Nat} (hle : reach ≤ reach')
    (hsize : reach' ≤ w.data.size) : w.FailsAgain run e site reach' :=
  ⟨h.offset_eq, h.le_site, h.site_le.trans hle, hsize,
    fun u hagree hpos hreach => h.again u hagree hpos (hle.trans hreach)⟩

/-- A failure at a window that a successful step reached from `w`, seen from `w`. -/
theorem back {w₁ : Window} (h : w₁.FailsAgain run e site reach) (ha : Window.Ahead w w₁ 0)
    {run' : Window → Except Error γ}
    (hrun : ∀ u : Window, w.Agrees u site → u.pos ≤ u.data.size → reach ≤ u.data.size →
      run { w₁ with data := u.data } = .error e → run' u = .error e) :
    w.FailsAgain run' e site reach := by
  have hpos := ha.le_pos
  have hsite := h.le_site
  refine ⟨by rw [h.offset_eq, ha.origin_eq], by omega, h.site_le, ha.data_eq ▸ h.reach_le,
    fun u hagree hupos hreach => hrun u hagree hupos hreach (h.again _ (hagree.ahead ha) ?_ hreach)⟩
  have := h.site_le
  simp only
  omega

end Window.FailsAgain

/-! ## Every failure on an unmatched selector fails again -/

/-- A strided block fails with the failure of element `i`, when its slot lies in the buffer and
the elements before it decode. -/
theorem Window.stridedRead_eq_error_of_slot {α : Type} {step : Window → Except Error (α × Window)}
    {stride count i : Nat} {start : Window} {e : Error} (hi : i < count)
    (hslot : i * stride ≤ start.remaining)
    (hpre : ∀ j < i, ∃ b, step { start with pos := start.pos + j * stride } = .ok b)
    (hfail : step { start with pos := start.pos + i * stride } = .error e) :
    Window.stridedRead step stride start count = .error e := by
  refine mapM_eq_error_iff.mpr ⟨i, by simpa using hi, fun j hj => ?_, ?_⟩
  · simp only [List.take_range, List.mem_range, lt_min_iff] at hj
    -- the slots before `i` come earlier, so they lie in the buffer too
    have hjslot : j * stride ≤ start.remaining := (Nat.mul_le_mul_right stride hj.1.le).trans hslot
    obtain ⟨⟨a, _⟩, hb⟩ := hpre j hj.1
    refine ⟨a, ?_⟩
    rw [Window.advance_eq, if_pos hjslot, ok_bind, hb, ok_bind]
    rfl
  · simp only [List.getElem_range]
    rw [Window.advance_eq, if_pos hslot, ok_bind, hfail, error_bind]

/-- Element `i` of a strided block lies at `i * stride` from the block's start; the elements
before it end before it starts when each takes `size ≤ stride` bytes. -/
theorem strided_slot_le {i j stride size : Nat} (hj : j < i) (hsize : size ≤ stride) :
    j * stride + size ≤ i * stride := by
  have := Nat.mul_le_mul_right stride (Nat.succ_le_of_lt hj)
  rw [Nat.succ_mul] at this
  omega

mutual

/-- A node that fails on an unmatched selector fails again on every buffer that agrees before
the failing union and holds the bytes its checks asked for; when the union is reached through
embedded records only, no check asked for a byte past it. -/
theorem Node.decode_unmatched (order : ByteOrder) (frame : Frame) (name : String) :
    ∀ (node : Node) (w : Window) (e : Error), node.wellShaped = true → w.data.size < u64Max →
      w.pos ≤ w.data.size → Node.decode order frame name node w = .error e →
      e.isUnsupported = true → ∃ site reach,
        w.FailsAgain (Node.decode order frame name node) e site reach ∧
        (Node.ReachesUnmatched order frame name node w → reach ≤ site)
  | .scalar k, w, e, _, _, _, h, hu => by
    rw [Node.decode_scalar] at h
    split at h
    · cases h
    · cases h
      cases hu
  | .flags k bits, w, e, _, _, _, h, hu => by
    rw [Node.decode_flags] at h
    split at h
    · cases h
    · cases h
      cases hu
  | .pointer kind target, w, e, _, _, _, h, hu => by
    rw [Node.decode_pointer] at h
    split at h
    · cases h
    · cases h
      cases hu
  | .nested l, w, e, hshape, hsmall, hpos, h, hu => by
    simp only [Node.wellShaped, Bool.and_eq_true] at hshape
    rw [Node.decode.eq_3] at h
    rcases bind_eq_error.mp h with hl | ⟨_, -, hpure⟩
    swap
    · exact absurd hpure pure_ne_error
    obtain ⟨site, reach, hf, htop⟩ :=
      Layout.decodeIn_unmatched frame.enter l w e hshape.2 hsmall hpos hl hu
    refine ⟨site, reach, hf.lift fun u _ _ _ hu' => ?_, fun htop' => ?_⟩
    · rw [Node.decode.eq_3, hu', error_bind]
    · cases htop' with
      | nested hl' => exact htop hl'
  | .union sel arms, w, e, hshape, hsmall, hpos, h, hu => by
    rw [Node.decode.eq_5] at h
    rcases bind_eq_error.mp h with hint | ⟨raw, hraw, h⟩
    · obtain ⟨-, rfl⟩ := Frame.integer_eq_error hint
      cases hu
    rcases bind_eq_error.mp h with hsel | ⟨_, hsel, h⟩
    · obtain ⟨-, rfl⟩ := Selector.extract_eq_error.mp hsel
      cases hu
    obtain ⟨hshift, rfl⟩ := Selector.extract_eq_ok.mp hsel
    rcases bind_eq_error.mp h with harm | ⟨_, -, h⟩
    · -- the arm search failed: on its own, or in the arm it chose
      obtain ⟨site, reach, hf, htop⟩ := Arm.decodeMatching_unmatched order frame name
        (sel.narrow raw) (Arm.maxSize arms) arms w e hshape hsmall hpos harm hu
      refine ⟨site, reach, hf.lift fun u hagree _ _ hu' => ?_, fun htop' => ?_⟩
      · rw [Node.decode.eq_5, hagree.address, hraw, ok_bind, Selector.extract_of_lt hshift, ok_bind]
        simp only [hu', error_bind]
      · cases htop' with
        | union hraw' hfind =>
          rw [hraw] at hraw'
          cases hraw'
          exact htop hfind
    · rcases bind_eq_error.mp h with hadv | ⟨_, -, hpure⟩
      · exact absurd hu (by simp [Error.isUnsupported_of_isShort (Window.advance_eq_error hadv)])
      · exact absurd hpure pure_ne_error
  | .trailing count none element, w, e, hshape, hsmall, hpos, h, hu => by
    simp only [Node.wellShaped, Bool.and_eq_true] at hshape
    rw [Node.decode.eq_6] at h
    rcases bind_eq_error.mp h with hc | ⟨n, hn, h⟩
    · obtain ⟨-, rfl⟩ := Frame.integer_eq_error hc
      cases hu
    simp only [pure_bind, Option.getD_none] at h
    rcases bind_eq_error.mp h with hens | ⟨_, hens, h⟩
    · exact absurd hu (by simp [Error.isUnsupported_of_isShort (Window.ensure_eq_error hens)])
    rcases bind_eq_error.mp h with hrep | ⟨_, -, hpure⟩
    swap
    · exact absurd hpure pure_ne_error
    -- the elements before the failing one decode, and it fails on its own
    obtain ⟨k, items, wk, hk, hpre, hel⟩ := Window.repeatRead_eq_error_split hrep
    have hahead : ∀ w a w', Layout.decodeIn frame.enter element w = .ok (a, w') →
        Window.Ahead w w' 0 := fun w a w' h =>
      (Layout.decodeIn_ahead frame.enter element w w' a h).mono (Nat.zero_le _)
    have hak : Window.Ahead w wk 0 := by
      simpa using Window.repeatRead_ahead hahead k w wk items hpre
    have hmin := Window.ensure_eq_ok.mp hens
    obtain ⟨site, reach, hf, -⟩ := Layout.decodeIn_unmatched frame.enter element wk e hshape.2
      (hak.data_eq ▸ hsmall) (by have := hak.pos_le; simp only [Window.remaining, hak.data_eq] at this ⊢; omega)
      hel hu
    -- the block's bounds check is part of what the failure needs
    have hend : w.pos + saturate64 (n * element.fixedSize) ≤ w.data.size := by
      simp only [Window.remaining] at hmin
      omega
    refine ⟨site, max reach (w.pos + saturate64 (n * element.fixedSize)),
      (hf.widen (le_max_left _ _) (max_le hf.reach_le (by rw [hak.data_eq]; exact hend))).back hak
        fun u hagree hupos hreach hel' => ?_, fun htop' => by cases htop'⟩
    have hsite := hf.le_site
    have hreach' := (le_max_left _ _).trans hreach
    have hcheck := (le_max_right _ _).trans hreach
    have hreplay := (Window.repeatRead_replays hahead (fun w w' u a hsmall h hagree hpos =>
        Layout.decodeIn_replays frame.enter element w w' u a hshape.2 hsmall h hagree hpos)
      k w wk u items hsmall hpre (hagree.mono hsite) hupos).1 (by have := hf.site_le; omega)
    rw [Node.decode.eq_6, hagree.address, hn, ok_bind]
    simp only [pure_bind, Option.getD_none]
    rw [Window.ensure_eq, if_pos (by simp only [Window.remaining, hagree.pos_eq]; omega), ok_bind,
      Window.repeatRead_eq_error_of_prefix hk hreplay hel', error_bind]
  | .trailing count (some s) element, w, e, hshape, hsmall, hpos, h, hu => by
    simp only [Node.wellShaped, Bool.and_eq_true, Option.isNone_some, Bool.false_or,
      Bool.not_eq_true'] at hshape
    rw [Node.decode.eq_6] at h
    rcases bind_eq_error.mp h with hc | ⟨n, hn, h⟩
    · obtain ⟨-, rfl⟩ := Frame.integer_eq_error hc
      cases hu
    cases hsv : frame.integer .current s w.address with
    | error e' =>
      simp only [hsv, error_bind] at h
      cases h
      obtain ⟨-, rfl⟩ := Frame.integer_eq_error hsv
      cases hu
    | ok sv =>
    simp only [hsv, ok_bind] at h
    split at h
    · simp only [throw, throwThe, MonadExceptOf.throw, error_bind] at h
      cases h
      cases hu
    rename_i hchk
    have hfit : 0 < n → element.fixedSize ≤ sv := by
      simpa only [Bool.and_eq_true, decide_eq_true_eq, not_and, Nat.not_lt] using hchk
    simp only [pure_bind, Option.getD_some] at h
    rcases bind_eq_error.mp h with hens | ⟨_, hens, h⟩
    · exact absurd hu (by simp [Error.isUnsupported_of_isShort (Window.ensure_eq_error hens)])
    rcases bind_eq_error.mp h with hread | ⟨_, -, h⟩
    swap
    · rcases bind_eq_error.mp h with hadv | ⟨_, -, hpure⟩
      · exact absurd hu (by simp [Error.isUnsupported_of_isShort (Window.advance_eq_error hadv)])
      · exact absurd hpure pure_ne_error
    -- element `i` fails at its slot, after the elements before it decode
    obtain ⟨i, hi, hpre, hfail⟩ := mapM_eq_error_iff.mp hread
    simp only [List.length_range] at hi
    simp only [List.getElem_range] at hfail
    rcases bind_eq_error.mp hfail with hadv | ⟨wi, hadv, hfail⟩
    · exact absurd hu (by simp [Error.isUnsupported_of_isShort (Window.advance_eq_error hadv)])
    obtain ⟨hslot, rfl⟩ := Window.advance_eq_ok.mp hadv
    rcases bind_eq_error.mp hfail with hel | ⟨_, -, hpure⟩
    swap
    · exact absurd hpure (by simp)
    have hai : Window.Ahead w { w with pos := w.pos + i * sv } 0 := (Window.Ahead.move hslot).mono
      (Nat.zero_le _)
    have hmin := Window.ensure_eq_ok.mp hens
    obtain ⟨site, reach, hf, -⟩ := Layout.decodeIn_unmatched frame.enter element
      { w with pos := w.pos + i * sv } e hshape.2 hsmall
      (by simp only [Window.remaining] at hslot ⊢; omega) hel hu
    have hend : w.pos + saturate64 (n * sv) ≤ w.data.size := by
      simp only [Window.remaining] at hmin
      omega
    refine ⟨site, max reach (w.pos + saturate64 (n * sv)),
      (hf.widen (le_max_left _ _) (max_le hf.reach_le hend)).back hai
        fun u hagree hupos hreach hel' => ?_, fun htop' => by cases htop'⟩
    have hsite := hf.le_site
    have hsite' := hf.site_le
    have hreach' := (le_max_left _ _).trans hreach
    have hcheck := (le_max_right _ _).trans hreach
    have hp := hagree.pos_eq
    simp only at hsite
    -- on the other buffer, the elements before the failing one decode as before
    have hread' : Window.stridedRead (Layout.decodeIn frame.enter element) sv u n = .error e := by
      refine Window.stridedRead_eq_error_of_slot hi (by simp only [Window.remaining]; omega)
        (fun j hj => ?_) (by rw [hagree.moved_eq, hel'])
      obtain ⟨b, hb⟩ := hpre j (by simp [List.take_range, hj, hi.trans' hj])
      rcases bind_eq_ok.mp hb with ⟨wj, hadvj, hb⟩
      obtain ⟨hslotj, rfl⟩ := Window.advance_eq_ok.mp hadvj
      obtain ⟨⟨bj, wj'⟩, hbj, -⟩ := bind_eq_ok.mp hb
      have hendj := Layout.decodeIn_pos_of_fixed frame.enter element _ wj' bj hshape.2 hshape.1 hbj
      have hslotle := strided_slot_le hj (hfit (by omega))
      simp only at hendj
      exact ⟨_, (Layout.decodeIn_replays frame.enter element { w with pos := w.pos + j * sv } wj'
        { u with pos := u.pos + j * sv } bj hshape.2 hsmall hbj
        ((hagree.move (j * sv)).mono (by omega)) (by simp only; omega)).1 (by simp only; omega)⟩
    rw [Node.decode.eq_6, hagree.address, hn, ok_bind]
    simp only [hsv, ok_bind, if_neg hchk, pure_bind, Option.getD_some]
    rw [Window.ensure_eq, if_pos (by simp only [Window.remaining, hp]; omega), ok_bind, hread',
      error_bind]

theorem Arm.decodeMatching_unmatched (order : ByteOrder) (frame : Frame) (name : String)
    (selected width : Nat) :
    ∀ (arms : List Arm) (w : Window) (e : Error), Arm.wellShaped arms = true →
      w.data.size < u64Max → w.pos ≤ w.data.size →
      Arm.decodeMatching order frame name selected width arms w = .error e →
      e.isUnsupported = true → ∃ site reach,
        w.FailsAgain (Arm.decodeMatching order frame name selected width arms) e site reach ∧
        (arms.find? (fun a => a.value == selected) = none → reach ≤ site)
  | [], w, e, _, _, hpos, h, _ => by
    simp only [Arm.decodeMatching, Except.error.injEq] at h
    subst h
    refine ⟨w.pos, w.pos, ⟨rfl, le_rfl, le_rfl, hpos, fun u hagree _ _ => ?_⟩, fun _ => le_rfl⟩
    rw [Arm.decodeMatching, hagree.address]
  | .mk v n node :: rest, w, e, hshape, hsmall, hpos, h, hu => by
    simp only [Arm.wellShaped, Bool.and_eq_true, Bool.not_eq_true'] at hshape
    by_cases hv : v = selected
    · subst hv
      simp only [Arm.decodeMatching, beq_self_eq_true, if_true] at h
      rcases bind_eq_error.mp h with hens | ⟨_, hens, h⟩
      · exact absurd hu (by simp [Error.isUnsupported_of_isShort (Window.ensure_eq_error hens)])
      rcases bind_eq_error.mp h with hnode | ⟨_, -, hpure⟩
      swap
      · exact absurd hpure (by simp)
      -- the chosen arm failed, after the union's width was checked
      obtain ⟨site, reach, hf, -⟩ :=
        Node.decode_unmatched order frame n node w e hshape.1.2 hsmall hpos hnode hu
      have hw := Window.ensure_eq_ok.mp hens
      have hend : w.pos + width ≤ w.data.size := by
        simp only [Window.remaining] at hw
        omega
      refine ⟨site, max reach (w.pos + width),
        (hf.widen (le_max_left _ _) (max_le hf.reach_le hend)).lift
          fun u hagree _ hreach hu' => ?_, fun hfind => ?_⟩
      · have hcheck := (le_max_right _ _).trans hreach
        simp only [Arm.decodeMatching, beq_self_eq_true, if_true]
        rw [Window.ensure_eq, if_pos (by simp only [Window.remaining, hagree.pos_eq]; omega), ok_bind,
          hu', error_bind]
      · simp [Arm.value] at hfind
    · have hne : (v == selected) = false := by simpa using hv
      simp only [Arm.decodeMatching, hne, Bool.false_eq_true, if_false] at h
      obtain ⟨site, reach, hf, htop⟩ :=
        Arm.decodeMatching_unmatched order frame name selected width rest w e hshape.2 hsmall hpos
          h hu
      refine ⟨site, reach, hf.lift fun u _ _ _ hu' => ?_, fun hfind => htop ?_⟩
      · simp only [Arm.decodeMatching, hne, Bool.false_eq_true, if_false]
        exact hu'
      · simpa [List.find?_cons, Arm.value, hne] using hfind

theorem Layout.decodeIn_unmatched (frame : Frame) :
    ∀ (l : Layout) (w : Window) (e : Error), l.wellShaped = true → w.data.size < u64Max →
      w.pos ≤ w.data.size → Layout.decodeIn frame l w = .error e → e.isUnsupported = true →
      ∃ site reach, w.FailsAgain (Layout.decodeIn frame l) e site reach ∧
        (Layout.ReachesUnmatched frame l w → reach ≤ site)
  | .mk name order fields, w, e, hshape, hsmall, hpos, h, hu => by
    obtain ⟨site, reach, hf, htop⟩ := Field.decodeAll_unmatched order frame.parents fields [] 0 w e
      hshape hsmall hpos (Layout.decodeIn_eq_error h) hu
    refine ⟨site, reach, hf.lift fun u _ _ _ hu' => ?_, fun htop' => ?_⟩
    · simp only [Layout.decodeIn, hu', error_bind]
    · cases htop' with
      | mk hf' => exact (htop hf').1

theorem Field.decodeAll_unmatched (order : ByteOrder) (parents : List (List (String × Value))) :
    ∀ (fields : List Field) (done : List (String × Value)) (checked : Nat) (w : Window)
      (e : Error), Field.wellShaped fields = true → w.data.size < u64Max → w.pos ≤ w.data.size →
      Field.decodeAll order parents done checked fields w = .error e → e.isUnsupported = true →
      ∃ site reach, w.FailsAgain (Field.decodeAll order parents done checked fields) e site reach ∧
        (Field.ReachesUnmatched order parents done fields w →
          reach ≤ site ∧ w.pos + (Field.fixedRun fields).1 ≤ site)
  | [], done, checked, w, e, _, _, _, h, _ => by simp at h
  | .mk name node :: rest, done, checked, w, e, hshape, hsmall, hpos, h, hu => by
    simp only [Field.wellShaped, Bool.and_eq_true] at hshape
    rw [Field.decodeAll_cons] at h
    rcases bind_eq_error.mp h with hens | ⟨_, hens, h⟩
    · exact absurd hu (by simp [Error.isUnsupported_of_isShort (Window.ensure_eq_error hens)])
    have hrun := Window.ensure_eq_ok.mp hens
    have hend : w.pos + (if checked = 0 then (Field.fixedRun (.mk name node :: rest)).1 else 0) ≤
        w.data.size := by
      simp only [Window.remaining] at hrun
      omega
    -- a field after a field that reaches an unmatched union is past the run's check
    have hrunle : ∀ {site : Nat}, w.pos + (Field.fixedRun (.mk name node :: rest)).1 ≤ site →
        w.pos + (if checked = 0 then (Field.fixedRun (.mk name node :: rest)).1 else 0) ≤ site := by
      intro site hsite
      split <;> omega
    rcases bind_eq_error.mp h with hnode | ⟨⟨v, w₁⟩, hnode, hrest⟩
    · -- the field itself fails
      obtain ⟨site, reach, hf, htop⟩ :=
        Node.decode_unmatched order ⟨done, parents⟩ name node w e hshape.1 hsmall hpos hnode hu
      refine ⟨site, _, (hf.widen (le_max_left _ _) (max_le hf.reach_le hend)).lift
          fun u hagree _ hreach hu' => ?_, fun htop' => ?_⟩
      · have hcheck := (le_max_right _ _).trans hreach
        rw [Field.decodeAll_cons, Window.ensure_eq,
          if_pos (by simp only [Window.remaining, hagree.pos_eq]; omega), ok_bind, hu', error_bind]
      · cases htop' with
        | here hn =>
          -- the field selects a union arm, so no run is checked with it
          have hzero : w.pos + (Field.fixedRun (.mk name node :: rest)).1 ≤ site := by
            rw [Field.fixedRun_cons, if_pos hn.hasUnion]
            exact hf.le_site
          exact ⟨max_le (htop hn) (hrunle hzero), hzero⟩
        | later hok _ =>
          rw [hok] at hnode
          cases hnode
    · -- a later field fails, after this one decodes
      have ha := Node.decode_ahead order ⟨done, parents⟩ name node w w₁ v hnode
      obtain ⟨site, reach, hf, htop⟩ := Field.decodeAll_unmatched order parents rest _ _ w₁ e
        hshape.2 (ha.data_eq ▸ hsmall)
        (by have := ha.pos_le; simp only [Window.remaining, ha.data_eq] at this ⊢; omega) hrest hu
      have hsite := hf.le_site
      have hend₁ : w.pos + (if checked = 0 then (Field.fixedRun (.mk name node :: rest)).1 else 0) ≤
          w₁.data.size := by
        rw [ha.data_eq]
        exact hend
      refine ⟨site, _, (hf.widen (le_max_left _ _) (max_le hf.reach_le hend₁)).back
          (ha.mono (Nat.zero_le _)) fun u hagree hupos hreach hu' => ?_, fun htop' => ?_⟩
      · have hcheck := (le_max_right _ _).trans hreach
        have hsite' := hf.site_le
        have hreplay := (Node.decode_replays order ⟨done, parents⟩ name node w w₁ u v hshape.1
          hsmall hnode (hagree.mono hsite) hupos).1 (by omega)
        rw [Field.decodeAll_cons, Window.ensure_eq,
          if_pos (by simp only [Window.remaining, hagree.pos_eq]; omega), ok_bind, hreplay, ok_bind]
        exact hu'
      · cases htop' with
        | here hn => exact absurd hnode hn.not_ok
        | later hok hrest' =>
          rw [hok] at hnode
          cases hnode
          obtain ⟨hreach, hrun'⟩ := htop hrest'
          -- the run checked here ends no later than the run checked after this field
          have hrun : w.pos + (Field.fixedRun (.mk name node :: rest)).1 ≤ site := by
            have hle := ha.le_pos
            rw [Field.fixedRun_cons]
            split <;> omega
          exact ⟨max_le hreach (hrunle hrun), hrun⟩

end

/-! ## The payload of an unmatched union is never read -/

/-- A decode that reports a selector value matching no arm of a union depends only on the bytes
before the union, at the position `p` its address reports. The failure comes back on every
buffer at least as long that agrees with the decoded one from the cursor up to `p`; when the union
is reached through embedded records only, no check before it looks further, and any buffer that
holds those bytes fails alike, one that ends at the union included. -/
theorem Layout.decodeAt_unmatched_before_payload {S : Layout} (hS : S.validate = .ok S)
    {w : Window} {field : String} {value address : Nat} (hsmall : w.data.size < u64Max)
    (hpos : w.pos ≤ w.data.size)
    (h : S.decodeAt w = .error (.discriminantUnsupported field value address)) :
    ∃ p, w.pos ≤ p ∧ p ≤ w.data.size ∧ address = min (w.origin + p) u64Max ∧
      (∀ d : ByteArray, w.data.size ≤ d.size → (∀ i, w.pos ≤ i → i < p → d[i]? = w.data[i]?) →
        S.decodeAt { w with data := d } = .error (.discriminantUnsupported field value address)) ∧
      (Layout.ReachesUnmatched {} S w → ∀ d : ByteArray, p ≤ d.size →
        (∀ i, w.pos ≤ i → i < p → d[i]? = w.data[i]?) →
        S.decodeAt { w with data := d } = .error (.discriminantUnsupported field value address)) := by
  have hshape := Layout.wellShaped_of_validate hS
  have hrec : S.decodeIn {} w = .error (.discriminantUnsupported field value address) := by
    rcases bind_eq_error.mp h with hr | ⟨_, -, hpure⟩
    · exact hr
    · exact absurd hpure pure_ne_error
  obtain ⟨site, reach, hf, htop⟩ := Layout.decodeIn_unmatched {} S w _ hshape hsmall hpos hrec rfl
  -- a buffer placed like `w` that holds the bytes up to `reach` fails again
  have hagain : ∀ d : ByteArray, reach ≤ d.size → w.pos ≤ d.size →
      (∀ i, w.pos ≤ i → i < site → d[i]? = w.data[i]?) →
      S.decodeAt { w with data := d } = .error (.discriminantUnsupported field value address) := by
    intro d hreach hd hbytes
    have hu := hf.again { w with data := d } ⟨rfl, rfl, fun i h₁ h₂ _ => hbytes i h₁ h₂⟩ hd hreach
    rw [Layout.decodeAt, Layout.decodeRecord, hu, error_bind]
  have hsite := hf.site_le
  have hsize := hf.reach_le
  refine ⟨site, hf.le_site, by omega, ?_, fun d hd => hagain d (by omega) (by omega),
    fun hreaches d hd => hagain d ((htop hreaches).trans hd) (hf.le_site.trans hd)⟩
  simpa [Error.offset?] using hf.offset_eq

/-- A record of a kind byte, then a payload chosen by it whose only arm is a word. -/
def taggedWordLayout : Layout :=
  .mk "Tagged" .little [.mk "kind" (.scalar .u8),
    .mk "payload" (.union { field := "kind" } [.mk 0 "word" (.scalar .u32)])]

/-- The kind `7` selects no arm, and no byte of the payload is read: every buffer that starts
with `7` fails alike, a single byte included. -/
theorem taggedWord_unmatched_without_payload :
    taggedWordLayout.validate = .ok taggedWordLayout ∧
      taggedWordLayout.decodeAt ⟨⟨#[7]⟩, 0, 0⟩ = .error (.discriminantUnsupported "payload" 7 1) ∧
      Layout.ReachesUnmatched {} taggedWordLayout ⟨⟨#[7]⟩, 0, 0⟩ ∧
      ∀ d : ByteArray, d[0]? = some 7 →
        taggedWordLayout.decodeAt ⟨d, 0, 0⟩ = .error (.discriminantUnsupported "payload" 7 1) := by
  have hval : taggedWordLayout.validate = .ok taggedWordLayout :=
    Layout.validate_eq_ok.mpr ⟨by decide, rfl⟩
  have hdec : taggedWordLayout.decodeAt ⟨⟨#[7]⟩, 0, 0⟩ =
      .error (.discriminantUnsupported "payload" 7 1) :=
    Except.eq_error_of_failure (by decide +kernel)
  have hkind : Node.decode .little ⟨[], []⟩ "kind" (.scalar .u8) ⟨⟨#[7]⟩, 0, 0⟩ =
      .ok (.unsigned 7, ⟨⟨#[7]⟩, 0, 1⟩) := by
    rw [Node.decode_scalar, if_pos (by decide), Window.rest_eq, ByteArray.toList_eq_data_toList]
    rfl
  have htop : Layout.ReachesUnmatched {} taggedWordLayout ⟨⟨#[7]⟩, 0, 0⟩ :=
    .mk (.later hkind (.here (.union rfl rfl)))
  obtain ⟨p, -, hp, haddr, -, hnested⟩ :=
    Layout.decodeAt_unmatched_before_payload hval (by decide) (by decide) hdec
  -- the union sits right after the kind byte
  have hp1 : p = 1 := by
    have hmax : 1 < u64Max := by decide
    change p ≤ 1 at hp
    change 1 = min (0 + p) u64Max at haddr
    omega
  subst hp1
  refine ⟨hval, hdec, htop, fun d hd => hnested htop d ?_ fun i _ hi => ?_⟩
  · by_contra hlt
    rw [getElem?_neg d 0 (by omega)] at hd
    cases hd
  · obtain rfl : i = 0 := by omega
    exact hd

/-- A record of a selector byte, then a union chosen by it whose only arm is a byte. -/
def byteUnionLayout : Layout :=
  .mk "Spec" .little [.mk "d" (.scalar .u8),
    .mk "u" (.union { field := "d" } [.mk 0 "a" (.scalar .u8)])]

/-- At the top of the address space the union's address saturates to the origin: it reports
position `0` for a union at position `1`. The one-byte buffer fails on the selector, and the empty
buffer, which agrees with it on every position before `0`, fails on the bounds check instead. -/
theorem saturatedUnion_short_buffer :
    byteUnionLayout.validate = .ok byteUnionLayout ∧
      byteUnionLayout.decodeAt ⟨⟨#[5]⟩, u64Max, 0⟩ =
        .error (.discriminantUnsupported "u" 5 u64Max) ∧
      byteUnionLayout.decodeAt ⟨⟨#[]⟩, u64Max, 0⟩ = .error (.bufferTooShort u64Max 1 0) :=
  ⟨Layout.validate_eq_ok.mpr ⟨by decide, rfl⟩, Except.eq_error_of_failure (by decide +kernel),
    Except.eq_error_of_failure (by decide +kernel)⟩

end SwiftReflection
