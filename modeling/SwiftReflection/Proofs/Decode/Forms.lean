import Mathlib
import SwiftReflection.Proofs.Decode.Selectors
/-!
# Decoded values have the forms of their layouts

A decoded record holds one value for each field of its layout, in order, and each value has the
form of its field's node (`Record.Fits`): an integer of the scalar's signedness, a flag set with
the node's named bits, a pointer of the node's kind and target, an embedded record that fits its
layout, the arm of a union that its selector chose, or the records of a trailing block's element.
`Layout.decodeIn_fits` proves it of every decode.

Typed views read records through accessors that fail on a missing field or on a value of another
form. On a record that fits a layout, the accessor of a name succeeds with a value of the form of
the layout's first field of that name (`Record.Fits.pointer` and the others): the record's values
line up with the layout's fields, so the two searches by name stop at the same place.

A decode fails for lack of bytes, on a selector value no arm has, on an unknown selector or size
field, on a stride smaller than its element, only where a strided block is decoded, or by
overflowing the shift of a union, only where a union shifts by 64 bits or more
(`Layout.decodeIn_failure`). On a layout that validation accepts, with no loose selectors, no
strided block and no such shift, only the first two remain
(`Layout.decodeRecord_short_or_unsupported`).
-/

namespace SwiftReflection

/-! ## The form of a decoded value -/

mutual

/-- The value has the form that decoding the node gives. -/
inductive Value.Fits : Value → Node → Prop
  | unsigned {k : ScalarKind} {n : Nat} : k.signed = false → Value.Fits (.unsigned n) (.scalar k)
  | signed {k : ScalarKind} {i : Int} : k.signed = true → Value.Fits (.signed i) (.scalar k)
  | flags {k : ScalarKind} {raw : Nat} {bits : List FlagBit} :
      Value.Fits (.flags raw bits) (.flags k bits)
  | nested {name : String} {address size : Nat} {values : List (String × Value)} {l : Layout} :
      Record.Fits ⟨name, address, size, values⟩ l →
      Value.Fits (.record name address size values) (.nested l)
  | pointer {o : RelOffset} {kind : PointerKind} {target : Target} :
      o.kind = kind → Value.Fits (.pointer o target) (.pointer kind target)
  | union {sel : Selector} {arms : List Arm} {armName : String} {selected : Nat} {v : Value}
      {node : Node} :
      arms.find? (fun a => a.value == selected) = some (.mk selected armName node) →
      Value.Fits v node → Value.Fits (.union armName selected v) (.union sel arms)
  | repeated {count : String} {stride : Option String} {element : Layout} {items : List Value} :
      Value.ItemsFit items element → Value.Fits (.repeated items) (.trailing count stride element)

/-- Each value is a record that fits the layout. -/
inductive Value.ItemsFit : List Value → Layout → Prop
  | nil {l : Layout} : Value.ItemsFit [] l
  | cons {name : String} {address size : Nat} {values : List (String × Value)}
      {items : List Value} {l : Layout} :
      Record.Fits ⟨name, address, size, values⟩ l → Value.ItemsFit items l →
      Value.ItemsFit (.record name address size values :: items) l

/-- The record carries its layout's name and a value of each field's form, in order. -/
inductive Record.Fits : Record → Layout → Prop
  | mk {name : String} {address size : Nat} {order : ByteOrder} {values : List (String × Value)}
      {fields : List Field} :
      Field.Fits values fields → Record.Fits ⟨name, address, size, values⟩ (.mk name order fields)

/-- The named values are the fields, in order, each of the form of its field's node. -/
inductive Field.Fits : List (String × Value) → List Field → Prop
  | nil : Field.Fits [] []
  | cons {name : String} {v : Value} {node : Node} {values : List (String × Value)}
      {fields : List Field} :
      Value.Fits v node → Field.Fits values fields →
      Field.Fits ((name, v) :: values) (.mk name node :: fields)

end

/-- Records that each fit the layout, as values. -/
theorem Value.ItemsFit.of_forall {l : Layout} :
    ∀ {rs : List Record}, (∀ r ∈ rs, Record.Fits r l) → Value.ItemsFit (rs.map Value.ofRecord) l
  | [], _ => .nil
  | ⟨_, _, _, _⟩ :: _, h =>
    .cons (h _ List.mem_cons_self) (Value.ItemsFit.of_forall fun r hr => h r (List.mem_cons_of_mem _ hr))

/-- Every result of repeated steps is a result of one step. -/
theorem Window.repeatRead_forall {α : Type} {step : Window → Except Error (α × Window)}
    {P : α → Prop} (hstep : ∀ u a u', step u = .ok (a, u') → P a) :
    ∀ {n : Nat} {w w' : Window} {as : List α}, Window.repeatRead step n w = .ok (as, w') →
      ∀ a ∈ as, P a
  | 0, _, _, _, h => by
    simp only [Window.repeatRead, Except.ok.injEq, Prod.mk.injEq] at h
    simp [← h.1]
  | n + 1, w, w', as, h => by
    obtain ⟨a, w₁, rest, ha, hrest, rfl⟩ := Window.repeatRead_succ_eq_ok.mp h
    intro b hb
    rcases List.mem_cons.mp hb with rfl | hb
    · exact hstep w b w₁ ha
    · exact Window.repeatRead_forall hstep hrest b hb

/-! ## Decoding gives values of their nodes' forms -/

mutual

theorem Node.decode_fits (order : ByteOrder) (frame : Frame) (name : String) :
    ∀ (node : Node) (w w' : Window) (v : Value), Node.decode order frame name node w = .ok (v, w') →
      Value.Fits v node
  | .scalar k, w, w', v, h => by
    rw [Node.decode_scalar] at h
    split at h
    · obtain ⟨rfl, -⟩ := Prod.mk.inj (Except.ok.inj h)
      cases hk : k.signed
      · simpa [hk] using Value.Fits.unsigned hk
      · simpa [hk] using Value.Fits.signed hk
    · cases h
  | .flags k bits, w, w', v, h => by
    rw [Node.decode_flags] at h
    split at h
    · obtain ⟨rfl, -⟩ := Prod.mk.inj (Except.ok.inj h)
      exact .flags
    · cases h
  | .pointer kind target, w, w', v, h => by
    rw [Node.decode_pointer] at h
    split at h
    · obtain ⟨rfl, -⟩ := Prod.mk.inj (Except.ok.inj h)
      exact .pointer rfl
    · cases h
  | .nested l, w, w', v, h => by
    obtain ⟨⟨n, a, s, values⟩, hr, rfl⟩ := Node.decode_nested_eq_ok.mp h
    exact .nested (Layout.decodeIn_fits frame.enter l w w' _ hr)
  | .union sel arms, w, w', v, h => by
    obtain ⟨raw, armName, val, -, -, harm, -, rfl, -⟩ := Node.decode_union_eq_ok.mp h
    obtain ⟨node, hfind, hfit⟩ :=
      Arm.decodeMatching_fits order frame name (sel.narrow raw) (Arm.maxSize arms) arms w armName
        val harm
    exact .union hfind hfit
  | .trailing count none element, w, w', v, h => by
    obtain ⟨n, items, -, -, hitems, rfl⟩ := Node.decode_packed_eq_ok.mp h
    exact .repeated (Value.ItemsFit.of_forall (Window.repeatRead_forall
      (fun u r u' hr => Layout.decodeIn_fits frame.enter element u u' r hr) hitems))
  | .trailing count (some s) element, w, w', v, h => by
    obtain ⟨n, sv, items, -, -, -, -, hitems, rfl, -⟩ := Node.decode_strided_eq_ok.mp h
    obtain ⟨-, hall⟩ := Window.stridedRead_eq_ok.mp hitems
    refine .repeated (Value.ItemsFit.of_forall fun r hr => ?_)
    -- each element is a record decoded at its slot
    obtain ⟨i, hi, rfl⟩ := List.getElem_of_mem hr
    obtain ⟨-, u', hu⟩ := hall i hi
    exact Layout.decodeIn_fits frame.enter element _ u' _ hu

theorem Arm.decodeMatching_fits (order : ByteOrder) (frame : Frame) (name : String)
    (selected width : Nat) :
    ∀ (arms : List Arm) (w : Window) (armName : String) (v : Value),
      Arm.decodeMatching order frame name selected width arms w = .ok (armName, v) →
      ∃ node, arms.find? (fun a => a.value == selected) = some (.mk selected armName node) ∧
        Value.Fits v node
  | [], _, _, _, h => by simp [Arm.decodeMatching] at h
  | .mk a n node :: rest, w, armName, v, h => by
    by_cases ha : a = selected
    · subst ha
      simp only [Arm.decodeMatching, beq_self_eq_true, if_true] at h
      obtain ⟨_, -, h⟩ := bind_eq_ok.mp h
      obtain ⟨⟨v', w'⟩, hnode, h⟩ := bind_eq_ok.mp h
      simp only [pure_eq_ok, Prod.mk.injEq] at h
      obtain ⟨rfl, rfl⟩ := h
      exact ⟨node, by simp [Arm.value], Node.decode_fits order frame _ node w w' _ hnode⟩
    · have hne : (a == selected) = false := by simpa using ha
      simp only [Arm.decodeMatching, hne, Bool.false_eq_true, if_false] at h
      obtain ⟨node', hfind, hfit⟩ :=
        Arm.decodeMatching_fits order frame name selected width rest w armName v h
      exact ⟨node', by simpa [Arm.value, hne] using hfind, hfit⟩

theorem Layout.decodeIn_fits (frame : Frame) :
    ∀ (l : Layout) (w w' : Window) (r : Record), Layout.decodeIn frame l w = .ok (r, w') →
      Record.Fits r l
  | .mk name order fields, w, w', r, h => by
    obtain ⟨done, hdone, rfl⟩ := Layout.decodeIn_eq_ok.mp h
    obtain ⟨values, rfl, hfit⟩ :=
      Field.decodeAll_fits order frame.parents fields [] 0 w w' done hdone
    exact .mk hfit

theorem Field.decodeAll_fits (order : ByteOrder) (parents : List (List (String × Value))) :
    ∀ (fields : List Field) (done : List (String × Value)) (checked : Nat) (w w' : Window)
      (done' : List (String × Value)),
      Field.decodeAll order parents done checked fields w = .ok (done', w') →
      ∃ values, done' = done ++ values ∧ Field.Fits values fields
  | [], done, checked, w, w', done', h => by
    simp only [Field.decodeAll_nil, Except.ok.injEq, Prod.mk.injEq] at h
    exact ⟨[], by simp [h.1], .nil⟩
  | .mk name node :: rest, done, checked, w, w', done', h => by
    obtain ⟨-, v, w₁, hnode, hrest⟩ := Field.decodeAll_cons_eq_ok.mp h
    obtain ⟨values, rfl, hfit⟩ := Field.decodeAll_fits order parents rest _ _ w₁ w' done' hrest
    exact ⟨(name, v) :: values, by simp,
      .cons (Node.decode_fits order _ name node w w₁ v hnode) hfit⟩

end

/-! ## Reading the fields of a record of a layout -/

/-- The first value of a name in values that fit fields is that of the first field of the name. -/
theorem Field.Fits.find? {n : String} {node : Node} :
    ∀ {fields : List Field} {values : List (String × Value)}, Field.Fits values fields →
      Field.find? fields n = some node →
      ∃ v, (values.find? (fun f => f.1 == n)).map Prod.snd = some v ∧ Value.Fits v node
  | [], _, _, hfind => by simp [Field.find?] at hfind
  | .mk name node' :: fields, _, h, hfind => by
    cases h with
    | @cons _ v' _ _ _ hv hrest =>
      by_cases hn : name = n
      · -- the first field has the name
        subst hn
        simp only [Field.find?, List.find?_cons, Field.name, beq_self_eq_true, Option.map_some,
          Option.some.injEq] at hfind
        subst hfind
        exact ⟨v', by simp, hv⟩
      · -- the first field has another name, so both searches go on
        have hne : (name == n) = false := by simpa using hn
        simp only [Field.find?, List.find?_cons, Field.name, hne] at hfind
        obtain ⟨v, hv', hfit⟩ := Field.Fits.find? hrest hfind
        exact ⟨v, by simpa [List.find?_cons, hne] using hv', hfit⟩

namespace Record.Fits

variable {r : Record} {l : Layout} (h : Record.Fits r l)
include h

theorem field (n : String) {node : Node} (hfind : Field.find? l.fields n = some node) :
    ∃ v, r.field n = .ok v ∧ Value.Fits v node := by
  cases h with
  | mk hfit =>
    obtain ⟨v, hv, hv'⟩ := hfit.find? hfind
    exact ⟨v, by simp [Record.field, Record.get?, hv], hv'⟩

theorem pointer (n : String) {kind : PointerKind} {target : Target}
    (hfind : Field.find? l.fields n = some (.pointer kind target)) :
    ∃ o, r.pointer n = .ok ⟨o, target⟩ ∧ o.kind = kind := by
  obtain ⟨v, hv, hfit⟩ := h.field n hfind
  cases hfit with
  | pointer hk =>
    refine ⟨_, ?_, hk⟩
    rw [Record.pointer, hv, ok_bind]
    rfl

theorem flagSet (n : String) {k : ScalarKind} {bits : List FlagBit}
    (hfind : Field.find? l.fields n = some (.flags k bits)) :
    ∃ raw, r.flagSet n = .ok ⟨raw, bits⟩ := by
  obtain ⟨v, hv, hfit⟩ := h.field n hfind
  cases hfit with
  | flags =>
    rename_i raw
    refine ⟨raw, ?_⟩
    rw [Record.flagSet, hv, ok_bind]
    rfl

theorem nat (n : String) {k : ScalarKind} (hfind : Field.find? l.fields n = some (.scalar k))
    (hk : k.signed = false) : ∃ m, r.nat n = .ok m := by
  obtain ⟨v, hv, hfit⟩ := h.field n hfind
  cases hfit with
  | unsigned =>
    rename_i m _
    refine ⟨m, ?_⟩
    rw [Record.nat, hv, ok_bind]
    rfl
  | signed hk' => simp [hk] at hk'

theorem record (n : String) {l' : Layout} (hfind : Field.find? l.fields n = some (.nested l')) :
    ∃ r', r.record n = .ok r' ∧ Record.Fits r' l' := by
  obtain ⟨v, hv, hfit⟩ := h.field n hfind
  cases hfit with
  | nested hr =>
    refine ⟨_, ?_, hr⟩
    rw [Record.record, hv, ok_bind]
    rfl

theorem union (n : String) {sel : Selector} {arms : List Arm}
    (hfind : Field.find? l.fields n = some (.union sel arms)) :
    ∃ u : UnionValue, r.union n = .ok u ∧ ∃ node,
      arms.find? (fun a => a.value == u.discriminant) = some (.mk u.discriminant u.arm node) ∧
        Value.Fits u.value node := by
  obtain ⟨v, hv, hfit⟩ := h.field n hfind
  cases hfit with
  | union hfind' hv' =>
    refine ⟨⟨_, _, _⟩, ?_, _, hfind', hv'⟩
    rw [Record.union, hv, ok_bind]
    rfl

theorem items (n : String) {count : String} {stride : Option String} {element : Layout}
    (hfind : Field.find? l.fields n = some (.trailing count stride element)) :
    ∃ vs, r.items n = .ok vs ∧ Value.ItemsFit vs element := by
  obtain ⟨v, hv, hfit⟩ := h.field n hfind
  cases hfit with
  | repeated hitems =>
    refine ⟨_, ?_, hitems⟩
    rw [Record.items, hv, ok_bind]
    rfl

end Record.Fits

/-- Each value of a block is a record that fits its element. -/
theorem Value.ItemsFit.mem {l : Layout} :
    ∀ {vs : List Value}, Value.ItemsFit vs l → ∀ v ∈ vs, ∃ r, v.asRecord? = some r ∧ Record.Fits r l
  | [], _, _, hv => absurd hv List.not_mem_nil
  | _ :: _, h, v, hv => by
    cases h with
    | cons hr hrest =>
      rcases List.mem_cons.mp hv with rfl | hv
      · exact ⟨_, rfl, hr⟩
      · exact Value.ItemsFit.mem hrest v hv

/-! ## What a decode can report -/

mutual

/-- Whether a trailing block with a stride is decoded inside the node. -/
def Node.hasStride : Node → Bool
  | .union _ arms => Arm.hasStride arms
  | .nested l => Layout.hasStride l
  | .trailing _ stride element => stride.isSome || Layout.hasStride element
  | _ => false

def Arm.hasStride : List Arm → Bool
  | [] => false
  | .mk _ _ node :: rest => Node.hasStride node || Arm.hasStride rest

def Layout.hasStride : Layout → Bool
  | .mk _ _ fields => Field.hasStride fields

def Field.hasStride : List Field → Bool
  | [] => false
  | .mk _ node :: rest => Node.hasStride node || Field.hasStride rest

end

mutual

/-- Whether a union inside the node narrows its selector by a shift of 64 bits or more. -/
def Node.hasWideShift : Node → Bool
  | .union sel arms => decide (64 ≤ sel.shift) || Arm.hasWideShift arms
  | .nested l => Layout.hasWideShift l
  | .trailing _ _ element => Layout.hasWideShift element
  | _ => false

def Arm.hasWideShift : List Arm → Bool
  | [] => false
  | .mk _ _ node :: rest => Node.hasWideShift node || Arm.hasWideShift rest

def Layout.hasWideShift : Layout → Bool
  | .mk _ _ fields => Field.hasWideShift fields

def Field.hasWideShift : List Field → Bool
  | [] => false
  | .mk _ node :: rest => Node.hasWideShift node || Field.hasWideShift rest

end

/-- A failure a decode can report: a shortage, a selector value no arm has, an unknown field;
where a strided block is decoded, a stride smaller than its element; and where a union shifts
by 64 bits or more, the overflow of its shift. -/
def Error.FromDecoding (strided wide : Bool) : Error → Prop
  | .bufferTooShort .. | .discriminantUnsupported .. | .unknownField .. => True
  | .invalidStride .. => strided = true
  | .panic p => wide = true ∧ p = .shiftOverflow
  | _ => False

theorem Error.FromDecoding.mono {s s' v v' : Bool} {e : Error} (h : e.FromDecoding s v)
    (hs : s = true → s' = true) (hv : v = true → v' = true) : e.FromDecoding s' v' := by
  cases e <;> simp_all [Error.FromDecoding]

/-- A failure of the first of two parts is one of the whole. -/
theorem Error.FromDecoding.or_left {s v s' v' : Bool} {e : Error} (h : e.FromDecoding s v) :
    e.FromDecoding (s || s') (v || v') :=
  h.mono (by simp_all) (by simp_all)

/-- A failure of the second of two parts is one of the whole. -/
theorem Error.FromDecoding.or_right {s v s' v' : Bool} {e : Error} (h : e.FromDecoding s v) :
    e.FromDecoding (s' || s) (v' || v) :=
  h.mono (by simp_all) (by simp_all)

theorem Error.fromDecoding_of_isShort {e : Error} (h : e.isShort = true) (s v : Bool) :
    e.FromDecoding s v := by
  cases e <;> simp_all [Error.isShort, Error.FromDecoding]

theorem Frame.fromDecoding_of_integer {frame : Frame} {scope : Scope} {field : String}
    {offset : Nat} {e : Error} (h : frame.integer scope field offset = .error e) (s v : Bool) :
    e.FromDecoding s v := by
  obtain ⟨-, rfl⟩ := Frame.integer_eq_error h
  trivial

mutual

theorem Node.decode_failure (order : ByteOrder) (frame : Frame) (name : String) :
    ∀ (node : Node) (w : Window) (e : Error), Node.decode order frame name node w = .error e →
      e.FromDecoding node.hasStride node.hasWideShift
  | .scalar k, w, e, h => by
    rw [Node.decode_scalar] at h
    split at h
    · cases h
    · cases h
      trivial
  | .flags k bits, w, e, h => by
    rw [Node.decode_flags] at h
    split at h
    · cases h
    · cases h
      trivial
  | .pointer kind target, w, e, h => by
    rw [Node.decode_pointer] at h
    split at h
    · cases h
    · cases h
      trivial
  | .nested l, w, e, h => by
    rw [Node.decode.eq_3] at h
    rcases bind_eq_error.mp h with hl | ⟨_, -, hpure⟩
    · exact Layout.decodeIn_failure frame.enter l w e hl
    · exact absurd hpure pure_ne_error
  | .union sel arms, w, e, h => by
    rcases Node.decode_union_eq_error h with hint | ⟨hshift, rfl⟩ | ⟨raw, harm⟩ | hshort
    · exact Frame.fromDecoding_of_integer hint _ _
    · exact ⟨by simp [Node.hasWideShift, hshift], rfl⟩
    · exact (Arm.decodeMatching_failure order frame name _ (Arm.maxSize arms) arms w e harm).mono
        (by simp [Node.hasStride]) (by simp [Node.hasWideShift]; tauto)
    · exact Error.fromDecoding_of_isShort hshort _ _
  | .trailing count none element, w, e, h => by
    rw [Node.decode.eq_6] at h
    simp only [pure_bind, Option.getD_none] at h
    rcases bind_eq_error.mp h with hc | ⟨n, -, h⟩
    · exact Frame.fromDecoding_of_integer hc _ _
    rcases bind_eq_error.mp h with hens | ⟨_, -, h⟩
    · exact Error.fromDecoding_of_isShort (Window.ensure_eq_error hens) _ _
    rcases bind_eq_error.mp h with hrep | ⟨_, -, hpure⟩
    · obtain ⟨u, hu⟩ := Window.repeatRead_eq_error hrep
      exact (Layout.decodeIn_failure frame.enter element u e hu).mono (by simp [Node.hasStride])
        (by simp [Node.hasWideShift])
    · exact absurd hpure pure_ne_error
  | .trailing count (some s) element, w, e, h => by
    -- the block itself is strided, so every failure of a decode is allowed
    rcases Node.decode_trailing_eq_error h with hc | ⟨_, -, hs⟩ | ⟨u, hu⟩ | hshort | ⟨_, _, _, rfl⟩
    · exact Frame.fromDecoding_of_integer hc _ _
    · exact Frame.fromDecoding_of_integer hs _ _
    · exact (Layout.decodeIn_failure frame.enter element u e hu).mono (by simp [Node.hasStride])
        (by simp [Node.hasWideShift])
    · exact Error.fromDecoding_of_isShort hshort _ _
    · simp [Error.FromDecoding, Node.hasStride]

theorem Arm.decodeMatching_failure (order : ByteOrder) (frame : Frame) (name : String)
    (selected width : Nat) :
    ∀ (arms : List Arm) (w : Window) (e : Error),
      Arm.decodeMatching order frame name selected width arms w = .error e →
      e.FromDecoding (Arm.hasStride arms) (Arm.hasWideShift arms)
  | [], w, e, h => by
    simp only [Arm.decodeMatching, Except.error.injEq] at h
    subst h
    trivial
  | .mk v n node :: rest, w, e, h => by
    simp only [Arm.decodeMatching] at h
    split at h
    · rcases bind_eq_error.mp h with hens | ⟨_, -, h⟩
      · exact Error.fromDecoding_of_isShort (Window.ensure_eq_error hens) _ _
      rcases bind_eq_error.mp h with hnode | ⟨_, -, hpure⟩
      · exact (Node.decode_failure order frame n node w e hnode).or_left
      · exact absurd hpure (by simp)
    · exact (Arm.decodeMatching_failure order frame name selected width rest w e h).or_right

theorem Layout.decodeIn_failure (frame : Frame) :
    ∀ (l : Layout) (w : Window) (e : Error), Layout.decodeIn frame l w = .error e →
      e.FromDecoding l.hasStride l.hasWideShift
  | .mk _ order fields, w, e, h =>
    Field.decodeAll_failure order frame.parents fields [] 0 w e (Layout.decodeIn_eq_error h)

theorem Field.decodeAll_failure (order : ByteOrder) (parents : List (List (String × Value))) :
    ∀ (fields : List Field) (done : List (String × Value)) (checked : Nat) (w : Window)
      (e : Error), Field.decodeAll order parents done checked fields w = .error e →
      e.FromDecoding (Field.hasStride fields) (Field.hasWideShift fields)
  | [], _, _, _, _, h => by simp at h
  | .mk name node :: rest, done, checked, w, e, h => by
    rcases Field.decodeAll_cons_eq_error h with hshort | hnode | ⟨v, w₁, c, -, hrest⟩
    · exact Error.fromDecoding_of_isShort hshort _ _
    · exact (Node.decode_failure order _ name node w e hnode).or_left
    · exact (Field.decodeAll_failure order parents rest _ c w₁ e hrest).or_right

end

/-- A record of a layout that validation accepts, that selects no arm by an enclosing record's
field, decodes no strided block and shifts no selector by 64 bits or more, fails only for lack
of bytes or on a selector value no arm has. -/
theorem Layout.decodeRecord_short_or_unsupported {l : Layout} (hval : l.validateError? = none)
    (hloose : l.looseSelectors = []) (hstride : l.hasStride = false)
    (hwide : l.hasWideShift = false) {w : Window} {e : Error} (h : l.decodeRecord w = .error e) :
    e.isShort = true ∨ ∃ field value offset, e = .discriminantUnsupported field value offset := by
  have hfail := Layout.decodeIn_failure {} l w e h
  have hknown := Layout.decodeIn_unknownAmong {} l w e hval h
  rw [hstride, hwide] at hfail
  cases e with
  | unknownField n o => simpa [hloose] using hknown n o rfl
  | _ => simp_all [Error.FromDecoding, Error.isShort]

end SwiftReflection
