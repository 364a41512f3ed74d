import Mathlib
import SwiftReflection.Proofs.Layout.Acceptance
import SwiftReflection.Proofs.Decode.Steps
import SwiftReflection.Proofs.Decode.Shape
/-!
# Which look-ups can fail

Decoding looks up the field that selects a union's arm, and the count and stride of a trailing
block, among the fields decoded so far; a missing or non-integer field fails with
`Error.unknownField`. Validation checks these look-ups, against the fields before, for the
unions and trailing blocks that are fields of a record, so those never fail. Two kinds of
look-up are left to decoding: a selector of enclosing scope, whose records are known only at
decode time, and the selector of a union placed directly as an arm of another union, which
validation does not look at. `Layout.looseSelectors` lists the names these two kinds look up.

`Layout.decodeAt_unknownField_mem_looseSelectors` says that an unknown field reported while
decoding an accepted layout is always one of them, and `armSelector_unknownField` shows the
second kind failing: an accepted layout, with no selector of enclosing scope, whose decoding
reports an unknown field.

The proof follows the decoder. The fields decoded so far line up with the fields before the
current one (`Frame.Tracks`), so a look-up that validation found among the earlier fields is
found among the decoded ones, with an integer value.
-/

namespace SwiftReflection

/-! ## Look-ups left to decoding -/

mutual

/-- Names of the selectors inside a node that validation leaves to decoding: those of enclosing
scope and, when the node is itself a union arm (`asArm`), its own. -/
def Node.looseSelectors (asArm : Bool) : Node → List String
  | .union sel arms =>
    (if asArm || sel.scope == .enclosing then [sel.field] else []) ++ Arm.looseSelectors arms
  | .nested l => Layout.looseSelectors l
  | .trailing _ _ element => Layout.looseSelectors element
  | _ => []

/-- Names of the selectors left to decoding in union arms, each arm a node of its own. -/
def Arm.looseSelectors : List Arm → List String
  | [] => []
  | .mk _ _ node :: rest => Node.looseSelectors true node ++ Arm.looseSelectors rest

/-- Names of the selectors left to decoding in a record of the layout. -/
def Layout.looseSelectors : Layout → List String
  | .mk _ _ fields => Field.looseSelectors fields

/-- Names of the selectors left to decoding in fields. -/
def Field.looseSelectors : List Field → List String
  | [] => []
  | .mk _ node :: rest => Node.looseSelectors false node ++ Field.looseSelectors rest

end

/-- An error that, if it reports an unknown field, reports one of `names`. -/
def Error.UnknownAmong (names : List String) (e : Error) : Prop :=
  ∀ n o, e = .unknownField n o → n ∈ names

theorem Error.UnknownAmong.mono {names names' : List String} {e : Error}
    (h : e.UnknownAmong names) (hsub : names ⊆ names') : e.UnknownAmong names' :=
  fun n o he => hsub (h n o he)

theorem Error.unknownAmong_of_isShort {e : Error} (h : e.isShort = true) (names : List String) :
    e.UnknownAmong names := by
  rintro n o rfl
  cases h

/-! ## Decoded fields line up with the fields before -/

/-- The decoded fields `done` line up with the fields `earlier` they were decoded from: the same
names in the same order, and an integer value wherever the field is an integer or a flag set. -/
def Frame.Tracks (done : List (String × Value)) (earlier : List Field) : Prop :=
  List.Forall₂ (fun d f => d.1 = f.name ∧
    (f.node.isInteger = true → ∃ n, d.2.selectorBits? = some n)) done earlier

/-- A field of integer kind found among the earlier fields is found among the decoded ones,
with its integer. -/
theorem Frame.Tracks.find? {done : List (String × Value)} {earlier : List Field}
    (h : Frame.Tracks done earlier) {name : String} {node : Node}
    (hfind : Field.find? earlier name = some node) (hint : node.isInteger = true) :
    ∃ n, (Frame.find? done name).bind Value.selectorBits? = some n := by
  induction h with
  | nil => simp [Field.find?] at hfind
  | @cons d f done earlier hdf _ ih =>
    obtain ⟨hname, hval⟩ := hdf
    by_cases hf : f.name = name
    · have hnode : f.node = node := by
        simpa [Field.find?, List.find?_cons, hf] using hfind
      obtain ⟨n, hn⟩ := hval (hnode ▸ hint)
      exact ⟨n, by simp [Frame.find?, hname, hf, hn]⟩
    · have hfind' : Field.find? earlier name = some node := by
        simpa [Field.find?, List.find?_cons, hf] using hfind
      simpa [Frame.find?, List.find?_cons, hname, hf] using ih hfind'

theorem Frame.Tracks.snoc {done : List (String × Value)} {earlier : List Field}
    (h : Frame.Tracks done earlier) (name : String) (node : Node) {v : Value}
    (hv : node.isInteger = true → ∃ n, v.selectorBits? = some n) :
    Frame.Tracks (done ++ [(name, v)]) (earlier ++ [.mk name node]) :=
  List.rel_append h (List.Forall₂.cons ⟨rfl, hv⟩ List.Forall₂.nil)

/-- An integer or a flag set decodes to a value that can select or size. -/
theorem Node.decode_selectorBits {order : ByteOrder} {frame : Frame} {name : String} {node : Node}
    {w w' : Window} {v : Value} (h : Node.decode order frame name node w = .ok (v, w'))
    (hint : node.isInteger = true) : ∃ n, v.selectorBits? = some n := by
  cases node with
  | scalar k =>
    rw [Node.decode_scalar] at h
    split at h
    · simp only [Except.ok.injEq, Prod.mk.injEq] at h
      obtain ⟨rfl, -⟩ := h
      split <;> simp [Value.selectorBits?, Value.asNat?]
    · cases h
  | flags k bits =>
    rw [Node.decode_flags] at h
    split at h
    · simp only [Except.ok.injEq, Prod.mk.injEq] at h
      obtain ⟨rfl, -⟩ := h
      simp [Value.selectorBits?, Value.asNat?]
    · cases h
  | _ => simp [Node.isInteger] at hint

/-- A union field that passed validation and selects by its own record finds its selector. -/
theorem Frame.integer_of_selector {done : List (String × Value)} {earlier : List Field}
    (htr : Frame.Tracks done earlier) (parents : List (List (String × Value))) {s : Selector}
    {name : String} (hs : s.problem? earlier name = none) (hscope : s.scope = .current)
    (offset : Nat) : ∃ n, Frame.integer ⟨done, parents⟩ s.scope s.field offset = .ok n := by
  unfold Selector.problem? at hs
  rw [hscope] at hs ⊢
  cases hf : Field.find? earlier s.field with
  | none => simp [hf] at hs
  | some node =>
    have hint : node.isInteger = true := by
      cases node <;> simp_all [Node.isInteger]
    obtain ⟨n, hn⟩ := htr.find? hf hint
    exact ⟨n, Frame.integer_eq_ok.mpr hn⟩

/-- A trailing block field that passed validation finds each of its size sources. -/
theorem Frame.integer_of_sizeSource {done : List (String × Value)} {earlier : List Field}
    (htr : Frame.Tracks done earlier) (parents : List (List (String × Value)))
    {name source : String} (hs : sizeSourceProblem? earlier name source = none) (offset : Nat) :
    ∃ n, Frame.integer ⟨done, parents⟩ .current source offset = .ok n := by
  unfold sizeSourceProblem? at hs
  cases hf : Field.find? earlier source with
  | none => simp [hf] at hs
  | some node =>
    have hint : node.isInteger = true := by
      cases node <;> simp_all [Node.isInteger]
    obtain ⟨n, hn⟩ := htr.find? hf hint
    exact ⟨n, Frame.integer_eq_ok.mpr hn⟩

/-! ## Where a failed decode fails -/

theorem mapM_eq_error {ε α β : Type} {f : α → Except ε β} :
    ∀ {l : List α} {e : ε}, l.mapM f = .error e → ∃ a ∈ l, f a = .error e
  | [], e, h => by simp [pure, Except.pure] at h
  | a :: l, e, h => by
    rw [List.mapM_cons] at h
    rcases bind_eq_error.mp h with ha | ⟨b, -, hrest⟩
    · exact ⟨a, by simp, ha⟩
    · rcases bind_eq_error.mp hrest with hl | ⟨bs, -, hpure⟩
      · obtain ⟨a', ha', he⟩ := mapM_eq_error hl
        exact ⟨a', List.mem_cons_of_mem _ ha', he⟩
      · exact absurd hpure pure_ne_error

/-- Repeated steps fail where one of the steps fails. -/
theorem Window.repeatRead_eq_error {α : Type} {step : Window → Except Error (α × Window)} :
    ∀ {n : Nat} {w : Window} {e : Error}, Window.repeatRead step n w = .error e →
      ∃ u, step u = .error e
  | 0, w, e, h => by simp [Window.repeatRead] at h
  | n + 1, w, e, h => by
    rw [Window.repeatRead_succ] at h
    rcases bind_eq_error.mp h with hw | ⟨⟨a, w'⟩, -, hrest⟩
    · exact ⟨w, hw⟩
    · rcases bind_eq_error.mp hrest with hn | ⟨_, -, hpure⟩
      · exact Window.repeatRead_eq_error hn
      · exact absurd hpure pure_ne_error

/-- Strided steps fail for lack of bytes to skip, or where one of the steps fails. -/
theorem Window.stridedRead_eq_error {α : Type} {step : Window → Except Error (α × Window)}
    {stride : Nat} {start : Window} {count : Nat} {e : Error}
    (h : Window.stridedRead step stride start count = .error e) :
    e.isShort = true ∨ ∃ u, step u = .error e := by
  obtain ⟨i, -, hi⟩ := mapM_eq_error h
  rcases bind_eq_error.mp hi with hadv | ⟨u, -, hstep⟩
  · rw [Window.advance_eq] at hadv
    split at hadv
    · cases hadv
    · cases hadv
      exact .inl rfl
  · rcases bind_eq_error.mp hstep with hu | ⟨_, -, hpure⟩
    · exact .inr ⟨u, hu⟩
    · exact absurd hpure pure_ne_error

theorem Window.ensure_eq_error {w : Window} {n : Nat} {e : Error} (h : w.ensure n = .error e) :
    e.isShort = true := by
  rw [Window.ensure_eq] at h
  split at h
  · cases h
  · cases h
    rfl

theorem Window.advance_eq_error {w : Window} {n : Nat} {e : Error} (h : w.advance n = .error e) :
    e.isShort = true := by
  rw [Window.advance_eq] at h
  split at h
  · cases h
  · cases h
    rfl

/-- A union fails where its selector is looked up, by overflowing a shift of 64 bits or more,
where its arm is decoded, or for lack of bytes. -/
theorem Node.decode_union_eq_error {order : ByteOrder} {frame : Frame} {name : String}
    {sel : Selector} {arms : List Arm} {w : Window} {e : Error}
    (h : Node.decode order frame name (.union sel arms) w = .error e) :
    frame.integer sel.scope sel.field w.address = .error e ∨
      (64 ≤ sel.shift ∧ e = .panic .shiftOverflow) ∨
      (∃ raw, Arm.decodeMatching order frame name (sel.narrow raw) (Arm.maxSize arms) arms w =
        .error e) ∨ e.isShort = true := by
  rw [Node.decode.eq_5] at h
  rcases bind_eq_error.mp h with hint | ⟨raw, -, h⟩
  · exact .inl hint
  rcases bind_eq_error.mp h with hsel | ⟨d, hd, h⟩
  · exact .inr (.inl (Selector.extract_eq_error.mp hsel))
  obtain ⟨-, rfl⟩ := Selector.extract_eq_ok.mp hd
  rcases bind_eq_error.mp h with harm | ⟨⟨armName, v⟩, -, h⟩
  · exact .inr (.inr (.inl ⟨raw, harm⟩))
  · rcases bind_eq_error.mp h with hadv | ⟨next, -, hpure⟩
    · exact .inr (.inr (.inr (Window.advance_eq_error hadv)))
    · exact absurd hpure pure_ne_error

/-- A trailing block fails where its count or stride is looked up, on a stride too small, for
lack of bytes, or where an element fails. -/
theorem Node.decode_trailing_eq_error {order : ByteOrder} {frame : Frame} {name count : String}
    {stride : Option String} {element : Layout} {w : Window} {e : Error}
    (h : Node.decode order frame name (.trailing count stride element) w = .error e) :
    frame.integer .current count w.address = .error e ∨
      (∃ s ∈ stride, frame.integer .current s w.address = .error e) ∨
      (∃ u, Layout.decodeIn frame.enter element u = .error e) ∨
      e.isShort = true ∨ ∃ sv o size, e = .invalidStride sv o size := by
  rw [Node.decode.eq_6] at h
  rcases bind_eq_error.mp h with hc | ⟨n, -, h⟩
  · exact .inl hc
  cases stride with
  | none =>
    simp only [pure_bind, Option.getD_none] at h
    rcases bind_eq_error.mp h with hens | ⟨_, -, h⟩
    · exact .inr (.inr (.inr (.inl (Window.ensure_eq_error hens))))
    · rcases bind_eq_error.mp h with hrep | ⟨⟨items, next⟩, -, hpure⟩
      · exact .inr (.inr (.inl (Window.repeatRead_eq_error hrep)))
      · exact absurd hpure pure_ne_error
  | some s =>
    cases hsv : frame.integer .current s w.address with
    | error e' =>
      simp only [hsv, error_bind] at h
      cases h
      exact .inr (.inl ⟨s, rfl, hsv⟩)
    | ok sv =>
      simp only [hsv, ok_bind] at h
      split at h
      · simp only [throw, throwThe, MonadExceptOf.throw, error_bind] at h
        cases h
        exact .inr (.inr (.inr (.inr ⟨_, _, _, rfl⟩)))
      · simp only [pure_bind, Option.getD_some] at h
        rcases bind_eq_error.mp h with hens | ⟨_, -, h⟩
        · exact .inr (.inr (.inr (.inl (Window.ensure_eq_error hens))))
        · rcases bind_eq_error.mp h with hread | ⟨items, -, h⟩
          · rcases Window.stridedRead_eq_error hread with hshort | hel
            · exact .inr (.inr (.inr (.inl hshort)))
            · exact .inr (.inr (.inl hel))
          · rcases bind_eq_error.mp h with hadv | ⟨next, -, hpure⟩
            · exact .inr (.inr (.inr (.inl (Window.advance_eq_error hadv))))
            · exact absurd hpure pure_ne_error

theorem Layout.decodeIn_eq_error {frame : Frame} {name : String} {order : ByteOrder}
    {fields : List Field} {w : Window} {e : Error}
    (h : Layout.decodeIn frame (.mk name order fields) w = .error e) :
    Field.decodeAll order frame.parents [] 0 fields w = .error e := by
  simp only [Layout.decodeIn] at h
  rcases bind_eq_error.mp h with hall | ⟨_, -, hpure⟩
  · exact hall
  · exact absurd hpure pure_ne_error

/-- A field fails for lack of bytes for its run, in its own node, or in a later field. -/
theorem Field.decodeAll_cons_eq_error {order : ByteOrder} {parents : List (List (String × Value))}
    {done : List (String × Value)} {checked : Nat} {name : String} {node : Node}
    {rest : List Field} {w : Window} {e : Error}
    (h : Field.decodeAll order parents done checked (.mk name node :: rest) w = .error e) :
    e.isShort = true ∨ Node.decode order ⟨done, parents⟩ name node w = .error e ∨
      ∃ v w₁ c, Node.decode order ⟨done, parents⟩ name node w = .ok (v, w₁) ∧
        Field.decodeAll order parents (done ++ [(name, v)]) c rest w₁ = .error e := by
  -- past the run's check, the node and then the later fields
  have hstep : ∀ c, (Node.decode order ⟨done, parents⟩ name node w >>= fun x =>
      Field.decodeAll order parents (done ++ [(name, x.1)]) (c - 1) rest x.2) = .error e →
      Node.decode order ⟨done, parents⟩ name node w = .error e ∨
        ∃ v w₁ c, Node.decode order ⟨done, parents⟩ name node w = .ok (v, w₁) ∧
          Field.decodeAll order parents (done ++ [(name, v)]) c rest w₁ = .error e := by
    intro c h
    rcases bind_eq_error.mp h with hnode | ⟨⟨v, w₁⟩, hok, hrest⟩
    · exact .inl hnode
    · exact .inr ⟨v, w₁, c - 1, hok, hrest⟩
  simp only [Field.decodeAll] at h
  split at h
  · rcases bind_eq_error.mp h with hens | ⟨_, -, h⟩
    · exact .inl (Window.ensure_eq_error hens)
    · simp only [pure_bind] at h
      exact .inr (hstep _ h)
  · simp only [pure_bind] at h
    exact .inr (hstep _ h)

/-! ## Only the loose look-ups fail -/

mutual

/-- A node decoded as a field, or as a union arm (`asArm`), reports an unknown field only for one
of its loose selectors. As a field it passed its own checks against the fields before, which
the frame holds decoded; as an arm it has a fixed size. -/
theorem Node.decode_unknownAmong (order : ByteOrder) (parents : List (List (String × Value)))
    (done : List (String × Value)) (earlier : List Field) (name : String) (asArm : Bool) :
    ∀ (node : Node) (w : Window) (e : Error), node.innerError? = none →
      (asArm = true → node.isVariable = false) →
      (asArm = false → node.problem? earlier name = none ∧ Frame.Tracks done earlier) →
      Node.decode order ⟨done, parents⟩ name node w = .error e →
      e.UnknownAmong (node.looseSelectors asArm)
  | .scalar k, w, e, _, _, _, h => by
    rw [Node.decode_scalar] at h
    split at h
    · cases h
    · cases h
      exact Error.unknownAmong_of_isShort rfl _
  | .flags k bits, w, e, _, _, _, h => by
    rw [Node.decode_flags] at h
    split at h
    · cases h
    · cases h
      exact Error.unknownAmong_of_isShort rfl _
  | .pointer kind target, w, e, _, _, _, h => by
    rw [Node.decode_pointer] at h
    split at h
    · cases h
    · cases h
      exact Error.unknownAmong_of_isShort rfl _
  | .nested l, w, e, hinner, _, _, h => by
    simp only [Node.innerError?] at hinner
    rw [Node.decode.eq_3] at h
    rcases bind_eq_error.mp h with hl | ⟨_, -, hpure⟩
    · exact (Layout.decodeIn_unknownAmong _ l w e hinner hl).mono (by simp [Node.looseSelectors])
    · exact absurd hpure pure_ne_error
  | .union sel arms, w, e, hinner, harm, hfield, h => by
    simp only [Node.innerError?] at hinner
    -- the arms have fixed sizes: by the union's own check, or as arms of a fixed-size arm
    have hvar : Arm.anyVariable arms = false := by
      cases asArm with
      | true => simpa [Node.isVariable] using harm rfl
      | false =>
        have hp := (hfield rfl).1
        simp only [Node.problem?] at hp
        split at hp
        · cases hp
        · exact Arm.anyVariable_of_problem name [] arms (Option.or_eq_none_iff.mp hp).2
    rcases Node.decode_union_eq_error h with hint | ⟨-, rfl⟩ | ⟨raw, harms⟩ | hshort
    · obtain ⟨-, rfl⟩ := Frame.integer_eq_error hint
      rintro n o ⟨rfl, -⟩
      simp only [Node.looseSelectors]
      cases asArm with
      | true => simp
      | false =>
        cases hscope : sel.scope with
        | enclosing => simp
        | current =>
          -- validation found the selector among the fields before, so decoding finds it too
          obtain ⟨hp, htr⟩ := hfield rfl
          simp only [Node.problem?] at hp
          split at hp
          · cases hp
          · obtain ⟨m, hm⟩ := Frame.integer_of_selector htr parents
              (Option.or_eq_none_iff.mp hp).1 hscope w.address
            rw [hm] at hint
            cases hint
    · rintro n o ⟨⟩
    · exact (Arm.decodeMatching_unknownAmong order ⟨done, parents⟩ name _ _ arms w e hvar hinner
        harms).mono (by simp [Node.looseSelectors])
    · exact Error.unknownAmong_of_isShort hshort _
  | .trailing count stride element, w, e, hinner, harm, hfield, h => by
    cases asArm with
    | true => simp [Node.isVariable] at harm
    | false =>
      obtain ⟨hp, htr⟩ := hfield rfl
      simp only [Node.problem?, Option.or_eq_none_iff, List.findSome?_eq_none_iff] at hp
      simp only [Node.innerError?] at hinner
      rcases Node.decode_trailing_eq_error h with hc | ⟨s, hs, hsv⟩ | ⟨u, hel⟩ | hshort |
          ⟨_, _, _, rfl⟩
      · obtain ⟨m, hm⟩ := Frame.integer_of_sizeSource htr parents (hp.1 count (by simp)) w.address
        rw [hm] at hc
        cases hc
      · obtain ⟨m, hm⟩ := Frame.integer_of_sizeSource htr parents
          (hp.1 s (by simp [Option.mem_def.mp hs])) w.address
        rw [hm] at hsv
        cases hsv
      · exact (Layout.decodeIn_unknownAmong _ element u e hinner hel).mono
          (by simp [Node.looseSelectors])
      · exact Error.unknownAmong_of_isShort hshort _
      · rintro n o ⟨⟩

/-- Choosing and decoding an arm reports an unknown field only for a loose selector of the
arms. -/
theorem Arm.decodeMatching_unknownAmong (order : ByteOrder) (frame : Frame) (name : String)
    (selected width : Nat) :
    ∀ (arms : List Arm) (w : Window) (e : Error), Arm.anyVariable arms = false →
      Arm.innerError? arms = none →
      Arm.decodeMatching order frame name selected width arms w = .error e →
      e.UnknownAmong (Arm.looseSelectors arms)
  | [], w, e, _, _, h => by
    simp only [Arm.decodeMatching, Except.error.injEq] at h
    subst h
    rintro n o ⟨⟩
  | .mk v armName node :: rest, w, e, hvar, hinner, h => by
    simp only [Arm.anyVariable, Bool.or_eq_false_iff] at hvar
    simp only [Arm.innerError?, Option.or_eq_none_iff] at hinner
    simp only [Arm.decodeMatching] at h
    split at h
    · rcases bind_eq_error.mp h with hens | ⟨_, -, h⟩
      · exact Error.unknownAmong_of_isShort (Window.ensure_eq_error hens) _
      · rcases bind_eq_error.mp h with hnode | ⟨_, -, hpure⟩
        · exact (Node.decode_unknownAmong order frame.parents frame.current [] armName true node w
            e hinner.1 (fun _ => hvar.1) (fun h => by cases h) hnode).mono
            (by simp [Arm.looseSelectors])
        · exact absurd hpure pure_ne_error
    · exact (Arm.decodeMatching_unknownAmong order frame name selected width rest w e hvar.2
        hinner.2 h).mono (by simp [Arm.looseSelectors])

/-- A record of an accepted layout reports an unknown field only for a loose selector. -/
theorem Layout.decodeIn_unknownAmong (frame : Frame) :
    ∀ (l : Layout) (w : Window) (e : Error), l.validateError? = none →
      Layout.decodeIn frame l w = .error e → e.UnknownAmong l.looseSelectors
  | .mk name order fields, w, e, hval, h => by
    simp only [Layout.validateError?, Option.or_eq_none_iff, Option.map_eq_none_iff] at hval
    exact Field.decodeAll_unknownAmong order frame.parents fields [] [] 0 w e List.Forall₂.nil
      hval.2 hval.1 (Layout.decodeIn_eq_error h)

/-- Fields that pass their checks after `earlier`, decoded after the values `done` of those,
report an unknown field only for a loose selector. -/
theorem Field.decodeAll_unknownAmong (order : ByteOrder) (parents : List (List (String × Value))) :
    ∀ (fields : List Field) (done : List (String × Value)) (earlier : List Field) (checked : Nat)
      (w : Window) (e : Error), Frame.Tracks done earlier →
      Field.firstProblem? earlier fields = none → Field.innerError? fields = none →
      Field.decodeAll order parents done checked fields w = .error e →
      e.UnknownAmong (Field.looseSelectors fields)
  | [], _, _, _, _, _, _, _, _, h => by simp at h
  | .mk name node :: rest, done, earlier, checked, w, e, htr, hp, hinner, h => by
    simp only [Field.firstProblem?, Option.or_eq_none_iff] at hp
    simp only [Field.innerError?, Option.or_eq_none_iff] at hinner
    rcases Field.decodeAll_cons_eq_error h with hshort | hnode | ⟨v, w₁, c, hok, hrest⟩
    · exact Error.unknownAmong_of_isShort hshort _
    · exact (Node.decode_unknownAmong order parents done earlier name false node w e hinner.1
        (fun h => by cases h) (fun _ => ⟨Field.node_problem?_eq_none hp.1, htr⟩) hnode).mono
        (by simp [Field.looseSelectors])
    · -- the field just decoded joins the frame with the value it decoded to
      have htr' := htr.snoc name node (fun hint => Node.decode_selectorBits hok hint)
      exact (Field.decodeAll_unknownAmong order parents rest _ _ c w₁ e htr' hp.2 hinner.2
        hrest).mono (by simp [Field.looseSelectors])

end

/-- Decoding an accepted layout reports an unknown field only for a selector that validation
leaves to decoding: one of enclosing scope, or that of a union placed directly as an arm of
another union. -/
theorem Layout.decodeAt_unknownField_mem_looseSelectors {S : Layout} (hS : S.validate = .ok S)
    {w : Window} {n : String} {o : Nat} (h : S.decodeAt w = .error (.unknownField n o)) :
    n ∈ S.looseSelectors := by
  have hrec : S.decodeRecord w = .error (.unknownField n o) := by
    simp only [Layout.decodeAt] at h
    rcases bind_eq_error.mp h with hr | ⟨_, -, hpure⟩
    · exact hr
    · exact absurd hpure pure_ne_error
  exact Layout.decodeIn_unknownAmong {} S w _ (Layout.validate_eq_ok.mp hS).1 hrec n o rfl

/-- A closed decode that fails is read off by the kernel through its failure, if any. -/
theorem Except.eq_error_of_failure {ε α : Type} {x : Except ε α} {e : ε}
    (h : (match x with | .error e => some e | .ok _ => none) = some e) : x = .error e := by
  cases x <;> simp_all

/-- A record of a selector byte `d`, then a union chosen by `d` whose only arm is a union chosen
by a field `k` that the record does not have. -/
def armSelectorLayout : Layout :=
  .mk "Spec" .little [.mk "d" (.scalar .u8), .mk "u" (.union { field := "d" }
    [.mk 0 "inner" (.union { field := "k" } [.mk 0 "a" (.scalar .u8)])])]

/-- The arm's selector is left to decoding: the layout is accepted, and decoding two zero bytes
reports `k` unknown at the union's address. -/
theorem armSelectorLayout_unknownField_k :
    armSelectorLayout.validate = .ok armSelectorLayout ∧
      armSelectorLayout.decodeAt ⟨⟨#[0, 0]⟩, 0, 0⟩ = .error (.unknownField "k" 1) ∧
      "k" ∈ armSelectorLayout.looseSelectors := by
  have hval : armSelectorLayout.validate = .ok armSelectorLayout :=
    Layout.validate_eq_ok.mpr ⟨by decide, rfl⟩
  have hdec : armSelectorLayout.decodeAt ⟨⟨#[0, 0]⟩, 0, 0⟩ = .error (.unknownField "k" 1) :=
    Except.eq_error_of_failure (by decide +kernel)
  exact ⟨hval, hdec, Layout.decodeAt_unknownField_mem_looseSelectors hval hdec⟩

/-- Validation does not check the selector of a union placed directly as an arm: this layout is
accepted and selects nothing by an enclosing record, yet decoding it reports an unknown field. -/
theorem armSelector_unknownField :
    armSelectorLayout.validateError? = none ∧ armSelectorLayout.usesEnclosing = false ∧
      armSelectorLayout.decodeAt ⟨⟨#[0, 0]⟩, 0, 0⟩ = .error (.unknownField "k" 1) :=
  ⟨by decide, rfl, Except.eq_error_of_failure (by decide +kernel)⟩

end SwiftReflection
