import Mathlib
import SwiftReflection.Proofs.Decode.Encoding
/-!
# Decoding undoes encoding

A record encoded at a window's position decodes to itself, whatever bytes follow it, and the
window moves past exactly its encoding. The proof follows the encoding relation: one case per
kind of node, and for records, field lists and the two kinds of trailing blocks one case per
constructor, each decoded in the frame the encoding was made in. The decoder's bounds checks
all pass because an encoding is at least as long as the fixed size the checks ask for.

The buffer is assumed shorter than the largest 64-bit size, as every buffer in memory is: only
then does a strided block's saturated byte count equal the bytes it takes.
-/

namespace SwiftReflection

/-- A window whose next bytes are `bs`, placed at address `a`, in a buffer shorter than the
largest 64-bit size. -/
structure Window.Reads (w : Window) (a : Nat) (bs : List UInt8) : Prop where
  address_eq : w.origin + w.pos = a
  lead : bs <+: w.rest
  small : w.data.size < u64Max

namespace Window.Reads

variable {w : Window} {a : Nat} {bs bs' : List UInt8}

theorem left (h : w.Reads a (bs ++ bs')) : w.Reads a bs :=
  ⟨h.address_eq, (List.prefix_append bs bs').trans h.lead, h.small⟩

theorem right (h : w.Reads a (bs ++ bs')) :
    { w with pos := w.pos + bs.length }.Reads (a + bs.length) bs' := by
  obtain ⟨t, ht⟩ := h.lead
  refine ⟨?_, ⟨t, ?_⟩, h.small⟩
  · simp only [← h.address_eq]
    omega
  · rw [Window.rest_move, ← ht]
    simp

theorem length_le (h : w.Reads a bs) : bs.length ≤ w.remaining := by
  simpa using h.lead.length_le

theorem address (h : w.Reads a bs) : w.address = min a u64Max := by
  simp [Window.address, h.address_eq]

/-- The next bytes of an encoded integer of at most eight bytes read back as its low bytes. -/
theorem readUInt {order : ByteOrder} {width n : Nat} (hw : width ≤ 8)
    (h : w.Reads a (order.writeUInt width n)) :
    order.readUInt (w.rest.take width) = n % pow2 (8 * width) := by
  have htake := List.prefix_iff_eq_take.mp h.lead
  simp only [ByteOrder.length_writeUInt] at htake
  rw [← htake, ByteOrder.readUInt_writeUInt order hw]

end Window.Reads

/-! ## One case per constructor of the encoding -/

mutual

theorem Node.Encodes.decode : ∀ {order : ByteOrder} {frame : Frame} {a : Nat} {node : Node}
    {v : Value} {bs : List UInt8}, Node.Encodes order frame a node v bs →
    ∀ (name : String) (w : Window), w.Reads a bs →
      Node.decode order frame name node w = .ok (v, { w with pos := w.pos + bs.length })
  | _, _, _, _, _, _, .unsigned hk hn, name, w, hr => by
    rw [Node.decode_scalar, if_pos (by simpa using hr.length_le)]
    simp [hk, hr.readUInt (ScalarKind.width_le_eight _), Nat.mod_eq_of_lt hn]
  | _, _, _, _, _, _, .signed hk hlo hhi, name, w, hr => by
    rw [Node.decode_scalar, if_pos (by simpa using hr.length_le)]
    simp [hk, hr.readUInt (ScalarKind.width_le_eight _), Nat.mod_eq_of_lt (twosComplement_lt _ _),
      signExtend_twosComplement (ScalarKind.width_pos _) hlo hhi]
  | _, _, _, _, _, _, .flags hn, name, w, hr => by
    rw [Node.decode_flags, if_pos (by simpa using hr.length_le)]
    simp [hr.readUInt (ScalarKind.width_le_eight _), Nat.mod_eq_of_lt hn]
  | _, _, _, _, _, _, .pointer raw, name, w, hr => by
    rw [Node.decode_pointer, if_pos (by simpa using hr.length_le)]
    have hraw : raw.toNat < pow2 (8 * 4) := UInt32.toNat_lt raw
    simp [hr.readUInt (by decide), Nat.mod_eq_of_lt hraw, hr.address]
  | _, _, _, _, _, _, .nested hl, name, w, hr =>
    Node.decode_nested_eq_ok.mpr ⟨_, hl.decodeIn w hr, rfl⟩
  | _, _, _, _, _, _, @Node.Encodes.union order frame _ sel arms raw _ armName _ v _ _ hraw hsel
      hfind hnode hpad, name, w, hr => by
    obtain ⟨hshift, rfl⟩ := Selector.extract_eq_ok.mp hsel
    have hwidth : Arm.maxSize arms ≤ w.remaining := by
      have := hr.length_le
      simp only [List.length_append] at this
      omega
    have harm : Arm.decodeMatching order frame name (sel.narrow raw) (Arm.maxSize arms) arms w =
        .ok (armName, v) :=
      Arm.decodeMatching_eq_ok.mpr ⟨_, hfind, hwidth, _, hnode.decode _ w hr.left⟩
    rw [List.length_append, hpad]
    exact Node.decode_union_eq_ok.mpr
      ⟨_, _, _, Frame.integer_eq_ok.mpr hraw, hshift, harm, hwidth, rfl, rfl⟩
  | _, _, _, _, _, _, .packed hcount hitems, name, w, hr => by
    have hmin := (saturate64_le _).trans (hitems.fixedSize_le.trans hr.length_le)
    exact Node.decode_packed_eq_ok.mpr
      ⟨_, _, Frame.integer_eq_ok.mpr hcount, hmin, hitems.repeatRead w hr, rfl⟩
  | _, _, _, _, _, _, .strided hcount hstride hitems, name, w, hr => by
    have hlen := hitems.length_eq
    have hmin : saturate64 (_ * _) ≤ w.remaining :=
      (saturate64_le _).trans (hlen ▸ hr.length_le)
    -- the block's byte count does not saturate, as the buffer is shorter than `u64Max`
    have hsat := saturate64_of_le hmin (Nat.lt_of_le_of_lt (Nat.sub_le _ _) hr.small)
    refine Node.decode_strided_eq_ok.mpr ⟨_, _, _, Frame.integer_eq_ok.mpr hcount,
      Frame.integer_eq_ok.mpr hstride, hitems.fixedSize_le, hmin, hitems.stridedRead w hr, rfl, ?_⟩
    rw [hsat, hlen]

theorem Layout.Encodes.decodeIn : ∀ {frame : Frame} {a : Nat} {l : Layout} {r : Record}
    {bs : List UInt8}, Layout.Encodes frame a l r bs → ∀ (w : Window), w.Reads a bs →
      Layout.decodeIn frame l w = .ok (r, { w with pos := w.pos + bs.length })
  | _, _, _, _, _, .mk hfields, w, hr =>
    Layout.decodeIn_eq_ok.mpr ⟨_, hfields.decodeAll 0 w hr, by simp [hr.address]⟩

theorem Field.Encodes.decodeAll : ∀ {order : ByteOrder} {parents : List (List (String × Value))}
    {done : List (String × Value)} {a : Nat} {fields : List Field} {done' : List (String × Value)}
    {bs : List UInt8}, Field.Encodes order parents done a fields done' bs →
    ∀ (checked : Nat) (w : Window), w.Reads a bs →
      Field.decodeAll order parents done checked fields w =
        .ok (done', { w with pos := w.pos + bs.length })
  | _, _, _, _, _, _, _, .nil, checked, w, _ => by simp
  | _, _, _, _, _, _, _, .cons hnode hrest, checked, w, hr => by
    -- whichever field starts a run, the run's fixed size is within the encoding
    have hrun : (Field.fixedRun (.mk _ _ :: _)).1 ≤ w.remaining :=
      (Field.fixedRun_le_sumSize _).trans
        ((Field.Encodes.cons hnode hrest).sumSize_le.trans hr.length_le)
    refine Field.decodeAll_cons_eq_ok.mpr ⟨fun _ => hrun, _, _, hnode.decode _ w hr.left, ?_⟩
    rw [hrest.decodeAll _ _ hr.right]
    simp [Nat.add_assoc]

theorem Layout.PackedEncodes.repeatRead : ∀ {frame : Frame} {a : Nat} {element : Layout}
    {items : List Record} {bs : List UInt8}, Layout.PackedEncodes frame a element items bs →
    ∀ (w : Window), w.Reads a bs →
      Window.repeatRead (Layout.decodeIn frame element) items.length w =
        .ok (items, { w with pos := w.pos + bs.length })
  | _, _, _, _, _, .nil, w, _ => by simp [Window.repeatRead]
  | _, _, _, _, _, .cons hr hrs, w, hw => by
    rw [List.length_cons]
    refine Window.repeatRead_succ_eq_ok.mpr ⟨_, _, _, hr.decodeIn w hw.left, ?_, rfl⟩
    rw [hrs.repeatRead _ hw.right]
    simp [Nat.add_assoc]

theorem Layout.StridedEncodes.stridedRead : ∀ {frame : Frame} {a : Nat} {element : Layout}
    {stride : Nat} {items : List Record} {bs : List UInt8},
    Layout.StridedEncodes frame a element stride items bs → ∀ (w : Window), w.Reads a bs →
      Window.stridedRead (Layout.decodeIn frame element) stride w items.length = .ok items
  | _, _, _, _, _, _, .nil, w, _ => by simp [Window.stridedRead]
  | _, _, _, _, _, _, .cons hr hpad hrs, w, hw => by
    -- the element and its padding take one stride; the others follow from there
    have hnext := hw.right
    rw [List.length_append, hpad] at hnext
    have hle := hw.left.length_le
    rw [List.length_append, hpad] at hle
    exact Window.stridedRead_succ hle ⟨_, hr.decodeIn w hw.left.left⟩ (hrs.stridedRead _ hnext)

end

/-- Decoding undoes encoding: a record encoded at a window's position, in a buffer shorter than
the largest 64-bit size, decodes to itself whatever bytes follow it, and the window moves past
exactly its encoding. -/
theorem Layout.decodeAt_of_encodes {S : Layout} {r : Record} {bs : List UInt8} {w : Window}
    (henc : Layout.Encodes {} (w.origin + w.pos) S r bs) (hlead : bs <+: w.rest)
    (hsmall : w.data.size < u64Max) :
    S.decodeAt w = .ok (Value.ofRecord r, { w with pos := w.pos + bs.length }) := by
  exact Layout.decodeAt_eq_ok.mpr ⟨r, henc.decodeIn w ⟨rfl, hlead, hsmall⟩, rfl⟩

/-- The bytes of a generic requirement whose flags select its same-type arm. -/
theorem genericRequirement_encodes :
    Layout.Encodes {} 0 (Catalog.genericRequirement .little)
      ⟨"GenericRequirementDescriptor", 0, 12,
        [("flags", .flags 0x81 [⟨"has_key_argument", 0x80⟩, ⟨"has_extra_argument", 0x40⟩]),
         ("param", .pointer ⟨4, 16, .direct⟩ .symbolic),
         ("constraint", .union "same_type" 1 (.pointer ⟨8, 8, .direct⟩ .symbolic))]⟩
      [0x81, 0, 0, 0, 16, 0, 0, 0, 8, 0, 0, 0] := by
  -- the bytes split field by field, as the encodings of the fields are appended
  change Layout.Encodes {} 0 _
    ⟨_, _, ([0x81, 0, 0, 0] ++ ([16, 0, 0, 0] ++ (([8, 0, 0, 0] ++ []) ++ [])) : List UInt8).length, _⟩
    ([0x81, 0, 0, 0] ++ ([16, 0, 0, 0] ++ (([8, 0, 0, 0] ++ []) ++ [])))
  refine .mk (.cons (.flags ?_) (.cons (.pointer 16)
    (.cons (@Node.Encodes.union _ _ _ _ _ 0x81 _ _ _ _ _ _ ?_ ?_ ?_ (.pointer 8) ?_) .nil)))
  · decide
  · rfl
  -- the low five bits of `0x81` select arm `1`
  · decide
  · rfl
  · decide

/-- The generic requirement decodes from its bytes. -/
theorem genericRequirement_decodeAt_encoding :
    (Catalog.genericRequirement .little).decodeAt
        ⟨⟨#[0x81, 0, 0, 0, 16, 0, 0, 0, 8, 0, 0, 0]⟩, 0, 0⟩ =
      .ok (Value.ofRecord ⟨"GenericRequirementDescriptor", 0, 12,
          [("flags", .flags 0x81 [⟨"has_key_argument", 0x80⟩, ⟨"has_extra_argument", 0x40⟩]),
           ("param", .pointer ⟨4, 16, .direct⟩ .symbolic),
           ("constraint", .union "same_type" 1 (.pointer ⟨8, 8, .direct⟩ .symbolic))]⟩,
        ⟨⟨#[0x81, 0, 0, 0, 16, 0, 0, 0, 8, 0, 0, 0]⟩, 0, 12⟩) := by
  refine @Layout.decodeAt_of_encodes _ _ _ ⟨⟨#[0x81, 0, 0, 0, 16, 0, 0, 0, 8, 0, 0, 0]⟩, 0, 0⟩
    genericRequirement_encodes ?_ (by decide)
  rw [Window.rest_eq, ByteArray.toList_eq_data_toList]
  exact ⟨[], rfl⟩

/-- A union placed directly as an alternative of another union may repeat a discriminant value:
the layout is accepted, and the bytes `02 01`, the 16-bit encoding of `258` for alternative `b`,
decode as alternative `a`, the first of that value, holding `2`. -/
theorem repeatedInnerArm_decodes_first :
    (Layout.mk "Spec" .little [.mk "d" (.scalar .u8), .mk "u" (.union { field := "d" }
      [.mk 0 "outer" (.union { field := "d" }
        [.mk 0 "a" (.scalar .u8), .mk 0 "b" (.scalar .u16)])])]).validateError? = none ∧
    (Layout.mk "Spec" .little [.mk "d" (.scalar .u8), .mk "u" (.union { field := "d" }
      [.mk 0 "outer" (.union { field := "d" }
        [.mk 0 "a" (.scalar .u8), .mk 0 "b" (.scalar .u16)])])]).decodeAt ⟨⟨#[0, 2, 1]⟩, 0, 0⟩ =
      .ok (Value.ofRecord ⟨"Spec", 0, 3, [("d", .unsigned 0),
        ("u", .union "outer" 0 (.union "a" 0 (.unsigned 2)))]⟩, ⟨⟨#[0, 2, 1]⟩, 0, 3⟩) := by
  refine ⟨by decide, ?_⟩
  -- the bytes encode alternative `a` padded to the inner union's width
  have henc : Layout.Encodes {} 0 (Layout.mk "Spec" .little [.mk "d" (.scalar .u8),
      .mk "u" (.union { field := "d" } [.mk 0 "outer" (.union { field := "d" }
        [.mk 0 "a" (.scalar .u8), .mk 0 "b" (.scalar .u16)])])])
      ⟨"Spec", 0, ([0] ++ (([2] ++ [1] ++ []) ++ []) : List UInt8).length, [("d", .unsigned 0),
        ("u", .union "outer" 0 (.union "a" 0 (.unsigned 2)))]⟩
      ([0] ++ (([2] ++ [1] ++ []) ++ [])) := by
    refine .mk (.cons (.unsigned ?_ ?_) (.cons (@Node.Encodes.union _ _ _ _ _ 0 _ _
      (.union { field := "d" } [.mk 0 "a" (.scalar .u8), .mk 0 "b" (.scalar .u16)]) _ _ _ ?_ ?_ ?_
      (@Node.Encodes.union _ _ _ _ _ 0 _ _ (.scalar .u8) _ _ _ ?_ ?_ ?_ (.unsigned ?_ ?_) ?_) ?_) .nil))
    all_goals first | decide | rfl
  have h := henc.decodeIn ⟨⟨#[0, 2, 1]⟩, 0, 0⟩ ⟨rfl, by
    rw [Window.rest_eq, ByteArray.toList_eq_data_toList]
    exact ⟨[], rfl⟩, by decide⟩
  simp only [Layout.decodeAt, Layout.decodeRecord, h]
  rfl

end SwiftReflection
