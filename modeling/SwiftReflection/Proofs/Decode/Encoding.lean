import Mathlib
import SwiftReflection.Proofs.Decode.Consumption
/-!
# Encodings of records

`Node.Encodes order frame a node v bs` says that the bytes `bs`, placed at address `a`, are an
encoding of the value `v` of a field of shape `node`, in the byte order `order` of the record
holding the field and with the fields decoded so far and the enclosing records in `frame`:

* an integer or a flag set is its low bytes in the byte order, a signed integer taken modulo
  `2 ^ (8 * width)`; a relative pointer is its 32-bit word;
* an embedded record is its fields' encodings one after the other, in the record's own byte
  order, with the record's address and the bytes it takes;
* a union is the encoding of the first arm carrying the value its selector gives, followed by
  any padding up to the union's width, its selector narrowed without overflowing its shift;
* a trailing block of `n` elements, `n` the value of its count field, is the elements'
  encodings back to back, or with a stride each element padded with any bytes to the stride.

An encoding is a relation rather than a function, because padding is arbitrary. Every encoding
is at least as long as its node's fixed size, which is what lets the decoder's bounds checks
pass on it.
-/

namespace SwiftReflection

/-! ## Integers as bytes -/

/-- The low `width` bytes of `n`, least significant first. -/
def leBytes : Nat → Nat → List UInt8
  | 0, _ => []
  | width + 1, n => (n % 256).toUInt8 :: leBytes width (n / 256)

/-- The low `width` bytes of `n` in a byte order. -/
def ByteOrder.writeUInt : ByteOrder → Nat → Nat → List UInt8
  | .little, width, n => leBytes width n
  | .big, width, n => (leBytes width n).reverse

/-- The `width`-byte two's complement of an integer. -/
def twosComplement (width : Nat) (i : Int) : Nat :=
  (i % (pow2 (8 * width) : Int)).toNat

@[simp] theorem length_leBytes (width n : Nat) : (leBytes width n).length = width := by
  induction width generalizing n <;> simp [leBytes, *]

@[simp] theorem ByteOrder.length_writeUInt (order : ByteOrder) (width n : Nat) :
    (order.writeUInt width n).length = width := by
  cases order <;> simp [ByteOrder.writeUInt]

theorem pow2_eq (n : Nat) : pow2 n = 2 ^ n := rfl

theorem pow2_succ_eight (width : Nat) : pow2 (8 * (width + 1)) = 256 * pow2 (8 * width) := by
  rw [pow2_eq, pow2_eq, Nat.mul_succ, Nat.pow_add]
  omega

theorem ByteOrder.assemble_leBytes (width n : Nat) :
    ByteOrder.assemble .little (leBytes width n) = n % pow2 (8 * width) := by
  induction width generalizing n with
  | zero => simp [ByteOrder.assemble, leBytes, pow2_eq, Nat.mod_one]
  | succ width ih =>
    have ih' := ih (n / 256)
    simp only [ByteOrder.assemble] at ih'
    simp only [ByteOrder.assemble, leBytes, List.foldr_cons, ih', pow2_succ_eight, Nat.mod_mul]
    simp
    omega

/-- The bytes of an integer assemble to its low `width` bytes. -/
theorem ByteOrder.assemble_writeUInt (order : ByteOrder) (width n : Nat) :
    order.assemble (order.writeUInt width n) = n % pow2 (8 * width) := by
  cases order with
  | little => exact ByteOrder.assemble_leBytes width n
  | big =>
    rw [← ByteOrder.assemble_leBytes]
    simp [ByteOrder.assemble, ByteOrder.writeUInt, List.foldl_reverse]

/-- Reading back the bytes of an integer of at most eight bytes gives its low `width` bytes: a
value below `2 ^ 64` keeps all of them. -/
theorem ByteOrder.readUInt_writeUInt (order : ByteOrder) {width : Nat} (hw : width ≤ 8) (n : Nat) :
    order.readUInt (order.writeUInt width n) = n % pow2 (8 * width) := by
  have hle : pow2 (8 * width) ≤ pow2 64 := Nat.pow_le_pow_right (by decide) (by omega)
  have hlt : n % pow2 (8 * width) < pow2 (8 * width) := Nat.mod_lt _ (Nat.two_pow_pos _)
  rw [ByteOrder.readUInt, ByteOrder.assemble_writeUInt, Nat.mod_eq_of_lt (by omega)]

theorem twosComplement_lt (width : Nat) (i : Int) : twosComplement width i < pow2 (8 * width) := by
  have hpos : (0 : Int) < pow2 (8 * width) := by
    have : 0 < pow2 (8 * width) := Nat.two_pow_pos _
    omega
  have hlt := Int.emod_lt_of_pos i hpos
  have hnn := Int.emod_nonneg i (Int.ne_of_gt hpos)
  unfold twosComplement
  omega

/-- Sign extension undoes the two's complement of an integer that fits the width. -/
theorem signExtend_twosComplement {width : Nat} {i : Int} (hw : 0 < width)
    (hlo : -(pow2 (8 * width - 1) : Int) ≤ i) (hhi : i < pow2 (8 * width - 1)) :
    signExtend width (twosComplement width i) = i := by
  have hdouble : pow2 (8 * width) = 2 * pow2 (8 * width - 1) := by
    obtain ⟨m, hm⟩ : ∃ m, 8 * width = m + 1 := ⟨8 * width - 1, by omega⟩
    rw [hm, Nat.add_sub_cancel, pow2_eq, pow2_eq, Nat.pow_succ]
    omega
  have hQ : ((pow2 (8 * width) : Nat) : Int) = 2 * (pow2 (8 * width - 1) : Int) := by
    rw [hdouble]; push_cast; ring
  unfold signExtend twosComplement
  by_cases hi : 0 ≤ i
  · rw [Int.emod_eq_of_lt hi (by omega)]
    rw [if_pos (by omega)]
    omega
  · have hmod : i % (pow2 (8 * width) : Int) = i + pow2 (8 * width) := by
      rw [← Int.add_emod_right, Int.emod_eq_of_lt (by omega) (by omega)]
    rw [hmod, if_neg (by omega)]
    omega

theorem ScalarKind.width_pos (k : ScalarKind) : 0 < k.width := by
  cases k <;> decide

/-! ## The encoding relation -/

mutual

/-- The bytes `bs` at address `a` encode the value `v` of a field of shape `node`. -/
inductive Node.Encodes : ByteOrder → Frame → Nat → Node → Value → List UInt8 → Prop
  | unsigned {order : ByteOrder} {frame : Frame} {a : Nat} {k : ScalarKind} {n : Nat} :
      k.signed = false → n < pow2 (8 * k.width) →
      Node.Encodes order frame a (.scalar k) (.unsigned n) (order.writeUInt k.width n)
  | signed {order : ByteOrder} {frame : Frame} {a : Nat} {k : ScalarKind} {i : Int} :
      k.signed = true → -(pow2 (8 * k.width - 1) : Int) ≤ i → i < pow2 (8 * k.width - 1) →
      Node.Encodes order frame a (.scalar k) (.signed i)
        (order.writeUInt k.width (twosComplement k.width i))
  | flags {order : ByteOrder} {frame : Frame} {a : Nat} {k : ScalarKind} {bits : List FlagBit}
      {raw : Nat} : raw < pow2 (8 * k.width) →
      Node.Encodes order frame a (.flags k bits) (.flags raw bits) (order.writeUInt k.width raw)
  | pointer {order : ByteOrder} {frame : Frame} {a : Nat} {kind : PointerKind} {target : Target}
      (raw : UInt32) :
      Node.Encodes order frame a (.pointer kind target) (.pointer ⟨min a u64Max, raw, kind⟩ target)
        (order.writeUInt 4 raw.toNat)
  | nested {order : ByteOrder} {frame : Frame} {a : Nat} {l : Layout} {r : Record}
      {bs : List UInt8} : Layout.Encodes frame.enter a l r bs →
      Node.Encodes order frame a (.nested l) (Value.ofRecord r) bs
  | union {order : ByteOrder} {frame : Frame} {a : Nat} {sel : Selector} {arms : List Arm}
      {raw d : Nat} {armName : String} {node : Node} {v : Value} {bs pad : List UInt8} :
      (frame.lookup sel.scope sel.field).bind Value.selectorBits? = some raw →
      sel.extract raw = .ok d →
      arms.find? (fun arm => arm.value == d) = some (.mk d armName node) →
      Node.Encodes order frame a node v bs → bs.length + pad.length = Arm.maxSize arms →
      Node.Encodes order frame a (.union sel arms) (.union armName d v) (bs ++ pad)
  | packed {order : ByteOrder} {frame : Frame} {a : Nat} {count : String} {element : Layout}
      {items : List Record} {bs : List UInt8} :
      (frame.lookup .current count).bind Value.selectorBits? = some items.length →
      Layout.PackedEncodes frame.enter a element items bs →
      Node.Encodes order frame a (.trailing count none element)
        (.repeated (items.map Value.ofRecord)) bs
  | strided {order : ByteOrder} {frame : Frame} {a : Nat} {count s : String} {element : Layout}
      {stride : Nat} {items : List Record} {bs : List UInt8} :
      (frame.lookup .current count).bind Value.selectorBits? = some items.length →
      (frame.lookup .current s).bind Value.selectorBits? = some stride →
      Layout.StridedEncodes frame.enter a element stride items bs →
      Node.Encodes order frame a (.trailing count (some s) element)
        (.repeated (items.map Value.ofRecord)) bs

/-- The bytes `bs` at address `a` encode the record `r` of a layout, read in `frame`. -/
inductive Layout.Encodes : Frame → Nat → Layout → Record → List UInt8 → Prop
  | mk {frame : Frame} {a : Nat} {name : String} {order : ByteOrder} {fields : List Field}
      {done : List (String × Value)} {bs : List UInt8} :
      Field.Encodes order frame.parents [] a fields done bs →
      Layout.Encodes frame a (.mk name order fields) ⟨name, min a u64Max, bs.length, done⟩ bs

/-- The bytes `bs` at address `a` encode the fields after `done`, which end up as `done'`. -/
inductive Field.Encodes : ByteOrder → List (List (String × Value)) → List (String × Value) →
    Nat → List Field → List (String × Value) → List UInt8 → Prop
  | nil {order : ByteOrder} {parents : List (List (String × Value))}
      {done : List (String × Value)} {a : Nat} : Field.Encodes order parents done a [] done []
  | cons {order : ByteOrder} {parents : List (List (String × Value))}
      {done done' : List (String × Value)} {a : Nat} {name : String} {node : Node}
      {rest : List Field} {v : Value} {bs bs' : List UInt8} :
      Node.Encodes order ⟨done, parents⟩ a node v bs →
      Field.Encodes order parents (done ++ [(name, v)]) (a + bs.length) rest done' bs' →
      Field.Encodes order parents done a (.mk name node :: rest) done' (bs ++ bs')

/-- The bytes `bs` at address `a` encode records of `element` back to back. -/
inductive Layout.PackedEncodes : Frame → Nat → Layout → List Record → List UInt8 → Prop
  | nil {frame : Frame} {a : Nat} {element : Layout} : Layout.PackedEncodes frame a element [] []
  | cons {frame : Frame} {a : Nat} {element : Layout} {r : Record} {rs : List Record}
      {bs bs' : List UInt8} : Layout.Encodes frame a element r bs →
      Layout.PackedEncodes frame (a + bs.length) element rs bs' →
      Layout.PackedEncodes frame a element (r :: rs) (bs ++ bs')

/-- The bytes `bs` at address `a` encode records of `element`, each padded to `stride`. -/
inductive Layout.StridedEncodes : Frame → Nat → Layout → Nat → List Record → List UInt8 → Prop
  | nil {frame : Frame} {a : Nat} {element : Layout} {stride : Nat} :
      Layout.StridedEncodes frame a element stride [] []
  | cons {frame : Frame} {a : Nat} {element : Layout} {stride : Nat} {r : Record}
      {rs : List Record} {bs pad bs' : List UInt8} : Layout.Encodes frame a element r bs →
      bs.length + pad.length = stride →
      Layout.StridedEncodes frame (a + stride) element stride rs bs' →
      Layout.StridedEncodes frame a element stride (r :: rs) (bs ++ pad ++ bs')

end

/-! ## Encodings cover the fixed size -/

mutual

theorem Node.Encodes.fixedSize_le : ∀ {order : ByteOrder} {frame : Frame} {a : Nat} {node : Node}
    {v : Value} {bs : List UInt8}, Node.Encodes order frame a node v bs →
      node.fixedSize ≤ bs.length
  | _, _, _, _, _, _, .unsigned _ _ => by simp [Node.fixedSize]
  | _, _, _, _, _, _, .signed _ _ _ => by simp [Node.fixedSize]
  | _, _, _, _, _, _, .flags _ => by simp [Node.fixedSize]
  | _, _, _, _, _, _, .pointer _ => by simp [Node.fixedSize]
  | _, _, _, _, _, _, .nested h => by simpa [Node.fixedSize] using h.fixedSize_le
  | _, _, _, _, _, _, .union _ _ _ _ hpad => by simp [Node.fixedSize, ← hpad]
  | _, _, _, _, _, _, .packed _ _ => by simp [Node.fixedSize]
  | _, _, _, _, _, _, .strided _ _ _ => by simp [Node.fixedSize]

theorem Layout.Encodes.fixedSize_le : ∀ {frame : Frame} {a : Nat} {l : Layout} {r : Record}
    {bs : List UInt8}, Layout.Encodes frame a l r bs → l.fixedSize ≤ bs.length
  | _, _, _, _, _, .mk h => by simpa [Layout.fixedSize_mk] using h.sumSize_le

theorem Field.Encodes.sumSize_le : ∀ {order : ByteOrder} {parents : List (List (String × Value))}
    {done : List (String × Value)} {a : Nat} {fields : List Field} {done' : List (String × Value)}
    {bs : List UInt8}, Field.Encodes order parents done a fields done' bs →
      Field.sumSize fields ≤ bs.length
  | _, _, _, _, _, _, _, .nil => by simp [Field.sumSize]
  | _, _, _, _, _, _, _, .cons hnode hrest => by
    have h₁ := hnode.fixedSize_le
    have h₂ := hrest.sumSize_le
    simp only [Field.sumSize, List.length_append]
    omega

theorem Layout.PackedEncodes.fixedSize_le : ∀ {frame : Frame} {a : Nat} {element : Layout}
    {items : List Record} {bs : List UInt8}, Layout.PackedEncodes frame a element items bs →
      items.length * element.fixedSize ≤ bs.length
  | _, _, _, _, _, .nil => by simp
  | _, _, _, _, _, .cons hr hrs => by
    have h₁ := hr.fixedSize_le
    have h₂ := hrs.fixedSize_le
    simp only [List.length_cons, List.length_append, Nat.succ_mul]
    omega

end

/-- A strided block takes its count times its stride. -/
theorem Layout.StridedEncodes.length_eq : ∀ {frame : Frame} {a : Nat} {element : Layout}
    {stride : Nat} {items : List Record} {bs : List UInt8},
    Layout.StridedEncodes frame a element stride items bs → bs.length = items.length * stride
  | _, _, _, _, _, _, .nil => by simp
  | _, _, _, _, _, _, .cons _ hpad hrs => by
    have h := hrs.length_eq
    simp only [List.length_append, List.length_cons, Nat.succ_mul]
    omega

/-- A stride that holds an element is at least the element's fixed size. -/
theorem Layout.StridedEncodes.fixedSize_le : ∀ {frame : Frame} {a : Nat} {element : Layout}
    {stride : Nat} {items : List Record} {bs : List UInt8},
    Layout.StridedEncodes frame a element stride items bs → 0 < items.length →
      element.fixedSize ≤ stride
  | _, _, _, _, _, _, .nil, h => by simp at h
  | _, _, _, _, _, _, .cons hr hpad _, _ => by
    have := hr.fixedSize_le
    omega

end SwiftReflection
