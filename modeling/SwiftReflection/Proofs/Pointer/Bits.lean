import Mathlib
import SwiftReflection.Proofs.Decode.Encoding
import SwiftReflection.Proofs.Layout.Acceptance
/-!
# The bits of a relative pointer

A relative pointer's 32-bit word holds three parts in bits of their own: the indirection flag in
bit 0 when the kind has one, the tag above it, and the distance in the bits above the
`L = flag + tag` low bits (`PointerKind.lowBitCount`). The readers of `RelOffset` take the word
apart; `PointerKind.pack` puts a distance, a tag and a flag together.

`RelOffset.split_lossless` says the two agree: every word is the union of its parts; the
distance is the word with its low bits cleared, so with fewer than 32 low bits it is the signed
word rounded down to a multiple of `2 ^ L` and keeps its sign; and for a kind the checks accept,
packing any parts that fit reads them back. The proofs go bit by bit through `BitVec`.
-/

namespace SwiftReflection

/-! ## Masks and words -/

/-- Bit `i` of the mask of the low `c` bits is set exactly below `c`. -/
theorem lowBits_getElem (c i : Nat) (hi : i < 32) : (lowBits c).toBitVec[i] = decide (i < c) := by
  unfold lowBits
  split
  · show (BitVec.ofNat 32 (2 ^ c - 1))[i] = decide (i < c)
    rw [← BitVec.getLsbD_eq_getElem, BitVec.getLsbD_ofNat, Nat.testBit_two_pow_sub_one]
    simp [hi]
  · have hall : (0xFFFFFFFF : UInt32).toBitVec = BitVec.allOnes 32 := by decide
    simp only [hall, BitVec.getElem_allOnes]
    simp
    omega

/-- Bit `i` of a number's low word. -/
theorem Nat.toUInt32_getElem (n i : Nat) (hi : i < 32) : n.toUInt32.toBitVec[i] = n.testBit i := by
  show (BitVec.ofNat 32 n)[i] = n.testBit i
  rw [← BitVec.getLsbD_eq_getElem, BitVec.getLsbD_ofNat]
  simp [hi]

theorem lowBits_toNat (c : Nat) : (lowBits c).toNat = 2 ^ min c 32 - 1 := by
  unfold lowBits
  split
  · rename_i hc
    have hlt : 2 ^ c - 1 < 2 ^ 32 := by
      have := Nat.pow_lt_pow_right (by omega : 1 < 2) hc
      omega
    rw [Nat.min_eq_left hc.le]
    simp only [pow2, Nat.pow_eq, Nat.toUInt32, UInt32.toNat_ofNat', Nat.mod_eq_of_lt hlt]
  · rename_i hc
    rw [Nat.min_eq_right (by omega)]
    rfl

/-- A signed word is zero exactly when its bits are. -/
theorem signed32_eq_zero_iff (x : UInt32) : signed32 x = 0 ↔ x = 0 := by
  have hx : x.toNat < 2 ^ 32 := x.toNat_lt
  rw [← UInt32.toNat_inj, UInt32.toNat_zero]
  unfold signed32 pow2
  simp only [Nat.pow_eq]
  split <;> omega

/-- Rounding a word down to a multiple of `2 ^ L`, `L < 32`, rounds its signed value down to the
same multiple: clearing low bits in two's complement keeps the sign. -/
theorem signed32_of_round {x y : UInt32} {L : Nat} (hL : L < 32)
    (hy : y.toNat = x.toNat / 2 ^ L * 2 ^ L) :
    signed32 y = signed32 x / 2 ^ L * 2 ^ L := by
  have hx : x.toNat < 2 ^ 32 := x.toNat_lt
  have hp : 0 < 2 ^ L := Nat.two_pow_pos L
  have hle : x.toNat / 2 ^ L * 2 ^ L ≤ x.toNat := Nat.div_mul_le_self _ _
  have hdvd : 2 ^ L ∣ 2 ^ 31 := Nat.pow_dvd_pow 2 (by omega)
  unfold signed32 pow2
  simp only [Nat.pow_eq, hy]
  by_cases hsmall : x.toNat < 2 ^ 31
  · rw [if_pos (by omega), if_pos hsmall]
    push_cast
    rfl
  · -- the sign bit survives: `2 ^ 31` is itself a multiple of `2 ^ L`
    have hsign : 2 ^ 31 ≤ x.toNat / 2 ^ L * 2 ^ L := by
      calc 2 ^ 31 = 2 ^ 31 / 2 ^ L * 2 ^ L := (Nat.div_mul_cancel hdvd).symm
        _ ≤ x.toNat / 2 ^ L * 2 ^ L :=
          Nat.mul_le_mul_right _ (Nat.div_le_div_right (by omega))
    have hdvd' : (2 ^ L : Int) ∣ 4294967296 := by
      have h : (2 : Int) ^ L ∣ 2 ^ 32 := pow_dvd_pow 2 (by omega)
      simpa using h
    rw [if_neg (by omega), if_neg hsmall]
    push_cast
    rw [Int.sub_ediv_of_dvd _ hdvd', Int.sub_mul, Int.ediv_mul_cancel hdvd']

/-- The 32-bit two's complement of an integer, as an integer. -/
theorem twosComplement_four_cast (d : Int) : ((twosComplement 4 d : Nat) : Int) = d % 2 ^ 32 := by
  unfold twosComplement pow2
  exact Int.toNat_of_nonneg (Int.emod_nonneg d (by norm_num))

/-- A multiple of `2 ^ L` has no bits below `L` in its 32-bit two's complement. -/
theorem twosComplement_testBit_of_dvd {d : Int} {L i : Nat} (hdvd : (2 : Int) ^ L ∣ d)
    (hL : L ≤ 32) (hi : i < L) : (twosComplement 4 d).testBit i = false := by
  have h32 : (2 : Int) ^ L ∣ 2 ^ 32 := pow_dvd_pow 2 hL
  -- the word is a multiple of `2 ^ L` too
  have hword : twosComplement 4 d % 2 ^ L = 0 := by
    have hmod : (d % 2 ^ 32) % 2 ^ L = 0 := by
      rw [Int.emod_emod_of_dvd d h32]
      exact Int.emod_eq_zero_of_dvd hdvd
    have : ((twosComplement 4 d % 2 ^ L : Nat) : Int) = 0 := by
      push_cast
      rw [twosComplement_four_cast]
      exact hmod
    exact_mod_cast this
  have hbit := Nat.testBit_mod_two_pow (twosComplement 4 d) L i
  rw [hword, Nat.zero_testBit, decide_eq_true hi, Bool.true_and] at hbit
  exact hbit.symm

/-- A signed word is the sign extension of its four bytes. -/
theorem signed32_eq_signExtend (x : UInt32) : signed32 x = signExtend 4 x.toNat := rfl

/-- Bit 0 of a word, as the flag test reads it. -/
theorem and_one_beq_one (x : UInt32) : (x &&& (1 : UInt32) == 1) = x.toBitVec[0] := by
  have hand : x &&& (1 : UInt32) = if x.toBitVec[0] then 1 else 0 := by
    apply UInt32.toBitVec_inj.mp
    ext i hi
    rcases Nat.eq_zero_or_pos i with rfl | hpos
    · cases hx : x.toBitVec[0] <;> simp [hx]
    · cases x.toBitVec[0] <;> simp [Nat.pos_iff_ne_zero.mp hpos]
  rw [hand]
  cases x.toBitVec[0] <;> decide

/-! ## Kinds of pointers -/

namespace PointerKind

/-- How many low bits of the word a pointer of this kind keeps out of its distance. -/
def lowBitCount : PointerKind → Nat
  | .direct => 0
  | .indirectable => 1
  | .tagPacked t ind => t + if ind then 1 else 0

/-- How many bits the tag of a pointer of this kind has. -/
def tagBits : PointerKind → Nat
  | .tagPacked t _ => t
  | _ => 0

/-- Bit 0 of the word when it flags an indirection, else no bit. -/
def flagBit (k : PointerKind) : UInt32 :=
  if k.indirectable? then 1 else 0

theorem lowMask_eq (k : PointerKind) : k.lowMask = lowBits k.lowBitCount := by
  cases k <;> rfl

theorem flagBit_toNat (k : PointerKind) : k.flagBit.toNat = if k.indirectable? then 1 else 0 := by
  unfold flagBit
  split <;> rfl

/-- The tag sits between the flag and the distance. -/
theorem lowBitCount_eq (k : PointerKind) : k.lowBitCount = k.flagBit.toNat + k.tagBits := by
  cases k with
  | direct => rfl
  | indirectable => rfl
  | tagPacked t ind =>
    cases ind <;> simp [lowBitCount, tagBits, flagBit_toNat, indirectable?, Nat.add_comm]

/-- The word that stores a distance, a tag above the flag, and the flag. -/
def pack (k : PointerKind) (delta : Int) (tag : Nat) (indirect : Bool) : UInt32 :=
  (twosComplement 4 delta).toUInt32 ||| (tag.toUInt32 <<< k.flagBit) ||| (if indirect then 1 else 0)

/-- The tag a pointer of this kind reads when its tag bits hold `n`: none without tag bits. -/
def tagOf (k : PointerKind) (n : Nat) : Option Nat :=
  match k with
  | .tagPacked .. => some n
  | _ => none

/-- Bit `i` of a packed word comes from the distance, the tag or the flag. -/
theorem pack_getElem (k : PointerKind) (delta : Int) (tag : Nat) (indirect : Bool) (i : Nat)
    (hi : i < 32) :
    (k.pack delta tag indirect).toBitVec[i] = ((twosComplement 4 delta).testBit i ||
      (decide (k.flagBit.toNat ≤ i) && tag.testBit (i - k.flagBit.toNat)) ||
      (indirect && decide (i = 0))) := by
  have hshift : (k.flagBit.toBitVec % 32).toNat = k.flagBit.toNat := by
    unfold flagBit
    split <;> rfl
  simp only [pack, UInt32.toBitVec_or, BitVec.getElem_or, UInt32.toBitVec_shiftLeft,
    BitVec.shiftLeft_eq', hshift, BitVec.getElem_shiftLeft, Nat.toUInt32_getElem _ _ hi,
    Nat.toUInt32_getElem tag (i - k.flagBit.toNat) (by omega)]
  have hflag :
      (if indirect then (1 : UInt32) else 0).toBitVec[i] = (indirect && decide (i = 0)) := by
    cases indirect <;> simp
  rw [hflag]
  by_cases hs : i < k.flagBit.toNat
  · simp [hs, Nat.not_le_of_lt hs]
  · simp [hs, Nat.le_of_not_lt hs]

end PointerKind

/-! ## Reading a word -/

namespace RelOffset

variable (o : RelOffset)

/-- The distance keeps the bits of the word from the low-bit count up. -/
theorem deltaBits_getElem (i : Nat) (hi : i < 32) :
    o.deltaBits.toBitVec[i] = (o.raw.toBitVec[i] && decide (o.kind.lowBitCount ≤ i)) := by
  by_cases h : i < o.kind.lowBitCount
  · simp [deltaBits, PointerKind.lowMask_eq, lowBits_getElem _ _ hi, h]
  · simp [deltaBits, PointerKind.lowMask_eq, lowBits_getElem _ _ hi, h, Nat.le_of_not_lt h]

/-- The tag, moved back above the flag, keeps the bits of the word between the flag and the
distance. -/
theorem tagWord_getElem (i : Nat) (hi : i < 32) :
    (((o.tag?.getD 0).toUInt32 <<< o.kind.flagBit).toBitVec)[i] =
      (decide (o.kind.flagBit.toNat ≤ i) && decide (i < o.kind.lowBitCount) &&
        o.raw.toBitVec[i]) := by
  obtain ⟨f, raw, k⟩ := o
  cases k with
  | direct =>
    simp [RelOffset.tag?, PointerKind.flagBit, PointerKind.lowBitCount, PointerKind.indirectable?]
  | indirectable =>
    simp [RelOffset.tag?, PointerKind.flagBit, PointerKind.lowBitCount, PointerKind.indirectable?]
    omega
  | tagPacked t ind =>
    cases ind with
    | false =>
      simp [RelOffset.tag?, PointerKind.flagBit, PointerKind.lowBitCount, PointerKind.indirectable?,
        UInt32.ofNat_toNat, lowBits_getElem _ _ hi, Bool.and_comm]
    | true =>
      have hone : ((1 : UInt32).toBitVec % 32).toNat = 1 := by decide
      simp only [RelOffset.tag?, PointerKind.flagBit, PointerKind.lowBitCount,
        PointerKind.indirectable?, if_true, Option.getD_some, Nat.toUInt32, UInt32.ofNat_toNat,
        UInt32.toBitVec_shiftLeft, UInt32.toBitVec_and, UInt32.toBitVec_shiftRight,
        BitVec.shiftLeft_eq', BitVec.ushiftRight_eq', hone, BitVec.getElem_shiftLeft,
        BitVec.getElem_and, BitVec.getElem_ushiftRight]
      rcases Nat.eq_zero_or_pos i with rfl | hpos
      · simp
      · have hone' : UInt32.toNat 1 = 1 := rfl
        rw [lowBits_getElem _ _ (by omega), show 1 + (i - 1) = i by omega,
          BitVec.getLsbD_eq_getElem hi, hone']
        have hslot : (i - 1 < t) = (i ≤ t) := propext (by omega)
        have hflag : 1 ≤ i := hpos
        cases raw.toBitVec[i] <;> simp [Nat.pos_iff_ne_zero.mp hpos, hflag, hslot]

/-- The flag keeps bit 0 of the word when it marks an indirection. -/
theorem flagWord_getElem (i : Nat) (hi : i < 32) :
    (o.raw &&& o.kind.flagBit).toBitVec[i] =
      (decide (i < o.kind.flagBit.toNat) && o.raw.toBitVec[i]) := by
  unfold PointerKind.flagBit
  split
  · simp [Bool.and_comm]
  · simp

/-- The word is its distance, its tag above the flag, and its flag, each in bits of its own. -/
theorem deltaBits_or_tag_or_flag :
    o.deltaBits ||| ((o.tag?.getD 0).toUInt32 <<< o.kind.flagBit) ||| (o.raw &&& o.kind.flagBit) =
      o.raw := by
  apply UInt32.toBitVec_inj.mp
  ext i hi
  have hcount := o.kind.lowBitCount_eq
  simp only [UInt32.toBitVec_or, BitVec.getElem_or, deltaBits_getElem o i hi,
    tagWord_getElem o i hi, flagWord_getElem o i hi]
  cases o.raw.toBitVec[i]
  · simp
  · simp
    omega

/-- The distance's bits are the word's with its low bits cleared, all of them from 32 on. -/
theorem deltaBits_toBitVec :
    o.deltaBits.toBitVec =
      o.raw.toBitVec >>> min o.kind.lowBitCount 32 <<< min o.kind.lowBitCount 32 := by
  ext i hi
  rw [deltaBits_getElem o i hi, BitVec.getElem_shiftLeft, BitVec.getElem_ushiftRight]
  by_cases h : o.kind.lowBitCount ≤ i
  · rw [show min o.kind.lowBitCount 32 + (i - min o.kind.lowBitCount 32) = i by omega,
      BitVec.getLsbD_eq_getElem hi]
    simp [h, show ¬ i < min o.kind.lowBitCount 32 by omega]
  · simp [h, show i < min o.kind.lowBitCount 32 by omega]

/-- The distance's word is the word rounded down to a multiple of `2 ^ min L 32`, `L` the
kind's low-bit count. -/
theorem deltaBits_toNat :
    o.deltaBits.toNat =
      o.raw.toNat / 2 ^ min o.kind.lowBitCount 32 * 2 ^ min o.kind.lowBitCount 32 := by
  have hlt : o.raw.toNat < 2 ^ 32 := o.raw.toNat_lt
  have hle : o.raw.toNat / 2 ^ min o.kind.lowBitCount 32 * 2 ^ min o.kind.lowBitCount 32 ≤
      o.raw.toNat := Nat.div_mul_le_self _ _
  rw [← UInt32.toNat_toBitVec, deltaBits_toBitVec, BitVec.toNat_shiftLeft,
    BitVec.toNat_ushiftRight, UInt32.toNat_toBitVec, Nat.shiftLeft_eq, Nat.shiftRight_eq_div_pow,
    Nat.mod_eq_of_lt (by omega)]

/-- With fewer than 32 low bits, the distance is the signed word rounded down to a multiple of
`2 ^ L`. -/
theorem delta_eq_round (hL : o.kind.lowBitCount < 32) :
    o.delta = o.rawValue / 2 ^ o.kind.lowBitCount * 2 ^ o.kind.lowBitCount :=
  signed32_of_round hL (by rw [deltaBits_toNat, Nat.min_eq_left hL.le])

/-- With fewer than 32 low bits, the distance has the sign of the word. -/
theorem delta_neg_iff (hL : o.kind.lowBitCount < 32) : o.delta < 0 ↔ o.rawValue < 0 := by
  have hp : (0 : Int) < 2 ^ o.kind.lowBitCount := by positivity
  have hle := Int.ediv_mul_le o.rawValue (ne_of_gt hp)
  rw [delta_eq_round o hL]
  constructor
  · intro hneg
    by_contra hnn
    have := Int.mul_nonneg (Int.ediv_nonneg (not_lt.mp hnn) hp.le) hp.le
    omega
  · intro hneg
    omega

theorem isNull_iff : o.isNull = true ↔ o.delta = 0 := by
  simp [isNull, delta, signed32_eq_zero_iff]

/-- A tag fits in the kind's tag bits. -/
theorem tag_lt : ∀ n ∈ o.tag?, n < 2 ^ o.kind.tagBits := by
  intro n hn
  obtain ⟨f, raw, k⟩ := o
  cases k with
  | tagPacked t ind =>
    simp only [RelOffset.tag?, Option.mem_def, Option.some.injEq] at hn
    subst hn
    have hmask : (lowBits t).toNat < 2 ^ t := by
      rw [lowBits_toNat]
      have := Nat.pow_le_pow_right (by omega : 0 < 2) (Nat.min_le_left t 32)
      have := Nat.two_pow_pos (min t 32)
      omega
    rw [UInt32.toNat_and]
    exact lt_of_le_of_lt Nat.and_le_right hmask
  | direct => simp [RelOffset.tag?] at hn
  | indirectable => simp [RelOffset.tag?] at hn

end RelOffset

/-! ## Packing a distance, a tag and a flag -/

/-- What the parts of a packed word may hold: for a kind the checks accept, a distance that is
a multiple of `2 ^ L` in the signed 32-bit range, a tag within the tag bits, and a flag only
where the kind has one. -/
structure PointerKind.Packable (k : PointerKind) (d : Int) (tag : Nat) (b : Bool) : Prop where
  sound : k.Sound
  ge : -(2 ^ 31 : Int) ≤ d
  lt : d < 2 ^ 31
  dvd : (2 : Int) ^ k.lowBitCount ∣ d
  tag_lt : tag < 2 ^ k.tagBits
  flag : b = true → k.indirectable? = true

/-- An accepted kind keeps at most 30 low bits. -/
theorem PointerKind.lowBitCount_le_of_sound {k : PointerKind} (h : k.Sound) :
    k.lowBitCount ≤ 30 := by
  cases k with
  | direct => decide
  | indirectable => decide
  | tagPacked t ind => exact h.2

/-- A packed flag is bit 0 of a kind that has one. -/
theorem PointerKind.Packable.flagBit_toNat {k : PointerKind} {d : Int} {tag : Nat}
    (h : k.Packable d tag true) : k.flagBit.toNat = 1 := by
  simp [PointerKind.flagBit_toNat, h.flag rfl]

namespace RelOffset

variable {field : Nat} {k : PointerKind} {d : Int} {tag : Nat} {b : Bool}

theorem deltaBits_pack (h : k.Packable d tag b) :
    (⟨field, k.pack d tag b, k⟩ : RelOffset).deltaBits = (twosComplement 4 d).toUInt32 := by
  have hL := PointerKind.lowBitCount_le_of_sound h.sound
  have hcount := k.lowBitCount_eq
  apply UInt32.toBitVec_inj.mp
  ext i hi
  rw [deltaBits_getElem _ i hi, PointerKind.pack_getElem _ _ _ _ i hi, Nat.toUInt32_getElem _ _ hi]
  by_cases hLi : k.lowBitCount ≤ i
  · -- above the low bits only the distance has bits
    have htag : tag.testBit (i - k.flagBit.toNat) = false :=
      Nat.testBit_eq_false_of_lt
        (lt_of_lt_of_le h.tag_lt (Nat.pow_le_pow_right (by omega) (by omega)))
    have hflag : (b && decide (i = 0)) = false := by
      cases b with
      | false => rfl
      | true =>
        have := h.flagBit_toNat
        simp only [Bool.true_and, decide_eq_false_iff_not]
        omega
    simp [htag, hflag, hLi]
  · simp [hLi, twosComplement_testBit_of_dvd h.dvd (by omega) (Nat.lt_of_not_le hLi)]

theorem delta_pack (h : k.Packable d tag b) :
    (⟨field, k.pack d tag b, k⟩ : RelOffset).delta = d := by
  have hword : ((twosComplement 4 d).toUInt32).toNat = twosComplement 4 d :=
    UInt32.toNat_ofNat_of_lt' (twosComplement_lt 4 d)
  rw [delta, deltaBits_pack h, signed32_eq_signExtend, hword]
  exact signExtend_twosComplement (by omega) h.ge h.lt

theorem isIndirect_pack (h : k.Packable d tag b) :
    (⟨field, k.pack d tag b, k⟩ : RelOffset).isIndirect = b := by
  have hcount := k.lowBitCount_eq
  have hflag := k.flagBit_toNat
  simp only [isIndirect, and_one_beq_one, PointerKind.pack_getElem _ _ _ _ 0 (by omega)]
  cases hind : k.indirectable? with
  | false =>
    cases b with
    | false => rfl
    | true => exact absurd (h.flag rfl) (by simp [hind])
  | true =>
    -- with a flag, bit 0 is below the distance and the tag
    simp only [hind, if_true] at hflag
    have hL : 0 < k.lowBitCount := by omega
    simp [twosComplement_testBit_of_dvd h.dvd
      (by have := PointerKind.lowBitCount_le_of_sound h.sound; omega) hL, hflag]

theorem tag?_pack (h : k.Packable d tag b) :
    (⟨field, k.pack d tag b, k⟩ : RelOffset).tag? = k.tagOf tag := by
  cases k with
  | direct => rfl
  | indirectable => rfl
  | tagPacked t ind =>
    have hL := PointerKind.lowBitCount_le_of_sound h.sound
    -- the tag's bits lie between the flag and the distance
    have hcount : (PointerKind.tagPacked t ind).flagBit.toNat + t =
        (PointerKind.tagPacked t ind).lowBitCount :=
      (PointerKind.tagPacked t ind).lowBitCount_eq.symm
    have hbound : tag < 2 ^ t := h.tag_lt
    -- the bits above the flag hold the tag
    have hbits : ((PointerKind.tagPacked t ind).pack d tag b >>> (if ind then 1 else 0) &&&
        lowBits t) = tag.toUInt32 := by
      apply UInt32.toBitVec_inj.mp
      ext i hi
      have hs : ((if ind then (1 : UInt32) else 0).toBitVec % 32).toNat =
          (PointerKind.tagPacked t ind).flagBit.toNat := by
        cases ind <;> rfl
      rw [UInt32.toBitVec_and, BitVec.getElem_and, UInt32.toBitVec_shiftRight,
        BitVec.ushiftRight_eq', BitVec.getElem_ushiftRight, hs, lowBits_getElem _ _ hi,
        Nat.toUInt32_getElem _ _ hi]
      by_cases hit : i < t
      · have hdist := twosComplement_testBit_of_dvd h.dvd (by omega)
          (by omega : (PointerKind.tagPacked t ind).flagBit.toNat + i <
            (PointerKind.tagPacked t ind).lowBitCount)
        have hnoflag :
            (b && decide ((PointerKind.tagPacked t ind).flagBit.toNat + i = 0)) = false := by
          cases b with
          | false => rfl
          | true => simp [h.flagBit_toNat]
        rw [BitVec.getLsbD_eq_getElem (by omega), PointerKind.pack_getElem _ _ _ _ _ (by omega),
          hdist, hnoflag, Nat.add_sub_cancel_left]
        simp [hit]
      · simp [hit, Nat.testBit_eq_false_of_lt (lt_of_lt_of_le hbound
          (Nat.pow_le_pow_right (by omega) (Nat.le_of_not_lt hit)))]
    have hfits : tag < 2 ^ 32 := lt_of_lt_of_le hbound (Nat.pow_le_pow_right (by omega) (by omega))
    have htag : tag.toUInt32.toNat = tag := UInt32.toNat_ofNat_of_lt' hfits
    simp only [RelOffset.tag?, hbits, htag, PointerKind.tagOf]

/-- A relative pointer's word splits without loss into its distance, its tag and its flag.
Every word is the distance's bits, the tag above the flag and the flag, each in bits of its own;
the distance is the word with its low `min L 32` bits cleared, `L` the kind's low-bit count, so
with fewer than 32 low bits it is the signed word rounded down to a multiple of `2 ^ L` and has
its sign; the tag fits its bits; the pointer is null exactly at distance zero, indirect exactly
when its kind has a flag and bit 0 is set, and leads to its field plus its distance. Conversely,
for a kind the checks accept, packing a distance, a tag and a flag that fit reads them back. -/
theorem split_lossless :
    (∀ o : RelOffset,
      o.deltaBits ||| ((o.tag?.getD 0).toUInt32 <<< o.kind.flagBit) ||| (o.raw &&& o.kind.flagBit) =
          o.raw ∧
        o.deltaBits.toNat =
          o.raw.toNat / 2 ^ min o.kind.lowBitCount 32 * 2 ^ min o.kind.lowBitCount 32 ∧
        (o.kind.lowBitCount < 32 →
          o.delta = o.rawValue / 2 ^ o.kind.lowBitCount * 2 ^ o.kind.lowBitCount ∧
            (o.delta < 0 ↔ o.rawValue < 0)) ∧
        (∀ n ∈ o.tag?, n < 2 ^ o.kind.tagBits) ∧
        (o.isNull = true ↔ o.delta = 0) ∧
        (o.isIndirect = true ↔ o.kind.indirectable? = true ∧ o.raw &&& 1 = 1) ∧
        o.target = o.field + o.delta) ∧
    ∀ (field : Nat) (k : PointerKind) (d : Int) (tag : Nat) (b : Bool), k.Packable d tag b →
      (⟨field, k.pack d tag b, k⟩ : RelOffset).delta = d ∧
        (⟨field, k.pack d tag b, k⟩ : RelOffset).tag? = k.tagOf tag ∧
        (⟨field, k.pack d tag b, k⟩ : RelOffset).isIndirect = b ∧
        (⟨field, k.pack d tag b, k⟩ : RelOffset).target = field + d := by
  refine ⟨fun o => ⟨deltaBits_or_tag_or_flag o, deltaBits_toNat o,
    fun hL => ⟨delta_eq_round o hL, delta_neg_iff o hL⟩, tag_lt o, isNull_iff o, ?_, rfl⟩,
    fun field k d tag b h => ⟨delta_pack h, tag?_pack h, isIndirect_pack h, ?_⟩⟩
  · simp [isIndirect]
  · rw [target, delta_pack h]

/-- A pointer 32 bytes back with a one-bit tag of 0 and its flag set: its word packs and reads
back, and its distance keeps the word's sign. -/
theorem negativeTagged_splits :
    (PointerKind.tagPacked 1 true).Packable (-32) 0 true ∧
      (PointerKind.tagPacked 1 true).pack (-32) 0 true = 0xFFFFFFE1 ∧
      (⟨0x1040, 0xFFFFFFE1, .tagPacked 1 true⟩ : RelOffset).delta = -32 ∧
      (⟨0x1040, 0xFFFFFFE1, .tagPacked 1 true⟩ : RelOffset).tag? = some 0 ∧
      (⟨0x1040, 0xFFFFFFE1, .tagPacked 1 true⟩ : RelOffset).isIndirect = true ∧
      (⟨0x1040, 0xFFFFFFE1, .tagPacked 1 true⟩ : RelOffset).target = 0x1020 ∧
      ((⟨0x1040, 0xFFFFFFE1, .tagPacked 1 true⟩ : RelOffset).delta < 0 ↔
        (⟨0x1040, 0xFFFFFFE1, .tagPacked 1 true⟩ : RelOffset).rawValue < 0) := by
  have hpack : (PointerKind.tagPacked 1 true).Packable (-32) 0 true :=
    ⟨by simp [PointerKind.Sound, maxPointerLowBits], by norm_num, by norm_num,
      ⟨-8, by simp [PointerKind.lowBitCount]⟩, by decide, fun _ => rfl⟩
  have hword : (PointerKind.tagPacked 1 true).pack (-32) 0 true = 0xFFFFFFE1 := by decide
  obtain ⟨hdelta, htag, hind, htarget⟩ := split_lossless.2 0x1040 _ _ _ _ hpack
  rw [hword] at hdelta htag hind htarget
  refine ⟨hpack, hword, hdelta, htag, hind, by rw [htarget]; norm_num, ?_⟩
  exact ((split_lossless.1 ⟨0x1040, 0xFFFFFFE1, .tagPacked 1 true⟩).2.2.1 (by decide)).2

end RelOffset

end SwiftReflection
