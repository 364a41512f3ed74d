import Mathlib
import SwiftReflection.Decode.Engine
import SwiftReflection.Layout.Check
/-!
# Flag sets: asking for a name and listing the set names

A decoded flag set is a raw integer together with the named masks of its layout, in declaration
order. A flag is set when every bit of its mask is set in the raw value, so a zero mask is
always set (`isSet_iff`). `FlagSet.setNames` lists the names of the set flags in declaration
order (`mem_setNames`); `FlagSet.contains` asks whether the first flag of a name is set
(`contains_iff`).

Validation does not ask the names of a flag set to be distinct, and the two queries part when
one name is given to masks that are not set together: `twinFlags_contains_disagrees` decodes,
from a layout validation accepts, a flag set whose first mask `a` is clear and whose second mask
`a` is set. What holds of every flag set is `contains_agrees_with_setNames`: a name `contains`
finds is listed, and a listed name is found as soon as the masks of that name are set or clear
together, as they are when its name is given to one mask only.
-/

namespace SwiftReflection.FlagSet

variable (f : FlagSet)

/-! ## One mask -/

/-- A mask is set when each of its bits is set in the raw value. -/
theorem isSet_iff (m : Nat) :
    f.isSet m = true ↔ ∀ i, m.testBit i = true → f.raw.testBit i = true := by
  simp only [isSet, beq_iff_eq]
  constructor
  · intro h i hi
    have hbit := congrArg (Nat.testBit · i) h
    simp only [Nat.testBit_and, hi, Bool.and_true] at hbit
    exact hbit
  · intro h
    apply Nat.eq_of_testBit_eq
    intro i
    rw [Nat.testBit_and]
    cases hm : m.testBit i
    · simp
    · simp [h i hm]

@[simp] theorem isSet_zero : f.isSet 0 = true := by
  simp [isSet]

/-! ## The two queries -/

theorem mem_setNames {n : String} :
    n ∈ f.setNames ↔ ∃ b ∈ f.bits, b.name = n ∧ f.isSet b.mask = true := by
  simp only [setNames, List.mem_map, List.mem_filter]
  constructor
  · rintro ⟨b, ⟨hb, hset⟩, rfl⟩
    exact ⟨b, hb, rfl, hset⟩
  · rintro ⟨b, hb, rfl, hset⟩
    exact ⟨b, ⟨hb, hset⟩, rfl⟩

/-- `contains` reads the first flag of the name: it holds exactly when the masks split into
flags of other names, then a set flag of the name, then the rest. -/
theorem contains_iff {n : String} :
    f.contains n = true ↔ ∃ pre b post, f.bits = pre ++ b :: post ∧ (∀ x ∈ pre, x.name ≠ n) ∧
      b.name = n ∧ f.isSet b.mask = true := by
  unfold contains
  constructor
  · intro h
    split at h
    · rename_i b hfind
      obtain ⟨hname, pre, post, hsplit, hpre⟩ := List.find?_eq_some_iff_append.mp hfind
      refine ⟨pre, b, post, hsplit, fun x hx => ?_, by simpa using hname, h⟩
      simpa using hpre x hx
    · cases h
  · rintro ⟨pre, b, post, hsplit, hpre, rfl, hset⟩
    have hfind : f.bits.find? (fun x => x.name == b.name) = some b :=
      List.find?_eq_some_iff_append.mpr ⟨by simp, pre, post, hsplit, fun x hx => by simpa using hpre x hx⟩
    rw [hfind]
    exact hset

theorem mem_setNames_of_contains {n : String} (h : f.contains n = true) : n ∈ f.setNames := by
  obtain ⟨pre, b, post, hsplit, -, hname, hset⟩ := (f.contains_iff).mp h
  exact (f.mem_setNames).mpr ⟨b, by simp [hsplit], hname, hset⟩

/-- A listed name is found by `contains` when the masks of that name are set or clear
together. -/
theorem contains_of_mem_setNames {n : String}
    (hsame : ∀ b ∈ f.bits, ∀ b' ∈ f.bits, b.name = n → b'.name = n → f.isSet b.mask = f.isSet b'.mask)
    (h : n ∈ f.setNames) : f.contains n = true := by
  obtain ⟨b', hb', hname', hset'⟩ := (f.mem_setNames).mp h
  -- some flag has the name, so `contains` looks at the first one
  obtain ⟨b, hfind⟩ := Option.isSome_iff_exists.mp
    (List.find?_isSome (p := fun x => x.name == n) |>.mpr ⟨b', hb', by simpa using hname'⟩)
  have hb := List.mem_of_find?_eq_some hfind
  have hname : b.name = n := by simpa using List.find?_some hfind
  simp only [contains, hfind]
  rw [hsame b hb b' hb' hname hname', hset']

/-- For every flag set: a mask is set when all its bits are set in the raw value (so a zero
mask always is); the set names are the names of the set flags in declaration order; `contains`
holds exactly when the first flag of the name is set; a name it finds is listed; and a listed
name is found when the masks of that name are set or clear together. -/
theorem contains_agrees_with_setNames (n : String) :
    (∀ m, f.isSet m = true ↔ ∀ i, m.testBit i = true → f.raw.testBit i = true) ∧
      f.setNames = (f.bits.filter fun b => f.isSet b.mask).map FlagBit.name ∧
      (n ∈ f.setNames ↔ ∃ b ∈ f.bits, b.name = n ∧ f.isSet b.mask = true) ∧
      (f.contains n = true ↔ ∃ pre b post, f.bits = pre ++ b :: post ∧
        (∀ x ∈ pre, x.name ≠ n) ∧ b.name = n ∧ f.isSet b.mask = true) ∧
      (f.contains n = true → n ∈ f.setNames) ∧
      ((∀ b ∈ f.bits, ∀ b' ∈ f.bits, b.name = n → b'.name = n →
          f.isSet b.mask = f.isSet b'.mask) →
        (f.contains n = true ↔ n ∈ f.setNames)) :=
  ⟨f.isSet_iff, rfl, f.mem_setNames, f.contains_iff, f.mem_setNames_of_contains,
    fun hsame => ⟨f.mem_setNames_of_contains, f.contains_of_mem_setNames hsame⟩⟩

/-- The flags of a field record read from `6`: `var` and `artificial` set. -/
def varArtificialFlags : FlagSet :=
  ⟨6, [⟨"indirect_case", 1⟩, ⟨"var", 2⟩, ⟨"artificial", 4⟩]⟩

/-- In the flags of a field record each name is given to one mask, so asking for `var` and
listing the set names agree. -/
theorem varArtificialFlags_contains_var :
    (∀ b ∈ varArtificialFlags.bits, ∀ b' ∈ varArtificialFlags.bits, b.name = "var" →
      b'.name = "var" → varArtificialFlags.isSet b.mask = varArtificialFlags.isSet b'.mask) ∧
      (varArtificialFlags.contains "var" = true ↔ "var" ∈ varArtificialFlags.setNames) :=
  ⟨by decide +kernel, (contains_agrees_with_setNames _ "var").2.2.2.2.2 (by decide +kernel)⟩

end SwiftReflection.FlagSet

namespace SwiftReflection

/-! ## One name for two masks -/

/-- A layout with one flag set that gives the name `a` to two masks. -/
def twinFlagsLayout : Layout :=
  .mk "Spec" .little [.mk "f" (.flags .u8 [⟨"a", 1⟩, ⟨"a", 2⟩])]

/-- Validation accepts `twinFlagsLayout`, and the flag set it decodes from the byte `2` does not
contain `a`, its first mask `a` being clear, while it lists `a` among its set names, its second
mask `a` being set. -/
theorem twinFlags_contains_disagrees :
    twinFlagsLayout.validate = .ok twinFlagsLayout ∧
      (do
        let (r, _) ← twinFlagsLayout.decodeRecord ⟨⟨#[2]⟩, 0, 0⟩
        let f ← r.flagSet "f"
        pure (f.contains "a", f.setNames)) = Except.ok (false, ["a"]) := by
  refine ⟨?_, by decide +kernel⟩
  have hvalid : twinFlagsLayout.validateError? = none := by decide
  simp [Layout.validate, hvalid]

end SwiftReflection
