import SwiftReflection.Layout.Check
/-!
# Shapes of accepted layouts

Decoding relies on a few facts about the shape of a layout that `Layout.validate` guarantees at
every depth: an embedded record never ends in trailing elements, no union arm varies in size,
and the element of a strided trailing block does not end in trailing elements either.
`Layout.wellShaped` collects them, and `Layout.wellShaped_of_validate` derives them from
validation. Alongside stand two other views of a layout used by the laws of decoding: the nodes
decoded inside one of its records (`Layout.subNodes`), and whether any of them is a union that
looks up its selector in an enclosing record (`Layout.usesEnclosing`).
-/

namespace SwiftReflection

mutual

/-- Whether embedded records and union arms inside the node have fixed sizes, and strided
elements do not end in trailing elements. -/
def Node.wellShaped : Node → Bool
  | .nested l => !l.hasTrailing && Layout.wellShaped l
  | .union _ arms => Arm.wellShaped arms
  | .trailing _ stride element =>
    (stride.isNone || !element.hasTrailing) && Layout.wellShaped element
  | _ => true

/-- Whether every arm has a fixed size and a well-shaped node. -/
def Arm.wellShaped : List Arm → Bool
  | [] => true
  | .mk _ _ node :: rest => !node.isVariable && Node.wellShaped node && Arm.wellShaped rest

/-- Whether every field of the layout has a well-shaped node. -/
def Layout.wellShaped : Layout → Bool
  | .mk _ _ fields => Field.wellShaped fields

/-- Whether every field has a well-shaped node. -/
def Field.wellShaped : List Field → Bool
  | [] => true
  | .mk _ node :: rest => Node.wellShaped node && Field.wellShaped rest

end

mutual

/-- Whether the node contains a union that selects its arm by a field of an enclosing record. -/
def Node.usesEnclosing : Node → Bool
  | .union sel arms => sel.scope == .enclosing || Arm.usesEnclosing arms
  | .nested l => Layout.usesEnclosing l
  | .trailing _ _ element => Layout.usesEnclosing element
  | _ => false

/-- Whether some arm contains a union that selects by an enclosing record. -/
def Arm.usesEnclosing : List Arm → Bool
  | [] => false
  | .mk _ _ node :: rest => Node.usesEnclosing node || Arm.usesEnclosing rest

/-- Whether the layout contains a union that selects by an enclosing record. -/
def Layout.usesEnclosing : Layout → Bool
  | .mk _ _ fields => Field.usesEnclosing fields

/-- Whether some field contains a union that selects by an enclosing record. -/
def Field.usesEnclosing : List Field → Bool
  | [] => false
  | .mk _ node :: rest => Node.usesEnclosing node || Field.usesEnclosing rest

end

mutual

/-- The nodes decoded inside a value of the node: those of embedded records, union arms and
trailing elements, at any depth. -/
def Node.subNodes : Node → List Node
  | .nested l => Layout.subNodes l
  | .union _ arms => Arm.subNodes arms
  | .trailing _ _ element => Layout.subNodes element
  | _ => []

/-- The arms' nodes and the nodes inside them. -/
def Arm.subNodes : List Arm → List Node
  | [] => []
  | .mk _ _ node :: rest => node :: Node.subNodes node ++ Arm.subNodes rest

/-- The nodes decoded inside a record of the layout: its fields' nodes and those inside them. -/
def Layout.subNodes : Layout → List Node
  | .mk _ _ fields => Field.subNodes fields

/-- The fields' nodes and the nodes inside them. -/
def Field.subNodes : List Field → List Node
  | [] => []
  | .mk _ node :: rest => node :: Node.subNodes node ++ Field.subNodes rest

end

/-! ## Validation gives the shape -/

theorem Layout.validate_eq_ok {l l' : Layout} :
    l.validate = .ok l' ↔ l.validateError? = none ∧ l' = l := by
  unfold Layout.validate
  cases h : l.validateError? <;> simp [eq_comm]

/-- A field that passes its checks has a node that passes its own. -/
theorem Field.node_problem?_eq_none {earlier : List Field} {name : String} {node : Node}
    (h : Field.problem? earlier name node = none) : node.problem? earlier name = none := by
  unfold Field.problem? at h
  split at h
  · cases h
  · split at h
    · cases h
    · exact h

/-- Arms that pass their checks have fixed sizes. -/
theorem Arm.anyVariable_of_problem (name : String) :
    ∀ (seen : List Nat) (arms : List Arm), Arm.problem? name seen arms = none →
      Arm.anyVariable arms = false
  | _, [] => fun _ => rfl
  | seen, .mk v armName node :: rest => by
    intro h
    simp only [Arm.problem?] at h
    split at h
    · cases h
    · split at h
      · cases h
      · rename_i hvar
        have hrest : Arm.problem? name (v :: seen) rest = none := by
          split at h
          · split at h
            · cases h
            · exact h
          · exact h
        simp [Arm.anyVariable, hvar, Arm.anyVariable_of_problem name (v :: seen) rest hrest]

mutual

theorem Node.wellShaped_of_fixed :
    ∀ node : Node, node.innerError? = none → node.isVariable = false → node.wellShaped = true
  | .scalar _, _, _ => rfl
  | .flags .., _, _ => rfl
  | .pointer .., _, _ => rfl
  | .nested l, h, hvar => by
    simp only [Node.innerError?] at h
    simp only [Node.isVariable] at hvar
    simp [Node.wellShaped, hvar, Layout.wellShaped_of_validateError l h]
  | .union _ arms, h, hvar => by
    simp only [Node.innerError?] at h
    simp only [Node.isVariable] at hvar
    simp [Node.wellShaped, Arm.wellShaped_of_fixed arms h hvar]
  | .trailing .., _, hvar => by simp [Node.isVariable] at hvar

theorem Node.wellShaped_of_problem (earlier : List Field) (name : String) :
    ∀ node : Node, node.innerError? = none → node.problem? earlier name = none →
      node.wellShaped = true
  | .scalar _, _, _ => rfl
  | .flags .., _, _ => rfl
  | .pointer .., _, _ => rfl
  | .nested l, h, hp => by
    simp only [Node.innerError?] at h
    simp only [Node.problem?] at hp
    split at hp
    · cases hp
    · simp_all [Node.wellShaped, Layout.wellShaped_of_validateError l h]
  | .union _ arms, h, hp => by
    simp only [Node.innerError?] at h
    simp only [Node.problem?] at hp
    split at hp
    · cases hp
    · have harms : Arm.problem? name [] arms = none := (Option.or_eq_none_iff.mp hp).2
      simp [Node.wellShaped,
        Arm.wellShaped_of_fixed arms h (Arm.anyVariable_of_problem name [] arms harms)]
  | .trailing _ stride element, h, hp => by
    simp only [Node.innerError?] at h
    simp only [Node.problem?] at hp
    have hel := (Option.or_eq_none_iff.mp hp).2
    split at hel
    · cases hel
    · split at hel
      · cases hel
      · rename_i hstride
        cases stride <;> simp_all [Node.wellShaped, Layout.wellShaped_of_validateError element h]

theorem Arm.wellShaped_of_fixed :
    ∀ arms : List Arm, Arm.innerError? arms = none → Arm.anyVariable arms = false →
      Arm.wellShaped arms = true
  | [], _, _ => rfl
  | .mk _ _ node :: rest, h, hvar => by
    simp only [Arm.innerError?, Option.or_eq_none_iff] at h
    simp only [Arm.anyVariable, Bool.or_eq_false_iff] at hvar
    simp [Arm.wellShaped, hvar.1, Node.wellShaped_of_fixed node h.1 hvar.1,
      Arm.wellShaped_of_fixed rest h.2 hvar.2]

theorem Layout.wellShaped_of_validateError :
    ∀ l : Layout, l.validateError? = none → l.wellShaped = true
  | .mk name order fields, h => by
    simp only [Layout.validateError?, Option.or_eq_none_iff, Option.map_eq_none_iff] at h
    exact Field.wellShaped_of_firstProblem fields [] h.1 h.2

theorem Field.wellShaped_of_firstProblem :
    ∀ (fields earlier : List Field), Field.innerError? fields = none →
      Field.firstProblem? earlier fields = none → Field.wellShaped fields = true
  | [], _, _, _ => rfl
  | .mk name node :: rest, earlier, h, hp => by
    simp only [Field.innerError?, Option.or_eq_none_iff] at h
    simp only [Field.firstProblem?, Option.or_eq_none_iff] at hp
    simp [Field.wellShaped,
      Node.wellShaped_of_problem earlier name node h.1 (Field.node_problem?_eq_none hp.1),
      Field.wellShaped_of_firstProblem rest _ h.2 hp.2]

end

/-- Every layout that validation accepts is well shaped. -/
theorem Layout.wellShaped_of_validate {l : Layout} (h : l.validate = .ok l) :
    l.wellShaped = true :=
  Layout.wellShaped_of_validateError l (Layout.validate_eq_ok.mp h).1

/-! ## Every node inside a well-shaped layout is well shaped -/

mutual

theorem Node.wellShaped_of_mem_subNodes :
    ∀ node : Node, node.wellShaped = true → ∀ n ∈ node.subNodes, n.wellShaped = true
  | .scalar _, _ => by simp [Node.subNodes]
  | .flags .., _ => by simp [Node.subNodes]
  | .pointer .., _ => by simp [Node.subNodes]
  | .nested l, h => by
    simp only [Node.wellShaped, Bool.and_eq_true] at h
    exact Layout.wellShaped_of_mem_subNodes l h.2
  | .union _ arms, h => Arm.wellShaped_of_mem_subNodes arms h
  | .trailing _ _ element, h => by
    simp only [Node.wellShaped, Bool.and_eq_true] at h
    exact Layout.wellShaped_of_mem_subNodes element h.2

theorem Arm.wellShaped_of_mem_subNodes :
    ∀ arms : List Arm, Arm.wellShaped arms = true → ∀ n ∈ Arm.subNodes arms, n.wellShaped = true
  | [], _ => by simp [Arm.subNodes]
  | .mk _ _ node :: rest, h => by
    simp only [Arm.wellShaped, Bool.and_eq_true] at h
    intro n hn
    simp only [Arm.subNodes, List.cons_append, List.mem_cons, List.mem_append] at hn
    rcases hn with rfl | hn | hn
    · exact h.1.2
    · exact Node.wellShaped_of_mem_subNodes node h.1.2 n hn
    · exact Arm.wellShaped_of_mem_subNodes rest h.2 n hn

theorem Layout.wellShaped_of_mem_subNodes :
    ∀ l : Layout, l.wellShaped = true → ∀ n ∈ l.subNodes, n.wellShaped = true
  | .mk _ _ fields, h => Field.wellShaped_of_mem_subNodes fields h

theorem Field.wellShaped_of_mem_subNodes :
    ∀ fields : List Field, Field.wellShaped fields = true →
      ∀ n ∈ Field.subNodes fields, n.wellShaped = true
  | [], _ => by simp [Field.subNodes]
  | .mk _ node :: rest, h => by
    simp only [Field.wellShaped, Bool.and_eq_true] at h
    intro n hn
    simp only [Field.subNodes, List.cons_append, List.mem_cons, List.mem_append] at hn
    rcases hn with rfl | hn | hn
    · exact h.1
    · exact Node.wellShaped_of_mem_subNodes node h.1 n hn
    · exact Field.wellShaped_of_mem_subNodes rest h.2 n hn

end

end SwiftReflection
