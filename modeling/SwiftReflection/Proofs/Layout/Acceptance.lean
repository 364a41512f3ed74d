import Mathlib
import SwiftReflection.Layout.Check
/-!
# Which layouts are accepted

A layout's fields are checked one by one as they are appended, and the first problem found is
the answer (`Layout.check`). This module says, apart from that procedure, what an accepted field
list is (`Field.WellFormed`): the names are distinct, the trailing blocks come after every fixed
field, and each node is well formed after the fields before it. An embedded record has no
trailing elements; a union has arms, with distinct values and fixed sizes, tag-packed pointer
arms reserving between 1 and 30 low bits, and a selector in its own record naming an earlier
integer or flag set; a trailing block is sized by earlier plain integers and repeats a
non-empty element, one without trailing elements when it is strided; a tag-packed pointer
reserves between 1 and 30 low bits.

`Layout.check_iff_wellFormed` says that checking accepts exactly the well-formed lists, and
refuses any other for the problem of its first field that breaks well-formedness, the fields
before it being well formed; that problem names the field, or, for a tag-packed pointer arm,
the arm.

The checker compares a new field with the one just before it for the trailing rule, and looks
up the first earlier field of a name; both agree with the declarative rules because the names
before a field are already distinct. The induction runs over the fields from the last one
back, the way `Field.firstProblem?` grows them.
-/

namespace SwiftReflection

/-! ## Well-formed fields -/

/-- A tag-packed pointer reserves at least one tag bit, and at most `maxPointerLowBits` low bits
with its indirection bit; other pointers reserve nothing. -/
def PointerKind.Sound : PointerKind → Prop
  | .tagPacked t ind => 1 ≤ t ∧ t + (if ind then 1 else 0) ≤ maxPointerLowBits
  | _ => True

/-- A node a union can select by: an integer or a flag set. -/
def Node.isInteger : Node → Bool
  | .scalar _ | .flags .. => true
  | _ => false

/-- A node a trailing block can be sized by: a plain integer. -/
def Node.isScalar : Node → Bool
  | .scalar _ => true
  | _ => false

/-- Some field of `earlier` is called `name`, with a node of the kind `kind` accepts. -/
def Field.Declares (earlier : List Field) (name : String) (kind : Node → Bool) : Prop :=
  ∃ f ∈ earlier, f.name = name ∧ kind f.node = true

/-- A union arm of fixed size that, if it is a pointer, is a sound one. -/
def Arm.Acceptable (a : Arm) : Prop :=
  a.node.isVariable = false ∧ ∀ kind target, a.node = .pointer kind target → kind.Sound

/-- The node of a field appended after the fields `earlier` is well formed. -/
def Node.WellFormed (earlier : List Field) : Node → Prop
  | .nested l => l.hasTrailing = false
  | .union s arms =>
    arms ≠ [] ∧ (s.scope = .current → Field.Declares earlier s.field Node.isInteger) ∧
      (arms.map Arm.value).Nodup ∧ ∀ a ∈ arms, a.Acceptable
  | .trailing count stride element =>
    Field.Declares earlier count Node.isScalar ∧
      (∀ s ∈ stride, Field.Declares earlier s Node.isScalar) ∧
      0 < Layout.fixedSize element ∧ (stride.isSome → element.hasTrailing = false)
  | .pointer kind _ => kind.Sound
  | .scalar _ | .flags .. => True

/-- A well-formed field list: distinct names, trailing blocks only after every fixed field, and
every node well formed after the fields before it. -/
structure Field.WellFormed (fields : List Field) : Prop where
  nodup : (fields.map Field.name).Nodup
  trailingLast : ∃ fixed blocks, fields = fixed ++ blocks ∧
    (∀ f ∈ fixed, f.node.isTrailing = false) ∧ ∀ f ∈ blocks, f.node.isTrailing = true
  nodes : ∀ before f after, fields = before ++ f :: after → f.node.WellFormed before

/-- The field (or union arm) a problem is reported at. -/
def LayoutProblem.subject : LayoutProblem → String
  | .duplicateField n | .fixedAfterTrailing n | .nestedTrailing n _ | .noArms n => n
  | .selectorNotInteger _ n | .selectorUndeclared _ n | .repeatedArm n _ | .armNotFixed _ n => n
  | .sizeNotScalar _ n | .sizeUndeclared _ n | .emptyElement n | .stridedVariable n => n
  | .tagBits n _ _ => n

/-! ## One check at a time -/

theorem PointerKind.problem?_eq_none_iff (name : String) (kind : PointerKind) :
    kind.problem? name = none ↔ kind.Sound := by
  cases kind with
  | tagPacked t ind =>
    simp only [PointerKind.problem?, PointerKind.Sound, maxPointerLowBits]
    split <;> simp_all <;> omega
  | _ => simp [PointerKind.problem?, PointerKind.Sound]

/-- Once the names of `earlier` are distinct, the first field of a name is the only one, so the
checker's look-up finds a field of the right kind exactly when one is declared. -/
theorem Field.declares_iff {earlier : List Field} (hnd : (earlier.map Field.name).Nodup)
    (name : String) (kind : Node → Bool) :
    Field.Declares earlier name kind ↔ ∃ n, Field.find? earlier name = some n ∧ kind n = true := by
  unfold Field.Declares Field.find?
  constructor
  · rintro ⟨f, hf, hname, hkind⟩
    cases hfind : earlier.find? (fun g => g.name == name) with
    | none =>
      have := List.find?_eq_none.mp hfind f hf
      simp [hname] at this
    | some g =>
      have hg := List.mem_of_find?_eq_some hfind
      have hgname : g.name = name := by simpa using List.find?_some hfind
      have : g = f := List.inj_on_of_nodup_map hnd hg hf (hgname.trans hname.symm)
      exact ⟨g.node, rfl, this ▸ hkind⟩
  · rintro ⟨n, hfind, hkind⟩
    obtain ⟨g, hg, rfl⟩ := Option.map_eq_some_iff.mp hfind
    exact ⟨g, List.mem_of_find?_eq_some hg, by simpa using List.find?_some hg, hkind⟩

theorem Selector.problem?_eq_none_iff {earlier : List Field}
    (hnd : (earlier.map Field.name).Nodup) (name : String) (s : Selector) :
    s.problem? earlier name = none ↔
      (s.scope = .current → Field.Declares earlier s.field Node.isInteger) := by
  rw [Field.declares_iff hnd]
  unfold Selector.problem?
  cases s.scope with
  | enclosing => simp
  | current =>
    cases Field.find? earlier s.field with
    | none => simp
    | some n => cases n <;> simp [Node.isInteger]

theorem sizeSourceProblem?_eq_none_iff {earlier : List Field}
    (hnd : (earlier.map Field.name).Nodup) (name source : String) :
    sizeSourceProblem? earlier name source = none ↔
      Field.Declares earlier source Node.isScalar := by
  rw [Field.declares_iff hnd]
  unfold sizeSourceProblem?
  cases Field.find? earlier source with
  | none => simp
  | some n => cases n <;> simp [Node.isScalar]

/-- One arm passes when its value is new, it has a fixed size, and it is no unsound pointer;
the arms after it are then checked with its value seen. -/
theorem Arm.problem?_cons_eq_none_iff (name : String) (seen : List Nat) (v : Nat)
    (armName : String) (node : Node) (rest : List Arm) :
    Arm.problem? name seen (.mk v armName node :: rest) = none ↔
      v ∉ seen ∧ (Arm.mk v armName node).Acceptable ∧ Arm.problem? name (v :: seen) rest = none := by
  simp only [Arm.problem?, Arm.Acceptable, Arm.node]
  by_cases hseen : v ∈ seen
  · simp [hseen]
  · by_cases hvar : node.isVariable = true
    · simp [hseen, hvar]
    · simp only [hseen, hvar, List.contains_iff_mem, if_false, not_false_eq_true, true_and,
        Bool.not_eq_true] at *
      cases node with
      | pointer kind target =>
        have hkind : (∀ k t, Node.pointer kind target = .pointer k t → k.Sound) ↔ kind.Sound :=
          ⟨fun h => h kind target rfl, fun h k t heq => by cases heq; exact h⟩
        simp only [Bool.false_eq_true, if_false]
        rw [hkind, ← PointerKind.problem?_eq_none_iff armName kind]
        cases kind.problem? armName <;> simp
      | _ => simp

/-- The arms pass exactly when their values are distinct and new, and each is acceptable. -/
theorem Arm.problem?_eq_none_iff (name : String) :
    ∀ (seen : List Nat) (arms : List Arm), Arm.problem? name seen arms = none ↔
      (∀ a ∈ arms, a.value ∉ seen) ∧ (arms.map Arm.value).Nodup ∧ ∀ a ∈ arms, a.Acceptable
  | _, [] => by simp [Arm.problem?]
  | seen, .mk v armName node :: rest => by
    rw [Arm.problem?_cons_eq_none_iff, Arm.problem?_eq_none_iff name (v :: seen) rest]
    simp only [List.mem_cons, forall_eq_or_imp, List.map_cons, List.nodup_cons, List.mem_map,
      Arm.value, not_exists, not_and, not_or]
    constructor
    · rintro ⟨hv, hacc, hnew, hnd, hrest⟩
      exact ⟨⟨hv, fun a ha => (hnew a ha).2⟩, ⟨fun a ha h => (hnew a ha).1 h, hnd⟩, hacc, hrest⟩
    · rintro ⟨⟨hv, hnew⟩, ⟨hfresh, hnd⟩, hacc, hrest⟩
      exact ⟨hv, hacc, fun a ha => ⟨fun h => hfresh a ha h, hnew a ha⟩, hnd, hrest⟩

/-- A node's own check passes exactly when it is well formed after the earlier fields. -/
theorem Node.problem?_eq_none_iff {earlier : List Field} (hnd : (earlier.map Field.name).Nodup)
    (name : String) (node : Node) :
    node.problem? earlier name = none ↔ node.WellFormed earlier := by
  cases node with
  | scalar _ => simp [Node.problem?, Node.WellFormed]
  | flags k bits => simp [Node.problem?, Node.WellFormed]
  | nested l => cases h : l.hasTrailing <;> simp [Node.problem?, Node.WellFormed, h]
  | pointer kind _ => exact PointerKind.problem?_eq_none_iff name kind
  | union s arms =>
    simp only [Node.problem?, Node.WellFormed]
    by_cases harms : arms = []
    · simp [harms]
    · have hnonempty : arms.isEmpty = false := List.isEmpty_eq_false_iff.mpr harms
      rw [if_neg (by simp [hnonempty]), Option.or_eq_none_iff,
        Selector.problem?_eq_none_iff hnd, Arm.problem?_eq_none_iff]
      simp [harms]
  | trailing count stride element =>
    simp only [Node.problem?, Node.WellFormed, Option.or_eq_none_iff,
      List.findSome?_eq_none_iff, sizeSourceProblem?_eq_none_iff hnd, List.mem_cons,
      forall_eq_or_imp, Option.mem_toList]
    -- the size sources are checked first, then the element
    have hel : (if Layout.fixedSize element == 0 then some (LayoutProblem.emptyElement name)
        else if stride.isSome && element.hasTrailing then some (.stridedVariable name)
        else none) = none ↔
        0 < Layout.fixedSize element ∧ (stride.isSome → element.hasTrailing = false) := by
      split
      · simp_all
      · rename_i hsize
        have hpos : 0 < Layout.fixedSize element := by
          simp only [beq_iff_eq] at hsize
          omega
        split <;> simp_all
    rw [hel]
    simp only [Option.mem_def, and_assoc]

/-- A field passes its checks exactly when its name is new, it is not a fixed field after a
trailing block, and its node is well formed. -/
theorem Field.problem?_eq_none_iff {before : List Field} (hnd : (before.map Field.name).Nodup)
    (name : String) (node : Node) :
    Field.problem? before name node = none ↔
      name ∉ before.map Field.name ∧
        (∀ g ∈ before.getLast?, g.node.isTrailing = true → node.isTrailing = true) ∧
        node.WellFormed before := by
  unfold Field.problem?
  have hdup : before.any (fun f => f.name == name) = true ↔ name ∈ before.map Field.name := by
    simp only [List.any_eq_true, beq_iff_eq, List.mem_map]
  by_cases hname : name ∈ before.map Field.name
  · simp [hdup.mpr hname, hname]
  · have hfresh : before.any (fun f => f.name == name) = false := by
      simpa [hdup] using hname
    rw [hfresh, ← Node.problem?_eq_none_iff hnd name node]
    cases hlast : before.getLast? with
    | none => simp [hname]
    | some g => cases hg : g.node.isTrailing <;> cases node.isTrailing <;> simp [hname, hg]

/-! ## Growing the field list -/

theorem Field.firstProblem?_append (earlier fs gs : List Field) :
    Field.firstProblem? earlier (fs ++ gs) =
      (Field.firstProblem? earlier fs).or (Field.firstProblem? (earlier ++ fs) gs) := by
  induction fs generalizing earlier with
  | nil => simp [Field.firstProblem?]
  | cons f fs ih =>
    cases f with
    | mk name node => simp [Field.firstProblem?, ih, Option.or_assoc]

/-- Appending one field adds its own problem after those of the fields before it. -/
theorem Field.firstProblem?_snoc (fs : List Field) (f : Field) :
    Field.firstProblem? [] (fs ++ [f]) =
      (Field.firstProblem? [] fs).or (Field.problem? fs f.name f.node) := by
  cases f with
  | mk name node => simp [Field.firstProblem?_append, Field.firstProblem?, Field.name, Field.node]

theorem Field.nodup_snoc {fs : List Field} {f : Field} :
    ((fs ++ [f]).map Field.name).Nodup ↔
      (fs.map Field.name).Nodup ∧ f.name ∉ fs.map Field.name := by
  rw [List.map_append, List.nodup_append_comm]
  simp [and_comm]

/-- The trailing blocks of `fs ++ [f]` come last exactly when they do in `fs` and `f` is not a
fixed field right after a trailing block: the checker's look at the last field is enough. -/
theorem Field.trailingLast_snoc {fs : List Field} {f : Field} :
    (∃ fixed blocks, fs ++ [f] = fixed ++ blocks ∧
        (∀ g ∈ fixed, g.node.isTrailing = false) ∧ ∀ g ∈ blocks, g.node.isTrailing = true) ↔
      (∃ fixed blocks, fs = fixed ++ blocks ∧
        (∀ g ∈ fixed, g.node.isTrailing = false) ∧ ∀ g ∈ blocks, g.node.isTrailing = true) ∧
      (∀ g ∈ fs.getLast?, g.node.isTrailing = true → f.node.isTrailing = true) := by
  constructor
  · rintro ⟨fixed, blocks, hsplit, hfixed, hblocks⟩
    rcases List.eq_nil_or_concat blocks with rfl | ⟨bs, b, rfl⟩
    · -- `f` is fixed, and so is every field of `fs`
      rw [List.append_nil] at hsplit
      have hall : ∀ g ∈ fs ++ [f], g.node.isTrailing = false := hsplit ▸ hfixed
      refine ⟨⟨fs, [], by simp, fun g hg => hall g (by simp [hg]), by simp⟩, ?_⟩
      intro g hg htr
      have := hall g (List.mem_append_left _ (List.mem_of_getLast? hg))
      simp_all
    · -- `f` is the last trailing block
      simp only [List.concat_eq_append] at hsplit hblocks
      rw [← List.append_assoc] at hsplit
      obtain ⟨hfs, hfb⟩ := List.append_inj' hsplit rfl
      obtain rfl := List.singleton_inj.mp hfb
      refine ⟨⟨fixed, bs, hfs, hfixed, fun g hg => hblocks g (by simp [hg])⟩, ?_⟩
      intro _ _ _
      exact hblocks _ (by simp)
  · rintro ⟨⟨fixed, blocks, rfl, hfixed, hblocks⟩, hlast⟩
    cases hf : f.node.isTrailing with
    | true =>
      refine ⟨fixed, blocks ++ [f], by simp, hfixed, ?_⟩
      intro g hg
      rcases List.mem_append.mp hg with hg | hg
      · exact hblocks g hg
      · rw [List.mem_singleton.mp hg, hf]
    | false =>
      -- no trailing block can come before `f`, so `blocks` is empty
      have hnil : blocks = [] := by
        rcases List.eq_nil_or_concat blocks with h | ⟨bs, b, rfl⟩
        · exact h
        · have hb := hblocks b (by simp)
          have := hlast b (by simp [← List.append_assoc]) hb
          simp_all
      subst hnil
      refine ⟨fixed ++ [f], [], by simp, ?_, by simp⟩
      intro g hg
      rcases List.mem_append.mp hg with hg | hg
      · exact hfixed g hg
      · rw [List.mem_singleton.mp hg, hf]

theorem Field.nodes_snoc {fs : List Field} {f : Field} :
    (∀ before g after, fs ++ [f] = before ++ g :: after → g.node.WellFormed before) ↔
      (∀ before g after, fs = before ++ g :: after → g.node.WellFormed before) ∧
        f.node.WellFormed fs := by
  constructor
  · intro h
    refine ⟨fun before g after hsplit => h before g (after ++ [f]) (by simp [hsplit]), ?_⟩
    exact h fs f [] rfl
  · rintro ⟨h, hf⟩ before g after hsplit
    rcases List.eq_nil_or_concat after with rfl | ⟨as, a, rfl⟩
    · obtain ⟨rfl, hg⟩ := List.append_inj' hsplit rfl
      rw [← List.singleton_inj.mp hg]
      exact hf
    · rw [List.concat_eq_append, ← List.cons_append, ← List.append_assoc] at hsplit
      exact h before g as (List.append_inj' hsplit rfl).1

/-- A list with one more field is well formed exactly when the list was and the new field
passes its own rules after it. -/
theorem Field.wellFormed_snoc {fs : List Field} {f : Field} :
    Field.WellFormed (fs ++ [f]) ↔ Field.WellFormed fs ∧ f.name ∉ fs.map Field.name ∧
      (∀ g ∈ fs.getLast?, g.node.isTrailing = true → f.node.isTrailing = true) ∧
      f.node.WellFormed fs := by
  constructor
  · rintro ⟨hnd, htr, hnodes⟩
    obtain ⟨hnd', hfresh⟩ := Field.nodup_snoc.mp hnd
    obtain ⟨htr', hlast⟩ := Field.trailingLast_snoc.mp htr
    obtain ⟨hnodes', hf⟩ := Field.nodes_snoc.mp hnodes
    exact ⟨⟨hnd', htr', hnodes'⟩, hfresh, hlast, hf⟩
  · rintro ⟨⟨hnd, htr, hnodes⟩, hfresh, hlast, hf⟩
    exact ⟨Field.nodup_snoc.mpr ⟨hnd, hfresh⟩, Field.trailingLast_snoc.mpr ⟨htr, hlast⟩,
      Field.nodes_snoc.mpr ⟨hnodes, hf⟩⟩

/-! ## Acceptance -/

/-- Checking the fields in order finds no problem exactly when they are well formed. -/
theorem Field.firstProblem?_eq_none_iff (fields : List Field) :
    Field.firstProblem? [] fields = none ↔ Field.WellFormed fields := by
  induction fields using List.reverseRecOn with
  | nil => exact ⟨fun _ => ⟨by simp, ⟨[], [], by simp, by simp, by simp⟩, by simp⟩, fun _ => rfl⟩
  | append_singleton fs f ih =>
    rw [Field.firstProblem?_snoc, Option.or_eq_none_iff, Field.wellFormed_snoc]
    constructor
    · rintro ⟨hfs, hf⟩
      have hwf := ih.mp hfs
      exact ⟨hwf, (Field.problem?_eq_none_iff hwf.nodup f.name f.node).mp hf⟩
    · rintro ⟨hwf, hf⟩
      exact ⟨ih.mpr hwf, (Field.problem?_eq_none_iff hwf.nodup f.name f.node).mpr hf⟩

theorem PointerKind.problem?_eq_some {name : String} {kind : PointerKind} {p : LayoutProblem}
    (h : kind.problem? name = some p) :
    ∃ t ind, kind = .tagPacked t ind ∧ p = .tagBits name t ind := by
  cases kind with
  | tagPacked t ind =>
    simp only [PointerKind.problem?, Option.ite_none_right_eq_some] at h
    exact ⟨t, ind, rfl, (Option.some.inj h.2).symm⟩
  | _ => cases h

/-- A problem with the arms of union `name` is reported at the union, or at a tag-packed pointer
arm. -/
theorem Arm.problem?_subject {name : String} {p : LayoutProblem} :
    ∀ {seen : List Nat} {arms : List Arm}, Arm.problem? name seen arms = some p →
      p.subject = name ∨ ∃ v arm target t ind,
        Arm.mk v arm (.pointer (.tagPacked t ind) target) ∈ arms ∧ p = .tagBits arm t ind
  | _, [], h => by cases h
  | seen, .mk v armName node :: rest, h => by
    have hrest : Arm.problem? name (v :: seen) rest = some p →
        p.subject = name ∨ ∃ w arm target t ind,
          Arm.mk w arm (.pointer (.tagPacked t ind) target) ∈ .mk v armName node :: rest ∧
            p = .tagBits arm t ind := fun hr =>
      (Arm.problem?_subject hr).imp_right fun ⟨w, arm, target, t, ind, hmem, hp⟩ =>
        ⟨w, arm, target, t, ind, List.mem_cons_of_mem _ hmem, hp⟩
    simp only [Arm.problem?] at h
    by_cases hseen : seen.contains v = true
    · rw [if_pos hseen] at h
      exact .inl (by cases h; rfl)
    · rw [if_neg hseen] at h
      by_cases hvar : node.isVariable = true
      · rw [if_pos hvar] at h
        exact .inl (by cases h; rfl)
      · rw [if_neg hvar] at h
        -- past the value and size checks: a pointer arm's own check, then the later arms
        cases node with
        | pointer kind target =>
          cases hq : kind.problem? armName with
          | some q =>
            simp only [hq, Option.some.injEq] at h
            obtain ⟨t, ind, rfl, rfl⟩ := PointerKind.problem?_eq_some hq
            subst h
            exact .inr ⟨v, armName, target, t, ind, by simp, rfl⟩
          | none =>
            simp only [hq] at h
            exact hrest h
        | _ => exact hrest h

theorem Selector.problem?_subject {earlier : List Field} {name : String} {s : Selector}
    {p : LayoutProblem} (h : s.problem? earlier name = some p) : p.subject = name := by
  unfold Selector.problem? at h
  split at h
  · cases h
  · split at h <;> cases h <;> rfl

theorem sizeSourceProblem?_subject {earlier : List Field} {name source : String}
    {p : LayoutProblem} (h : sizeSourceProblem? earlier name source = some p) :
    p.subject = name := by
  unfold sizeSourceProblem? at h
  split at h <;> cases h <;> rfl

/-- A node's problem is reported at its field, or at a tag-packed pointer arm of a union. -/
theorem Node.problem?_subject {earlier : List Field} {name : String} {node : Node}
    {p : LayoutProblem} (h : node.problem? earlier name = some p) :
    p.subject = name ∨ ∃ s arms v arm target t ind, node = .union s arms ∧
      Arm.mk v arm (.pointer (.tagPacked t ind) target) ∈ arms ∧ p = .tagBits arm t ind := by
  cases node with
  | scalar _ => cases h
  | flags _ _ => cases h
  | nested l =>
    simp only [Node.problem?] at h
    split at h
    · exact .inl (by cases h; rfl)
    · cases h
  | pointer kind _ =>
    obtain ⟨t, ind, _, rfl⟩ := PointerKind.problem?_eq_some h
    exact .inl rfl
  | union s arms =>
    simp only [Node.problem?] at h
    split at h
    · exact .inl (by cases h; rfl)
    · cases hs : s.problem? earlier name with
      | some q =>
        rw [hs, Option.some_or] at h
        exact .inl (Option.some.inj h ▸ Selector.problem?_subject hs)
      | none =>
        rw [hs, Option.none_or] at h
        refine (Arm.problem?_subject h).imp_right fun harm => ?_
        obtain ⟨v, arm, target, t, ind, hmem, hp⟩ := harm
        exact ⟨s, arms, v, arm, target, t, ind, rfl, hmem, hp⟩
  | trailing count stride element =>
    left
    simp only [Node.problem?] at h
    cases hsrc : (count :: stride.toList).findSome? (sizeSourceProblem? earlier name) with
    | some q =>
      rw [hsrc, Option.some_or] at h
      obtain ⟨source, -, hq⟩ := List.exists_of_findSome?_eq_some hsrc
      exact Option.some.inj h ▸ sizeSourceProblem?_subject hq
    | none =>
      rw [hsrc, Option.none_or] at h
      split at h
      · cases h; rfl
      · split at h
        · cases h; rfl
        · cases h

/-- A field's problem is reported at that field, or at a tag-packed pointer arm of it. -/
theorem Field.problem?_subject {before : List Field} {name : String} {node : Node}
    {p : LayoutProblem} (h : Field.problem? before name node = some p) :
    p.subject = name ∨ ∃ s arms v arm target t ind, node = .union s arms ∧
      Arm.mk v arm (.pointer (.tagPacked t ind) target) ∈ arms ∧ p = .tagBits arm t ind := by
  unfold Field.problem? at h
  split at h
  · exact .inl (by cases h; rfl)
  · split at h
    · exact .inl (by cases h; rfl)
    · exact Node.problem?_subject h

end SwiftReflection
