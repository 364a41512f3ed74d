import SwiftReflection.Scan.Table
/-!
# First match and longest match

A section table classifies a name by its first entry whose prefix starts the name. When no
entry's prefix is a proper prefix of a later entry's (`PrefixOrdered`), that first entry also has
the longest matching prefix, so classification agrees with `longestMatch?`, the first entry
among those of longest matching prefix. The Swift 5 table is so ordered: `__swift5_protos` comes
before `__swift5_proto`, and `.sw5prtc` before `.sw5prt`.
-/

namespace SwiftReflection.SectionTable

/-- Of two prefixes of one name, the shorter is a prefix of the longer. -/
theorem prefixOf_of_length_le {p q name : String} (hp : prefixOf p name = true)
    (hq : prefixOf q name = true) (h : p.toList.length ≤ q.toList.length) :
    prefixOf p q = true := by
  simp only [prefixOf, List.isPrefixOf_iff_prefix] at *
  exact List.prefix_of_prefix_length_le hp hq h

/-- Folding `keepLonger` from an entry no shorter than any that follows keeps that entry. -/
theorem foldl_keepLonger_of_le (b : String × Role) :
    ∀ xs : List (String × Role), (∀ x ∈ xs, x.1.toList.length ≤ b.1.toList.length) →
      xs.foldl keepLonger (some b) = some b
  | [], _ => rfl
  | x :: rest, h => by
    have hx : ¬ b.1.toList.length < x.1.toList.length := by
      have := h x (by simp)
      omega
    have hrest : ∀ y ∈ rest, y.1.toList.length ≤ b.1.toList.length :=
      fun y hy => h y (by simp [hy])
    simp only [List.foldl_cons, keepLonger, hx, if_false]
    exact foldl_keepLonger_of_le b rest hrest

/-- In a prefix-ordered list, the first entry that starts a name is the first of longest
matching prefix. -/
theorem find?_eq_foldl_keepLonger (name : String) :
    ∀ l : List (String × Role), l.Pairwise (fun a b => properPrefix a.1 b.1 = false) →
      l.find? (fun e => prefixOf e.1 name) =
        (l.filter fun e => prefixOf e.1 name).foldl keepLonger none
  | [], _ => rfl
  | e :: rest, h => by
    rw [List.pairwise_cons] at h
    by_cases he : prefixOf e.1 name = true
    · simp only [List.find?_cons, List.filter_cons, he, if_true, List.foldl_cons]
      refine (foldl_keepLonger_of_le e _ fun x hx => Nat.le_of_not_lt fun hlt => ?_).symm
      rw [List.mem_filter] at hx
      have hpre := prefixOf_of_length_le he hx.2 (Nat.le_of_lt hlt)
      have hproper : properPrefix e.1 x.1 = true := by simp [properPrefix, hpre, hlt]
      rw [h.1 x hx.1] at hproper
      exact Bool.false_ne_true hproper
    · simp only [List.find?_cons, List.filter_cons, he, Bool.false_eq_true, if_false]
      exact find?_eq_foldl_keepLonger name rest h.2

/-- A prefix-ordered table classifies every name by its longest matching prefix. -/
theorem classify_eq_longestMatch {t : SectionTable} (h : t.PrefixOrdered) (name : String) :
    t.classify name = t.longestMatch? name := by
  simp only [classify, longestMatch?]
  rw [find?_eq_foldl_keepLonger name t.entries h]

/-- The Swift 5 table is prefix-ordered. -/
theorem swift5_prefixOrdered : swift5.PrefixOrdered := by
  decide +kernel

/-- First-match classification is longest-prefix classification for every prefix-ordered
table, and the Swift 5 table is prefix-ordered. -/
theorem classify_first_eq_longest :
    swift5.PrefixOrdered ∧
      ∀ t : SectionTable, t.PrefixOrdered → ∀ name, t.classify name = t.longestMatch? name :=
  ⟨swift5_prefixOrdered, fun _ h name => classify_eq_longestMatch h name⟩

/-- At `__swift5_protos`, which `__swift5_proto` also starts, the Swift 5 table's first match is
its longest match, the protocol records. -/
theorem classify_protos_longest :
    swift5.PrefixOrdered ∧
      swift5.classify "__swift5_protos" = swift5.longestMatch? "__swift5_protos" ∧
      swift5.longestMatch? "__swift5_protos" = some .protocols :=
  ⟨by decide +kernel, classify_first_eq_longest.2 swift5 (by decide +kernel) "__swift5_protos",
    by decide +kernel⟩

end SwiftReflection.SectionTable
