import Mathlib
import SwiftReflection.Image.Basic
/-!
# Looking a symbol up by address

Loading a container sorts its symbols by address, stably, and `Image.symbolAt?` searches the
sorted list as a binary search does: it skips every symbol below the address and answers the
next one if it lies at the address. Containers list symbols in any order, several at one
address among them.

On a sorted list the skip-then-look search is a linear search for the address
(`symbolAt?_eq_find?`). The sort keeps the symbols of one address in the container's order
(`filter_address_mergeSort`, from the stability of `List.mergeSort`), so the symbol found is the
first at that address in the order the container listed them (`symbolAt_finds_first`).
-/

namespace SwiftReflection.Image

/-! ## Searching a sorted list -/

/-- Symbols in order of address. -/
def SortedByAddress (l : List Symbol) : Prop :=
  l.Pairwise fun s t => s.address ≤ t.address

/-- On an image whose symbols are sorted by address, `symbolAt?` is a linear search for the
first symbol at the address. -/
theorem symbolAt?_eq_find? {img : Image} (h : SortedByAddress img.symbols) (a : Nat) :
    img.symbolAt? a = img.symbols.find? (fun s => s.address == a) := by
  obtain ⟨id, path, sections, symbols, width, order⟩ := img
  -- the search is over the symbols alone: induct on them, the rest of the image fixed
  induction symbols with
  | nil => rfl
  | cons s rest ih =>
    have hs : SortedByAddress rest := (List.pairwise_cons.mp h).2
    have hle : ∀ t ∈ rest, s.address ≤ t.address := (List.pairwise_cons.mp h).1
    by_cases hlt : s.address < a
    · -- `s` is skipped by both searches
      have hne : (s.address == a) = false := by simp; omega
      rw [List.find?_cons_of_neg (by simp [hne]), ← ih hs]
      simp [symbolAt?, hlt]
    · by_cases heq : s.address = a
      · simp [symbolAt?, heq]
      · -- `s` lies above `a`, and so does every symbol after it
        have hnone : (s :: rest).find? (fun t => t.address == a) = none := by
          rw [List.find?_eq_none]
          intro t ht
          rcases List.mem_cons.mp ht with rfl | ht
          · simpa using heq
          · have := hle t ht
            simp only [beq_iff_eq]
            omega
        rw [hnone]
        simp [symbolAt?, hlt, heq]

/-! ## The sort on loading -/

/-- The order loading sorts by is transitive, -/
theorem address_le_trans (s t u : Symbol) (hst : decide (s.address ≤ t.address) = true)
    (htu : decide (t.address ≤ u.address) = true) : decide (s.address ≤ u.address) = true := by
  simp only [decide_eq_true_eq] at *
  omega

/-- and total, as the stability of `List.mergeSort` needs. -/
theorem address_le_total (s t : Symbol) :
    (decide (s.address ≤ t.address) || decide (t.address ≤ s.address)) = true := by
  simp only [Bool.or_eq_true, decide_eq_true_eq]
  omega

variable (id : Nat) (path : String) (c : Container)

theorem sorted_ofContainer : SortedByAddress (ofContainer id path c).symbols := by
  simpa [SortedByAddress, ofContainer] using
    List.pairwise_mergeSort address_le_trans address_le_total c.symbols

theorem perm_ofContainer : (ofContainer id path c).symbols.Perm c.symbols :=
  List.mergeSort_perm _ _

/-- Sorting keeps the symbols at one address in the container's order. -/
theorem filter_address_mergeSort (a : Nat) :
    (ofContainer id path c).symbols.filter (fun s => s.address == a) =
      c.symbols.filter (fun s => s.address == a) := by
  set p := fun s : Symbol => s.address == a
  -- the symbols at `a` are sorted among themselves, so a stable sort keeps them as a sublist
  have hpair : (c.symbols.filter p).Pairwise fun s t => decide (s.address ≤ t.address) = true := by
    refine List.pairwise_of_forall_mem_list fun s hs t ht => ?_
    simp only [p, List.mem_filter, beq_iff_eq] at hs ht
    simp [hs.2, ht.2]
  have hsub : (c.symbols.filter p).Sublist (ofContainer id path c).symbols :=
    List.sublist_mergeSort address_le_trans address_le_total hpair List.filter_sublist
  have hsub' : (c.symbols.filter p).Sublist ((ofContainer id path c).symbols.filter p) := by
    simpa [List.filter_filter] using hsub.filter p
  -- both lists hold the same number of symbols at `a`
  have hlen : (c.symbols.filter p).length = ((ofContainer id path c).symbols.filter p).length :=
    ((perm_ofContainer id path c).filter p).length_eq.symm
  exact (hsub'.eq_of_length hlen).symm

/-! ## Looking up in a loaded image -/

/-- Looking an address up in a loaded image finds the first symbol at that address in the order
the container listed them, and nothing when no symbol is there; the image's symbols are the
container's, sorted by address. -/
theorem symbolAt_finds_first (a : Nat) :
    (ofContainer id path c).symbolAt? a = c.symbols.find? (fun s => s.address == a) ∧
      ((ofContainer id path c).symbolAt? a = none ↔ ∀ s ∈ c.symbols, s.address ≠ a) ∧
      SortedByAddress (ofContainer id path c).symbols ∧
      (ofContainer id path c).symbols.Perm c.symbols := by
  have hfind : (ofContainer id path c).symbolAt? a = c.symbols.find? (fun s => s.address == a) := by
    rw [symbolAt?_eq_find? (sorted_ofContainer id path c), ← List.head?_filter,
      filter_address_mergeSort, List.head?_filter]
  refine ⟨hfind, ?_, sorted_ofContainer id path c, perm_ofContainer id path c⟩
  rw [hfind, List.find?_eq_none]
  simp

end SwiftReflection.Image
