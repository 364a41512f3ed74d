import Mathlib
import SwiftReflection.Proofs.Scan.Sections
import SwiftReflection.Proofs.Decode.Window
import SwiftReflection.Proofs.Decode.Trailing

/-!
# Pointers stay inside one section

`Image.resolve` checks its target twice: once against the 64-bit range and the sections, and
again, for an indirect pointer, through `Image.locate`, which looks the section up afresh. The
readers `cursorAt`, `cString`, `nameRunAt` and `followAs` go through `locate` as well; a name run
is as long as the name decoder measures it.

Every one of them sees the bytes of the first section holding its start address from that address
on, `Section.bytesFrom`, and nothing beyond: the window `locate` hands out is a window over that
section's bytes alone, so a string, name run, pointer slot or record that would carry on into the
next section fails there, naming the bytes the section had left. None of this needs the sections
to fit the address space: `Section.contains` saturates its end, and `Section.windowAt` agrees
with it at every address it holds.

An indirect pointer's slot is read as an integer of the image's pointer width, and an integer is
assembled from at most eight bytes: in an image whose pointers are wider, a slot that holds all
their bytes stops at that assertion (`Panic.wideRead`), after the bounds check.
-/

namespace SwiftReflection

/-! ## The window at an address of a section -/

namespace Section

variable {s : Section} {a : Nat}

/-- The bytes of the section from address `a` on. -/
def bytesFrom (s : Section) (a : Nat) : List UInt8 :=
  s.data.toList.drop (a - s.address)

/-- The window over the section's bytes placed at address `a`. -/
def windowAt (s : Section) (a : Nat) : Window :=
  { s.window with pos := a - s.address }

theorem windowAt?_of_contains (h : s.contains a = true) :
    s.windowAt? a = some (s.windowAt a) := by
  simp [windowAt?, h, windowAt]

theorem rest_windowAt : (s.windowAt a).rest = s.bytesFrom a := by
  simp [Window.rest_eq, windowAt, window, bytesFrom]

theorem remaining_windowAt : (s.windowAt a).remaining = (s.bytesFrom a).length := by
  rw [← Window.length_rest, rest_windowAt]

/-- The window at an address the section holds reports that address: the saturated end of
`contains` keeps `a` below `u64Max`. -/
theorem address_windowAt (h : s.contains a = true) : (s.windowAt a).address = a := by
  simp only [contains, limit, Bool.and_eq_true, decide_eq_true_eq, Nat.lt_min] at h
  simp only [Window.address, windowAt, window]
  omega

/-- A record read from the window at an address the section holds starts at that address and
ends inside the section. -/
theorem decodeRecord_windowAt (hc : s.contains a = true) {l : Layout} {r : Record}
    {next : Window} (hdec : l.decodeRecord (s.windowAt a) = .ok (r, next)) :
    r.address = a ∧ a + r.size ≤ s.address + s.size := by
  have hahead := Layout.decodeIn_ahead {} l _ next r hdec
  have hsize := Layout.decodeIn_size_eq hdec
  have haddr : r.address = (s.windowAt a).address := by
    obtain ⟨name, order, fields⟩ := l
    obtain ⟨done, -, rfl⟩ := Layout.decodeIn_eq_ok.mp hdec
    rfl
  refine ⟨haddr.trans (address_windowAt hc), ?_⟩
  -- the decode stops at the end of the section's bytes, whatever the layout
  have hbelow := hahead.pos_le
  simp only [Window.remaining, windowAt, window] at hbelow hsize
  simp only [contains, limit, size, Bool.and_eq_true, decide_eq_true_eq, Nat.lt_min] at hc
  simp only [size]
  omega

end Section

/-! ## The first zero of a byte list -/

theorem findIdx?_zero_eq_some {l : List UInt8} {n : Nat} (h : l.findIdx? (· == 0) = some n) :
    ∃ rest, l = l.take n ++ 0 :: rest ∧ 0 ∉ l.take n := by
  obtain ⟨hn, hzero, hbefore⟩ := List.findIdx?_eq_some_iff_getElem.mp h
  refine ⟨l.drop (n + 1), ?_, ?_⟩
  · have hat : l[n] = 0 := by simpa using hzero
    conv_lhs => rw [← List.take_append_drop n l, List.drop_eq_getElem_cons hn, hat]
  · intro hmem
    obtain ⟨j, hj, hget⟩ := List.mem_iff_getElem.mp hmem
    have hjn : j < n := by simp at hj; omega
    exact hbefore j hjn (by simpa [List.getElem_take] using hget)

theorem findIdx?_zero_of_split {bs rest : List UInt8} (h : 0 ∉ bs) :
    (bs ++ 0 :: rest).findIdx? (· == 0) = some bs.length := by
  have hnone : bs.findIdx? (· == 0) = none :=
    List.findIdx?_eq_none_iff.mpr fun x hx => by
      simp only [beq_eq_false_iff_ne]
      rintro rfl
      exact h hx
  simp [List.findIdx?_append, List.findIdx?_cons, hnone]

namespace Image

variable {img : Image} {a : Nat} {s : Section}

/-! ## Looking an address up -/

theorem contains_of_sectionContaining? (h : img.sectionContaining? a = some s) :
    s.contains a = true := by
  simpa using List.find?_some h

theorem locate_of_section (f : Nat) (h : img.sectionContaining? a = some s) :
    img.locate f a = .ok (s.windowAt a) := by
  simp [locate, h, Section.windowAt?_of_contains (contains_of_sectionContaining? h)]

theorem locate_of_none (f : Nat) (h : img.sectionContaining? a = none) :
    img.locate f a = .error (.pointerOutOfRange f a) := by
  simp [locate, h]

/-- The range check of `resolve`, against `u64Max`, is the 64-bit bound. -/
theorem le_u64Max_iff {t : Int} : t ≤ u64Max ↔ t < 2 ^ 64 := by
  have hmax : ((u64Max : Nat) : Int) = 2 ^ 64 - 1 := by norm_num [u64Max, pow2]
  rw [hmax]
  omega

/-! ## Resolving a relative pointer -/

/-- What resolving a pointer gives once its target lies in section `s`: the target itself, or,
for an indirect pointer, the absolute pointer stored at the target, whose bytes must all lie in
`s`. The absolute pointer is assembled from at most eight bytes: in an image whose pointers are
wider, a slot that holds them stops at the assertion of the assembly. -/
def resolveIn (img : Image) (s : Section) (o : RelOffset) : Except Error Resolved :=
  let t := o.target.toNat
  if o.isIndirect then
    if img.pointerWidth ≤ (s.bytesFrom t).length then
      if img.pointerWidth ≤ 8 then
        .ok ⟨img.order.readUInt ((s.bytesFrom t).take img.pointerWidth), o.tag?, some t⟩
      else .error (.panic .wideRead)
    else .error (.bufferTooShort t img.pointerWidth (s.bytesFrom t).length)
  else .ok ⟨t, o.tag?, none⟩

theorem resolveIn_ne_pointerOutOfRange (s : Section) (o : RelOffset) (f : Nat) (t : Int) :
    img.resolveIn s o ≠ .error (.pointerOutOfRange f t) := by
  unfold resolveIn
  dsimp only
  split
  · split
    · split <;> simp
    · simp
  · simp

/-- A target in no section, or outside the 64-bit space, is out of range. -/
theorem resolve_of_not_found (o : RelOffset)
    (h : ¬(0 ≤ o.target ∧ o.target < 2 ^ 64 ∧ (img.sectionContaining? o.target.toNat).isSome)) :
    img.resolve o = .error (.pointerOutOfRange o.field o.target) := by
  have hnone : (if 0 ≤ o.target && o.target ≤ u64Max then some o.target.toNat else none).filter
      (fun a => (img.sectionContaining? a).isSome) = none := by
    by_cases hrange : 0 ≤ o.target ∧ o.target < 2 ^ 64
    · have hsec : img.sectionContaining? o.target.toNat = none := by
        by_contra hne
        exact h ⟨hrange.1, hrange.2, Option.isSome_iff_ne_none.mpr hne⟩
      simp [hrange.1, le_u64Max_iff.mpr hrange.2, hsec]
    · have hout : (decide (0 ≤ o.target) && decide (o.target ≤ u64Max)) = false := by
        simp only [Bool.and_eq_false_iff, decide_eq_false_iff_not, le_u64Max_iff]
        omega
      simp [hout]
  unfold resolve
  simp only [hnone]
  rfl

/-- A target in a section resolves within that section: the second lookup, through `locate`,
finds the section the first one did. -/
theorem resolve_of_section (o : RelOffset) (h0 : 0 ≤ o.target) (h64 : o.target < 2 ^ 64)
    (hS : img.sectionContaining? o.target.toNat = some s) :
    img.resolve o = img.resolveIn s o := by
  have hfound : (if 0 ≤ o.target && o.target ≤ u64Max then some o.target.toNat else none).filter
      (fun a => (img.sectionContaining? a).isSome) = some o.target.toNat := by
    simp [h0, le_u64Max_iff.mpr h64, hS]
  unfold resolve resolveIn
  simp only [hfound, locate_of_section _ hS]
  cases o.isIndirect with
  | false => rfl
  | true =>
    simp only [Bool.not_true, Bool.false_eq_true, if_false, if_true, ok_bind, Window.readUInt_eq,
      Section.remaining_windowAt, Section.rest_windowAt,
      Section.address_windowAt (contains_of_sectionContaining? hS)]
    split
    · split <;> rfl
    · rfl

theorem resolve_eq_pointerOutOfRange_iff (o : RelOffset) :
    img.resolve o = .error (.pointerOutOfRange o.field o.target) ↔
      o.target < 0 ∨ 2 ^ 64 ≤ o.target ∨ img.sectionContaining? o.target.toNat = none := by
  by_cases hin : 0 ≤ o.target ∧ o.target < 2 ^ 64 ∧ (img.sectionContaining? o.target.toNat).isSome
  · obtain ⟨h0, h64, hsome⟩ := hin
    obtain ⟨s, hS⟩ := Option.isSome_iff_exists.mp hsome
    rw [resolve_of_section o h0 h64 hS, hS]
    simp only [resolveIn_ne_pointerOutOfRange, reduceCtorEq, or_false, false_iff, not_or]
    omega
  · refine iff_of_true (resolve_of_not_found o hin) ?_
    by_contra hne
    simp only [not_or, not_lt, not_le, ← ne_eq, ← Option.isSome_iff_ne_none] at hne
    exact hin ⟨hne.1, hne.2.1, hne.2.2⟩

/-! ## Readers at an address -/

theorem cursorAt_of_section (h : img.sectionContaining? a = some s) :
    img.cursorAt a = .ok (s.windowAt a) :=
  locate_of_section a h

theorem cString_eq_ok_iff (h : img.sectionContaining? a = some s) {bs : List UInt8} :
    img.cString a = .ok bs ↔ ∃ rest, s.bytesFrom a = bs ++ 0 :: rest ∧ 0 ∉ bs := by
  unfold cString
  simp only [cursorAt_of_section h, ok_bind, Section.rest_windowAt]
  cases hfind : (s.bytesFrom a).findIdx? (· == 0) with
  | none =>
    simp only [reduceCtorEq, false_iff]
    rintro ⟨rest, hsplit, -⟩
    have := List.findIdx?_eq_none_iff.mp hfind 0 (by simp [hsplit])
    simp at this
  | some n =>
    obtain ⟨rest, hsplit, hfree⟩ := findIdx?_zero_eq_some hfind
    constructor
    · rintro ⟨⟩
      exact ⟨rest, hsplit, hfree⟩
    · rintro ⟨rest', hsplit', hfree'⟩
      rw [hsplit', findIdx?_zero_of_split hfree', Option.some.injEq] at hfind
      subst hfind
      simp [hsplit']

theorem cString_eq_error_iff (h : img.sectionContaining? a = some s) :
    img.cString a = .error (.bufferTooShort a ((s.bytesFrom a).length + 1) (s.bytesFrom a).length)
      ↔ 0 ∉ s.bytesFrom a := by
  unfold cString
  simp only [cursorAt_of_section h, ok_bind, Section.rest_windowAt]
  cases hfind : (s.bytesFrom a).findIdx? (· == 0) with
  | none =>
    have hfree := List.findIdx?_eq_none_iff.mp hfind
    exact ⟨fun _ hmem => by simpa using hfree 0 hmem, fun _ => rfl⟩
  | some n =>
    obtain ⟨rest, hsplit, -⟩ := findIdx?_zero_eq_some hfind
    have hmem : (0 : UInt8) ∈ s.bytesFrom a := by rw [hsplit]; simp
    constructor
    · intro hok
      cases hok
    · intro hfree
      exact (hfree hmem).elim

/-- The name run at an address of section `s` is cut from the bytes `s` has left there, as long
as the name decoder measures it. -/
theorem nameRunAt_of_section (h : img.sectionContaining? a = some s) (names : NameDecoder) :
    img.nameRunAt a names = match names.runExtent (s.bytesFrom a) img.pointerWidth with
      | some n => if n ≤ (s.bytesFrom a).length
          then .ok ⟨a, (s.bytesFrom a).take n, img.pointerWidth, img.order⟩
          else .error (.panic (.sliceOverrun n (s.bytesFrom a).length))
      | none =>
        .error (.bufferTooShort a ((s.bytesFrom a).length + 1) (s.bytesFrom a).length) := by
  unfold nameRunAt
  simp only [cursorAt_of_section h, ok_bind, Section.rest_windowAt]
  rfl

theorem nameRunAt_eq_ok_iff (h : img.sectionContaining? a = some s) (names : NameDecoder)
    {run : NameRun} :
    img.nameRunAt a names = .ok run ↔
      ∃ n, names.runExtent (s.bytesFrom a) img.pointerWidth = some n ∧
        n ≤ (s.bytesFrom a).length ∧ run = ⟨a, (s.bytesFrom a).take n, img.pointerWidth, img.order⟩ := by
  rw [nameRunAt_of_section h names]
  cases names.runExtent (s.bytesFrom a) img.pointerWidth with
  | none => simp
  | some n =>
    by_cases hle : n ≤ (s.bytesFrom a).length
    · simp [hle, eq_comm]
    · simp [hle]

theorem nameRunAt_eq_error_iff (h : img.sectionContaining? a = some s) (names : NameDecoder) :
    img.nameRunAt a names =
        .error (.bufferTooShort a ((s.bytesFrom a).length + 1) (s.bytesFrom a).length)
      ↔ names.runExtent (s.bytesFrom a) img.pointerWidth = none := by
  rw [nameRunAt_of_section h names]
  cases names.runExtent (s.bytesFrom a) img.pointerWidth with
  | none => simp
  | some n =>
    by_cases hle : n ≤ (s.bytesFrom a).length
    · simp [hle]
    · simp [hle]

/-- An extent past the bytes the section has left is not read: slicing to it panics. -/
theorem nameRunAt_of_overrun (h : img.sectionContaining? a = some s) {names : NameDecoder}
    {n : Nat} (hext : names.runExtent (s.bytesFrom a) img.pointerWidth = some n)
    (hlt : (s.bytesFrom a).length < n) :
    img.nameRunAt a names = .error (.panic (.sliceOverrun n (s.bytesFrom a).length)) := by
  rw [nameRunAt_of_section h names, hext]
  exact if_neg (by omega)

/-- The readers at address `a` see the bytes of section `s` from `a` on and nothing else: the
cursor is the window over `s` at `a`; a C string is the bytes before the first zero there, and a
name run the bytes a name decoder's extent measures there; each fails with `bufferTooShort`,
naming the bytes `s` has left, when `s` ends first, and an extent past them panics. -/
structure ReadsWithin (img : Image) (a : Nat) (s : Section) : Prop where
  cursor : img.cursorAt a = .ok (s.windowAt a)
  string_ok : ∀ bs, img.cString a = .ok bs ↔ ∃ rest, s.bytesFrom a = bs ++ 0 :: rest ∧ 0 ∉ bs
  string_short :
    img.cString a = .error (.bufferTooShort a ((s.bytesFrom a).length + 1) (s.bytesFrom a).length)
      ↔ 0 ∉ s.bytesFrom a
  run_ok : ∀ names run, img.nameRunAt a names = .ok run ↔
    ∃ n, names.runExtent (s.bytesFrom a) img.pointerWidth = some n ∧
      n ≤ (s.bytesFrom a).length ∧ run = ⟨a, (s.bytesFrom a).take n, img.pointerWidth, img.order⟩
  run_short : ∀ names,
    img.nameRunAt a names =
        .error (.bufferTooShort a ((s.bytesFrom a).length + 1) (s.bytesFrom a).length)
      ↔ names.runExtent (s.bytesFrom a) img.pointerWidth = none
  run_overrun : ∀ names n, names.runExtent (s.bytesFrom a) img.pointerWidth = some n →
    (s.bytesFrom a).length < n →
    img.nameRunAt a names = .error (.panic (.sliceOverrun n (s.bytesFrom a).length))

theorem readsWithin_of_section (h : img.sectionContaining? a = some s) : img.ReadsWithin a s :=
  ⟨cursorAt_of_section h, fun _ => cString_eq_ok_iff h, cString_eq_error_iff h,
    fun names _ => nameRunAt_eq_ok_iff h names, nameRunAt_eq_error_iff h,
    fun _ _ hext hlt => nameRunAt_of_overrun h hext hlt⟩

/-! ## Following a pointer to a record -/

theorem followAs_of_section {o : RelOffset} {l : Layout} {r : Resolved}
    (hr : img.resolve o = .ok r) (hS : img.sectionContaining? r.address = some s) :
    img.followAs o l = (l.decodeRecord (s.windowAt r.address)).map Prod.fst := by
  unfold followAs
  simp only [hr, ok_bind, locate_of_section _ hS]
  cases l.decodeRecord (s.windowAt r.address) <;> rfl

theorem followAs_of_none {o : RelOffset} {l : Layout} {r : Resolved}
    (hr : img.resolve o = .ok r) (hnone : img.sectionContaining? r.address = none) :
    img.followAs o l = .error (.pointerOutOfRange o.field r.address) := by
  unfold followAs
  simp only [hr, ok_bind, locate_of_none _ hnone]
  rfl

theorem followAs_within {o : RelOffset} {l : Layout} {r : Resolved} {rec : Record}
    (hr : img.resolve o = .ok r) (hS : img.sectionContaining? r.address = some s)
    (hf : img.followAs o l = .ok rec) :
    rec.address = r.address ∧ rec.address + rec.size ≤ s.address + s.size := by
  rw [followAs_of_section hr hS] at hf
  obtain ⟨⟨rec', next⟩, hdec, rfl⟩ := Except.map_eq_ok.mp hf
  obtain ⟨haddr, hend⟩ := Section.decodeRecord_windowAt (contains_of_sectionContaining? hS) hdec
  exact ⟨haddr, haddr ▸ hend⟩

/-! ## Every reader stays in its section -/

/-- Resolution is exact and confined to one section, for every image. A pointer is out of range
exactly when its target is negative, beyond 64 bits, or in no section; otherwise it resolves
within the first section holding the target (`resolveIn`: the target, or an indirect pointer's
word read there, short of bytes when the section ends first, and stopped by the assertion of
the read when pointers are wider than eight bytes) and never as out of range. The readers at an
address see only the first section holding it, and a record a resolved pointer leads to is read
from the section holding its address and ends inside it. -/
theorem resolve_confined (img : Image) :
    (∀ o : RelOffset, img.resolve o = .error (.pointerOutOfRange o.field o.target) ↔
      o.target < 0 ∨ 2 ^ 64 ≤ o.target ∨ img.sectionContaining? o.target.toNat = none) ∧
    (∀ (o : RelOffset) (s : Section), 0 ≤ o.target → o.target < 2 ^ 64 →
      img.sectionContaining? o.target.toNat = some s →
      img.resolve o = img.resolveIn s o ∧
        ∀ f t, img.resolve o ≠ .error (.pointerOutOfRange f t)) ∧
    (∀ a s, img.sectionContaining? a = some s → img.ReadsWithin a s) ∧
    (∀ (o : RelOffset) (l : Layout) (r : Resolved) (s : Section), img.resolve o = .ok r →
      img.sectionContaining? r.address = some s →
      img.followAs o l = (l.decodeRecord (s.windowAt r.address)).map Prod.fst ∧
        ∀ rec, img.followAs o l = .ok rec →
          rec.address = r.address ∧ rec.address + rec.size ≤ s.address + s.size) := by
  refine ⟨resolve_eq_pointerOutOfRange_iff, ?_, fun _ _ h => readsWithin_of_section h, ?_⟩
  · intro o s h0 h64 hS
    have hres := resolve_of_section o h0 h64 hS
    exact ⟨hres, fun f t => hres ▸ resolveIn_ne_pointerOutOfRange s o f t⟩
  · intro o l r s hr hS
    exact ⟨followAs_of_section hr hS, fun _ hf => followAs_within hr hS hf⟩

/-- A section of two bytes, 0x41 0x42, at 0x1000. -/
def adjoiningText : Section := ⟨"text", 0x1000, ⟨#[0x41, 0x42]⟩⟩

/-- Two sections back to back: the one above, then 0x43 0x00 at 0x1002. -/
def adjoining : Image where
  id := 0
  path := "adjoining"
  sections := [adjoiningText, ⟨"more", 0x1002, ⟨#[0x43, 0]⟩⟩]
  symbols := []
  pointerWidth := 8
  order := .little

/-- An image whose pointers are nine bytes wide, with a section of nine zero bytes at 0x1000. -/
def wideSlot : Image where
  id := 0
  path := "wide"
  sections := [⟨"slot", 0x1000, ⟨.replicate 9 0⟩⟩]
  symbols := []
  pointerWidth := 9
  order := .little

/-- In the image `adjoining`, neither the string at 0x1000 nor the absolute pointer an indirect
pointer finds there runs on into the next section. In `wideSlot`, where the slot holds the nine
bytes of a pointer, reading them stops at the assertion that at most eight are assembled. -/
theorem sectionEnd_and_wideSlot_stop_reads :
    adjoining.cString 0x1000 = .error (.bufferTooShort 0x1000 3 2) ∧
      adjoining.resolve ⟨0x0FF0, 0x11, .indirectable⟩ = .error (.bufferTooShort 0x1000 8 2) ∧
      wideSlot.resolve ⟨0x0FF0, 0x11, .indirectable⟩ = .error (.panic .wideRead) := by
  obtain ⟨-, hresolve, hreads, -⟩ := resolve_confined adjoining
  obtain ⟨-, hwide, -, -⟩ := resolve_confined wideSlot
  have hS : adjoining.sectionContaining? 0x1000 = some adjoiningText := rfl
  have hlen : (adjoiningText.bytesFrom 0x1000).length = 2 := by decide +kernel
  have htarget : RelOffset.target ⟨0x0FF0, 0x11, .indirectable⟩ = 0x1000 := by decide +kernel
  have hind : RelOffset.isIndirect ⟨0x0FF0, 0x11, .indirectable⟩ = true := by decide
  refine ⟨?_, ?_, ?_⟩
  · have hshort := (hreads _ _ hS).string_short.mpr (by decide +kernel)
    rwa [hlen] at hshort
  · rw [(hresolve ⟨0x0FF0, 0x11, .indirectable⟩ adjoiningText (by rw [htarget]; decide)
      (by rw [htarget]; decide) (by rw [htarget]; exact hS)).1]
    simp [resolveIn, hlen, htarget, hind, adjoining]
  · rw [(hwide ⟨0x0FF0, 0x11, .indirectable⟩ ⟨"slot", 0x1000, ⟨.replicate 9 0⟩⟩
      (by rw [htarget]; decide) (by rw [htarget]; decide) (by rw [htarget]; rfl)).1]
    have hslot : (Section.bytesFrom ⟨"slot", 0x1000, ⟨.replicate 9 0⟩⟩ 0x1000).length = 9 := by
      decide +kernel
    simp [resolveIn, hslot, htarget, hind, wideSlot]

end Image

end SwiftReflection
