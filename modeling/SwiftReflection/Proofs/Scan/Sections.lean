import Mathlib
import SwiftReflection.Scan.Scanner
import SwiftReflection.Proofs.Decode.Consumption
import SwiftReflection.Proofs.Scan.Coherence
/-!
# Sections decode as chains of records

A section with a role is decoded record after record from its first byte. `Section.Chain` says,
without the loop, what that gives: record `k` is the record decoded at the section's window at
address `a k`, tagged with the image, the role, the section's name and that address; it lies at
`a k`, and the next one starts at `a k` plus its size, which is positive. The chain stops exactly
when the section is exhausted, when the record limit is reached with bytes left, or at the
first record that fails, which is reported with its address and error.

`ScanConfig.scanImage_sectionChains` says that scanning an image whose sections fit the address
space, with failures isolated, succeeds; its records and issues are those of the classification
followed by the share of each classified section in order (`ScanConfig.sectionShare`); and the
share of a section whose required roles are present and whose role has a catalog layout is such
a chain, with one issue for the failure that stopped it, if any.

Two facts carry this: every catalog layout has a positive fixed size, so each record moves the
window forward and the decoder's guard against records of no size never stops a section; and in
a section that fits the address space no address saturates, so the window's address is the
section's address plus the position.
-/

namespace SwiftReflection

/-! ## The chain of records of a section -/

/-- The records decoded back to back in section `s` with layout `l`, the `count`-th from address
`a` on, and the failure that ends them, if any: the section is exhausted, the limit is reached
with bytes left, a record fails, or a record of positive size decodes and the chain goes on
after it. -/
inductive Section.Chain (s : Section) (img : Nat) (role : Role) (l : Layout) (limit : Nat) :
    Nat → Nat → List Entry → Option (Nat × Error) → Prop
  | exhausted {count : Nat} : Section.Chain s img role l limit count (s.address + s.size) [] none
  | limitReached {count a : Nat} : 0 < limit → count = limit → a < s.address + s.size →
      Section.Chain s img role l limit count a [] none
  | failed {count a : Nat} {w : Window} {e : Error} : a < s.address + s.size →
      (limit = 0 ∨ count < limit) → s.windowAt? a = some w → l.decodeRecord w = .error e →
      Section.Chain s img role l limit count a [] (some (a, e))
  | next {count a : Nat} {w w' : Window} {r : Record} {rest : List Entry}
      {failure : Option (Nat × Error)} : a < s.address + s.size → (limit = 0 ∨ count < limit) →
      s.windowAt? a = some w → l.decodeRecord w = .ok (r, w') → r.address = a → 0 < r.size →
      Section.Chain s img role l limit (count + 1) (a + r.size) rest failure →
      Section.Chain s img role l limit count a (⟨img, role, s.name, a, r⟩ :: rest) failure

/-- The chain from a count and an address is determined by the section: the conditions that end
it exclude each other, and a record's window and decoding are functions of its address. -/
theorem Section.Chain.unique {s : Section} {img : Nat} {role : Role} {l : Layout} {limit : Nat}
    {count a : Nat} {es es' : List Entry} {f f' : Option (Nat × Error)}
    (h : Section.Chain s img role l limit count a es f)
    (h' : Section.Chain s img role l limit count a es' f') : es = es' ∧ f = f' := by
  induction h generalizing es' f' with
  | exhausted =>
    cases h' with
    | exhausted => exact ⟨rfl, rfl⟩
    | limitReached _ _ hlt | failed hlt | next hlt => omega
  | limitReached hpos hcount hlt =>
    cases h' with
    | exhausted => omega
    | limitReached => exact ⟨rfl, rfl⟩
    | failed _ hbelow | next _ hbelow => omega
  | failed hlt hbelow hwin hdec =>
    cases h' with
    | exhausted => omega
    | limitReached hpos hcount => omega
    | failed _ _ hwin' hdec' =>
      cases hwin.symm.trans hwin'
      cases hdec.symm.trans hdec'
      exact ⟨rfl, rfl⟩
    | next _ _ hwin' hdec' =>
      cases hwin.symm.trans hwin'
      cases hdec.symm.trans hdec'
  | next hlt hbelow hwin hdec haddr hsize hrest ih =>
    cases h' with
    | exhausted => omega
    | limitReached hpos hcount => omega
    | failed _ _ hwin' hdec' =>
      cases hwin.symm.trans hwin'
      cases hdec.symm.trans hdec'
    | next _ _ hwin' hdec' _ _ hrest' =>
      cases hwin.symm.trans hwin'
      cases hdec.symm.trans hdec'
      obtain ⟨rfl, rfl⟩ := ih hrest'
      exact ⟨rfl, rfl⟩

/-! ## Windows of a section that fits the address space -/

namespace Section

variable {s : Section}

theorem limit_of_fits (hfit : s.fits = true) : s.limit = s.address + s.size := by
  simp only [fits, decide_eq_true_eq] at hfit
  simp [limit, hfit]

/-- A window of the section's bytes has the section's address plus its position as address. -/
theorem address_of_fits (hfit : s.fits = true) {w : Window} (horigin : w.origin = s.address)
    (hpos : w.pos ≤ s.size) : w.address = s.address + w.pos := by
  simp only [fits, decide_eq_true_eq] at hfit
  simp only [Window.address, horigin]
  omega

/-- The section's window at an address before its end is the window at that position. -/
theorem windowAt?_of_fits (hfit : s.fits = true) {pos : Nat} (hpos : pos < s.size) :
    s.windowAt? (s.address + pos) = some ⟨s.data, s.address, pos⟩ := by
  simp only [windowAt?, contains, limit_of_fits hfit]
  rw [if_pos (by simp; omega)]
  simp [window]

end Section

/-! ## Catalog layouts take bytes -/

/-- Every catalog layout has a positive fixed size. -/
theorem Catalog.fixedSize_pos_of_layoutFor {role : Role} {order : ByteOrder} {l : Layout}
    (h : Catalog.layoutFor role order = some l) : 0 < l.fixedSize := by
  cases role <;> cases order <;> simp only [Catalog.layoutFor, Option.some.injEq,
    reduceCtorEq] at h <;> subst h <;> decide

/-! ## The decoding loop builds the chain -/

/-- A record decoded from a window over the section's bytes, with a layout of positive fixed
size, lies at the window's address and takes a positive number of bytes, all inside the section;
the next window is placed like this one, that many bytes further on. -/
theorem Section.decodeRecord_within {s : Section} {l : Layout} (hl : 0 < l.fixedSize)
    {w next : Window} {r : Record} (hdata : w.data = s.data)
    (hdec : l.decodeRecord w = .ok (r, next)) :
    r.address = w.address ∧ 0 < r.size ∧ next.pos = w.pos + r.size ∧ next.pos ≤ s.size ∧
      next.data = s.data ∧ next.origin = w.origin := by
  have hahead := Layout.decodeIn_ahead {} l w next r hdec
  have hsize := Layout.decodeIn_size_eq hdec
  have haddr : r.address = w.address := by
    obtain ⟨name, order, fields⟩ := l
    obtain ⟨done, -, rfl⟩ := Layout.decodeIn_eq_ok.mp hdec
    rfl
  -- the record takes at least the layout's fixed size and stops before the buffer's end
  have hmoved := hahead.le_pos
  have hbelow := hahead.pos_le
  simp only [Window.remaining, hdata] at hbelow
  refine ⟨haddr, by omega, hsize, ?_, hahead.data_eq.trans hdata, hahead.origin_eq⟩
  simp only [Section.size]
  omega

/-- Decoding records from position `w.pos` of a section that fits the address space, with a
layout of positive fixed size, enough fuel, and a count within the limit, gives the chain from
that position's address. -/
theorem decodeRecords_chain {s : Section} {img : Nat} {role : Role} {l : Layout} {limit : Nat}
    (hfit : s.fits = true) (hl : 0 < l.fixedSize) :
    ∀ (fuel count : Nat) (w : Window), w.data = s.data → w.origin = s.address →
      w.pos ≤ s.size → s.size - w.pos < fuel → (limit = 0 ∨ count ≤ limit) →
      Section.Chain s img role l limit count (s.address + w.pos)
        (decodeRecords img role s.name l limit fuel count w).entries
        (decodeRecords img role s.name l limit fuel count w).failure
  -- by recursion on the fuel, which stays above the bytes left since every record takes some
  | 0, _, _, _, _, _, hfuel, _ => absurd hfuel (Nat.not_lt_zero _)
  | fuel + 1, count, w, hdata, horigin, hpos, hfuel, hcount => by
    have hw : w = ⟨s.data, s.address, w.pos⟩ := by
      cases w
      simp_all
    have hrem : w.remaining = s.size - w.pos := by
      simp [Window.remaining, hdata, Section.size]
    have haddr := Section.address_of_fits hfit horigin hpos
    simp only [decodeRecords]
    by_cases hend : w.remaining = 0
    · -- the section is exhausted
      rw [if_pos (by simp [hend]), show w.pos = s.size by omega]
      exact .exhausted
    by_cases hlim : 0 < limit ∧ limit ≤ count
    · -- the limit is reached with bytes left
      rw [if_pos (by simp [hlim.1, hlim.2])]
      exact .limitReached hlim.1 (by omega) (by omega)
    rw [if_neg (by simp [hend]; omega)]
    have hwin : s.windowAt? (s.address + w.pos) = some w := by
      rw [Section.windowAt?_of_fits hfit (by omega), ← hw]
    have hbelow : limit = 0 ∨ count < limit := by omega
    cases hdec : l.decodeRecord w with
    | error e =>
      simp only [haddr]
      exact .failed (by omega) hbelow hwin hdec
    | ok res =>
      obtain ⟨r, next⟩ := res
      dsimp only
      obtain ⟨hraddr, hpos_size, hsize, hnext_pos, hnext_data, hnext_origin⟩ :=
        Section.decodeRecord_within hl hdata hdec
      have hnext_addr := Section.address_of_fits hfit (hnext_origin.trans horigin) hnext_pos
      -- the record moved the window, so the guard against records of no size does not stop
      rw [if_neg (by simp only [hnext_addr, haddr, beq_iff_eq]; omega)]
      simp only [haddr]
      refine .next (by omega) hbelow hwin hdec (by rw [hraddr, haddr]) hpos_size ?_
      rw [Nat.add_assoc, ← hsize]
      exact decodeRecords_chain hfit hl fuel (count + 1) next hnext_data
        (hnext_origin.trans horigin) hnext_pos (by omega) (by omega)

/-- A section that fits the address space, decoded with a catalog layout, is the chain of its
records from its first byte. -/
theorem Section.scan_chain {s : Section} {img : Nat} {role : Role} {order : ByteOrder}
    {l : Layout} {limit : Nat} (hfit : s.fits = true) (hl : Catalog.layoutFor role order = some l) :
    Section.Chain s img role l limit 0 s.address (s.scan img role l limit).entries
      (s.scan img role l limit).failure := by
  have := @decodeRecords_chain s img role l limit hfit (Catalog.fixedSize_pos_of_layoutFor hl)
    (s.size + 1) 0 s.window rfl rfl (Nat.zero_le _) (by simp [Section.window]) (by omega)
  simpa [Section.scan, Section.window] using this

/-! ## The share of each classified section -/

/-- A container passes the address-space check exactly when all its sections fit. -/
theorem Container.checkAddressSpace_eq_ok {c : Container} {path : String} :
    c.checkAddressSpace path = .ok () ↔ ∀ s ∈ c.sections, s.fits = true := by
  unfold Container.checkAddressSpace
  cases h : c.sections.find? (fun s => !s.fits) with
  | none => simpa using List.find?_eq_none.mp h
  | some s =>
    simp only [reduceCtorEq, false_iff, not_forall]
    exact ⟨s, List.mem_of_find?_eq_some h, by simpa using List.find?_some h⟩

namespace ScanConfig

/-- The classified sections are sections of the image, each with the role the table gives its
name. -/
theorem classify_mem {c : ScanConfig} {img : Image} {role : Role} {s : Section}
    (h : (role, s) ∈ (c.classify img).1) :
    s ∈ img.sections ∧ c.table.classify s.name = some role := by
  revert h
  unfold classify
  refine List.foldlRecOn
    (motive := fun acc : List (Role × Section) × List Issue =>
      (role, s) ∈ acc.1 → s ∈ img.sections ∧ c.table.classify s.name = some role)
    img.sections _ (by simp) ?_
  rintro ⟨found, issues⟩ hacc sec hsec
  dsimp only
  split
  · next r hr =>
    intro hmem
    rcases List.mem_append.mp hmem with hmem | hmem
    · exact hacc hmem
    · obtain ⟨rfl, rfl⟩ := Prod.mk.inj (List.mem_singleton.mp hmem)
      exact ⟨hsec, hr⟩
  · split <;> exact hacc

/-- What decoding one classified section adds to its image's scan when failures are isolated:
its records, and an issue for the failure that stopped it, if any. A section whose role requires
a role with no classified section, or has no catalog layout, adds nothing. -/
def sectionShare (c : ScanConfig) (img : Image) (found : List (Role × Section)) :
    Role × Section → ImageScan
  | (role, s) =>
    let missing := (c.table.required role).any fun needed => !found.any (·.1 == needed)
    match missing, Catalog.layoutFor role img.order with
    | false, some l =>
      let scan := s.scan img.id role l c.maxRecords
      { entries := scan.entries
        issues := (scan.failure.map fun (address, e) =>
          (⟨img.id, some role, s.name, address, e⟩ : Issue)).toList }
    | _, _ => {}

/-- With failures isolated, decoding the classified sections always succeeds, and adds the share
of each section in order. -/
theorem decodeAll_isolate {c : ScanConfig} (hc : c.policy = .isolate) (img : Image)
    (found pending : List (Role × Section)) (acc : ImageScan) :
    c.decodeAll img found pending acc = .ok
      { entries := acc.entries ++ pending.flatMap fun p => (c.sectionShare img found p).entries
        issues := acc.issues ++ pending.flatMap fun p => (c.sectionShare img found p).issues } := by
  fun_induction c.decodeAll img found pending acc with
  | case1 acc => simp
  | case2 role s rest acc missing l hl hmissing scan acc' hnone ih =>
    rw [ih]
    simp [acc', sectionShare, missing, scan, hl, hmissing, hnone]
  | case3 role s rest acc missing l hl hmissing scan address e hfail hpolicy =>
    rw [hc] at hpolicy
    cases hpolicy
  | case4 role s rest acc missing l hl hmissing scan acc' address e hfail hpolicy ih =>
    rw [ih]
    simp [acc', sectionShare, missing, scan, hl, hmissing, hfail]
  | case5 role s rest acc missing hskip ih =>
    rw [ih]
    -- the share of a skipped section is empty
    have hshare : c.sectionShare img found (role, s) = {} := by
      simp only [sectionShare]
      split
      · next l hmissing hl => exact absurd hl (hskip l hmissing)
      · rfl
    simp [hshare]

/-- The share of a section that fits the address space, whose required roles all have a
classified section and whose role has a catalog layout, is the chain of its records from its
first byte, with one issue for the failure that ended it, if any. -/
theorem sectionShare_chain (c : ScanConfig) (img : Image) (found : List (Role × Section))
    {role : Role} {s : Section} {l : Layout} (hfit : s.fits = true)
    (hreq : ∀ needed ∈ c.table.required role, ∃ p ∈ found, p.1 = needed)
    (hl : Catalog.layoutFor role img.order = some l) :
    ∃ failure, Section.Chain s img.id role l c.maxRecords 0 s.address
        (c.sectionShare img found (role, s)).entries failure ∧
      (c.sectionShare img found (role, s)).issues =
        (failure.map fun (address, e) => (⟨img.id, some role, s.name, address, e⟩ : Issue)).toList := by
  have hmissing : ((c.table.required role).any fun needed => !found.any (·.1 == needed)) = false := by
    simpa using hreq
  refine ⟨(s.scan img.id role l c.maxRecords).failure, ?_, ?_⟩
  · simp only [sectionShare, hmissing, hl]
    exact Section.scan_chain hfit hl
  · simp only [sectionShare, hmissing, hl]

end ScanConfig

/-- Adding a container that passes the address-space check, with failures isolated, succeeds:
the image gets the next number, and its records and issues are the classification's issues
followed by the share of each classified section in order. The share of a section whose required
roles have sections and whose role has a catalog layout is the chain of its records from its
first byte, with one issue for the failure that ended it, if any: each record lies at its exact
address, the next starts right after it, and decoding stops only where the section ends, at the
record limit, or at the failing record. -/
theorem Scanner.add_decodes_sectionChains {s : Scanner} {path : String} {c : Container}
    (hpolicy : s.config.policy = .isolate) (haccept : c.checkAddressSpace path = .ok ()) :
    let img := Image.ofContainer s.nextId path c
    let found := (s.config.classify img).1
    let issues := (s.config.classify img).2 ++
      found.flatMap fun p => (s.config.sectionShare img found p).issues
    s.add path c = .ok (s.nextId, issues, { s with
        images := s.images ++ [img]
        entries := s.entries ++ found.flatMap fun p => (s.config.sectionShare img found p).entries
        issues := s.issues ++ issues
        nextId := s.nextId + 1 }) ∧
      ∀ role sec l, (role, sec) ∈ found →
        (∀ needed ∈ s.config.table.required role, ∃ p ∈ found, p.1 = needed) →
        Catalog.layoutFor role c.order = some l →
        ∃ failure, Section.Chain sec s.nextId role l s.config.maxRecords 0 sec.address
            (s.config.sectionShare img found (role, sec)).entries failure ∧
          (s.config.sectionShare img found (role, sec)).issues =
            (failure.map fun (address, e) =>
              (⟨s.nextId, some role, sec.name, address, e⟩ : Issue)).toList := by
  intro img found issues
  have hfits := Container.checkAddressSpace_eq_ok.mp haccept
  refine ⟨?_, ?_⟩
  · -- the scan of the new image is the classification followed by every share
    have hscan : s.config.scanImage img = .ok { entries := found.flatMap fun p =>
        (s.config.sectionShare img found p).entries, issues := issues } := by
      simp only [ScanConfig.scanImage, ScanConfig.decodeAll_isolate hpolicy, List.nil_append]
      rfl
    exact Scanner.add_eq_ok.mpr ⟨haccept, _, hscan, rfl⟩
  · intro role sec l hmem hreq hl
    have hsec := (ScanConfig.classify_mem hmem).1
    exact s.config.sectionShare_chain img found (hfits sec hsec) hreq hl

/-- A fresh scanner isolates failures, and an object with one capture section at `0x1000` passes
the address-space check, so adding it succeeds. -/
theorem captureObject_add_sectionChains :
    let c : Container := { sections := [⟨"__swift5_capture", 0x1000, ⟨#[0, 0, 0, 0, 0, 0, 0, 0]⟩⟩] }
    ({} : Scanner).config.policy = .isolate ∧ c.checkAddressSpace "capture.o" = .ok () ∧
      ∃ r, ({} : Scanner).add "capture.o" c = .ok r := by
  intro c
  have hpolicy : ({} : Scanner).config.policy = .isolate := rfl
  have haccept : c.checkAddressSpace "capture.o" = .ok () := by decide
  exact ⟨hpolicy, haccept, _, (@Scanner.add_decodes_sectionChains {} "capture.o" c hpolicy haccept).1⟩

end SwiftReflection
