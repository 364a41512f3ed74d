import Mathlib
import SwiftReflection.Proofs.Scan.Sections
/-!
# Failing fast and isolating failures agree until a section fails

The failure policy of a scanner is consulted at one place only: when the decoding of a
classified section stops at a failing record. Everything else a scan does (classifying the
sections, skipping those whose required roles are absent or whose role has no layout, decoding
the others back to back) is the same under both policies, so the share of each section
(`ScanConfig.sectionShare`) does not depend on the policy.

Isolating failures, a scan is the classification's issues, which have no role, followed by the
share of each classified section, whose one issue, if any, carries the section's role
(`ScanConfig.decodeAll_isolate`). Failing fast, a scan answers the error of the first share that
has an issue and otherwise adds the same records (`ScanConfig.decodeAll_failFast`). Hence
`Scanner.failFast_agrees_with_isolate`: adding a container under the two policies gives the same
image number, records and issues exactly when isolating records no issue with a role, and
otherwise failing fast answers the error of the first such issue and keeps the scanner.
-/

namespace SwiftReflection

/-- The scanner with its failure policy replaced. -/
def Scanner.withPolicy (s : Scanner) (p : FailurePolicy) : Scanner :=
  { s with config := { s.config with policy := p } }

namespace ScanConfig

/-- The share of a section is the same under every failure policy. -/
@[simp] theorem sectionShare_policy (c : ScanConfig) (p : FailurePolicy) (img : Image)
    (found : List (Role × Section)) (x : Role × Section) :
    ({ c with policy := p } : ScanConfig).sectionShare img found x = c.sectionShare img found x :=
  rfl

/-- Classification reads the section table only. -/
@[simp] theorem classify_policy (c : ScanConfig) (p : FailurePolicy) (img : Image) :
    ({ c with policy := p } : ScanConfig).classify img = c.classify img :=
  rfl

/-- The issues of classifying sections have no role, and each reports an unrecognized section. -/
theorem classify_issues_unrecognized (c : ScanConfig) (img : Image) :
    ∀ i ∈ (c.classify img).2, i.role = none ∧ i.error = .unrecognizedSection i.sectionName := by
  unfold classify
  refine List.foldlRecOn
    (motive := fun acc : List (Role × Section) × List Issue =>
      ∀ i ∈ acc.2, i.role = none ∧ i.error = .unrecognizedSection i.sectionName)
    img.sections _ (by simp) ?_
  rintro ⟨found, issues⟩ hacc sec -
  dsimp only
  split
  · exact hacc
  · split
    · intro i hi
      rcases List.mem_append.mp hi with hi | hi
      · exact hacc i hi
      · rw [List.mem_singleton.mp hi]
        exact ⟨rfl, rfl⟩
    · exact hacc

/-- The issue of a section's share, if any, carries the section's role. -/
theorem sectionShare_issues_role (c : ScanConfig) (img : Image) (found : List (Role × Section))
    (x : Role × Section) : ∀ i ∈ (c.sectionShare img found x).issues, i.role = some x.1 := by
  obtain ⟨role, s⟩ := x
  simp only [sectionShare]
  split
  · intro i hi
    simp only [Option.mem_toList, Option.map_eq_some_iff] at hi
    obtain ⟨_, -, rfl⟩ := hi
    rfl
  · simp

/-- Failing fast, decoding the classified sections answers the error of the first share that has
an issue; when no share has one, it adds every share's records and no issue. -/
theorem decodeAll_failFast {c : ScanConfig} (hc : c.policy = .failFast) (img : Image)
    (found pending : List (Role × Section)) (acc : ImageScan) :
    (∀ i, (pending.flatMap fun p => (c.sectionShare img found p).issues).head? = some i →
      c.decodeAll img found pending acc = .error i.error) ∧
    ((pending.flatMap fun p => (c.sectionShare img found p).issues) = [] →
      c.decodeAll img found pending acc =
        .ok { acc with entries := acc.entries ++
          pending.flatMap fun p => (c.sectionShare img found p).entries }) := by
  fun_induction c.decodeAll img found pending acc with
  | case1 acc => simp
  | case2 role s rest acc missing l hl hmissing scan acc' hnone ih =>
    -- a section decoded to its end has no issue and adds its records
    have hshare : c.sectionShare img found (role, s) = { entries := scan.entries } := by
      simp [sectionShare, missing, scan, hl, hmissing, hnone]
    simp only [List.flatMap_cons, hshare, List.nil_append]
    refine ⟨ih.1, fun hnil => ?_⟩
    rw [ih.2 hnil]
    simp [acc']
  | case3 role s rest acc missing l hl hmissing scan address e hfail hpolicy =>
    -- the first failure is the answer, and it is the issue of this section's share
    have hshare : (c.sectionShare img found (role, s)).issues =
        [⟨img.id, some role, s.name, address, e⟩] := by
      simp [sectionShare, missing, scan, hl, hmissing, hfail]
    simp [hshare]
  | case4 role s rest acc missing l hl hmissing scan acc' address e hfail hpolicy ih =>
    rw [hc] at hpolicy
    cases hpolicy
  | case5 role s rest acc missing hskip ih =>
    have hshare : c.sectionShare img found (role, s) = {} := by
      simp only [sectionShare]
      split
      · next l hmissing hl => exact absurd hl (hskip l hmissing)
      · rfl
    simpa [hshare] using ih

/-- Scanning an image under the two failure policies. Isolating failures, the scan succeeds; its
issues without a role are unrecognized sections. Failing fast, the scan is the same when none of
its issues has a role, and otherwise fails with the error of the first issue that has one. -/
theorem scanImage_policies (c : ScanConfig) (img : Image) :
    ∃ sc, ({ c with policy := .isolate } : ScanConfig).scanImage img = .ok sc ∧
      (∀ i ∈ sc.issues, i.role = none → i.error = .unrecognizedSection i.sectionName) ∧
      ((∀ i ∈ sc.issues, i.role = none) →
        ({ c with policy := .failFast } : ScanConfig).scanImage img = .ok sc) ∧
      ∀ i, sc.issues.find? (fun i => i.role.isSome) = some i →
        ({ c with policy := .failFast } : ScanConfig).scanImage img = .error i.error := by
  have hclass := c.classify_issues_unrecognized img
  rcases hcl : c.classify img with ⟨found, issues⟩
  rw [hcl] at hclass
  have hiso := decodeAll_isolate (c := { c with policy := .isolate }) rfl img found found
    { issues := issues }
  have hfast := decodeAll_failFast (c := { c with policy := .failFast }) rfl img found found
    { issues := issues }
  simp only [sectionShare_policy, List.nil_append] at hiso hfast
  simp only [scanImage, classify_policy, hcl, hiso]
  -- the shares' issues are the issues with a role
  have hshares : ∀ i ∈ found.flatMap (fun p => (c.sectionShare img found p).issues),
      i.role.isSome := by
    intro i hi
    obtain ⟨p, -, hp⟩ := List.mem_flatMap.mp hi
    simp [c.sectionShare_issues_role img found p i hp]
  refine ⟨_, rfl, fun i hi hnone => ?_, fun hnone => ?_, fun i hi => ?_⟩
  · rcases List.mem_append.mp hi with hi | hi
    · exact (hclass i hi).2
    · exact absurd (hshares i hi) (by simp [hnone])
  · -- no issue with a role: the shares have none, and failing fast gives the same scan
    have hnil : found.flatMap (fun p => (c.sectionShare img found p).issues) = [] :=
      List.eq_nil_iff_forall_not_mem.mpr fun i hi =>
        absurd (hshares i hi) (by simp [hnone i (List.mem_append_right _ hi)])
    rw [hfast.2 hnil, hnil, List.append_nil]
  · -- the first issue with a role is the first share issue
    have hfind : (issues ++ found.flatMap (fun p => (c.sectionShare img found p).issues)).find?
        (fun i => i.role.isSome) = (found.flatMap (fun p => (c.sectionShare img found p).issues)).head? := by
      rw [List.find?_append, List.find?_eq_none.mpr (fun i hi => by simp [(hclass i hi).1])]
      cases h : found.flatMap (fun p => (c.sectionShare img found p).issues) with
      | nil => rfl
      | cons i rest => simp [hshares i (by simp [h])]
    rw [hfind] at hi
    exact hfast.1 i hi

end ScanConfig

namespace Scanner

/-- An add that passes the address-space check commits the scan of the new image. -/
theorem add_of_accepted (s : Scanner) {path : String} {c : Container}
    (haccept : c.checkAddressSpace path = .ok ()) :
    s.add path c = (s.config.scanImage (Image.ofContainer s.nextId path c)).map fun scan =>
      (s.nextId, scan.issues, { s with
        images := s.images ++ [Image.ofContainer s.nextId path c]
        entries := s.entries ++ scan.entries
        issues := s.issues ++ scan.issues
        nextId := s.nextId + 1 }) := by
  simp only [add, haccept, ok_bind]
  cases s.config.scanImage (Image.ofContainer s.nextId path c) <;> rfl

/-- Adding a container that passes the address-space check gives the same answer under both
failure policies as long as no section fails. Isolating failures, the add succeeds with some
issues; failing fast, it succeeds exactly when none of those issues has a role (the others are
the unrecognized sections), and then with the same image number, issues and scanner, records
included. Otherwise failing fast answers the error of the first issue with a role, in classified
section order, and the scanner stays as it was. -/
theorem failFast_agrees_with_isolate (s : Scanner) {path : String} {c : Container}
    (haccept : c.checkAddressSpace path = .ok ()) :
    ∃ issues s', (s.withPolicy .isolate).add path c = .ok (s.nextId, issues, s') ∧
      (∀ i ∈ issues, i.role = none → i.error = .unrecognizedSection i.sectionName) ∧
      ((∃ r, (s.withPolicy .failFast).add path c = .ok r) ↔ ∀ i ∈ issues, i.role = none) ∧
      ((∀ i ∈ issues, i.role = none) →
        (s.withPolicy .failFast).add path c = .ok (s.nextId, issues, s'.withPolicy .failFast)) ∧
      ∀ i, issues.find? (fun i => i.role.isSome) = some i →
        (s.withPolicy .failFast).add path c = .error i.error ∧
          ((s.withPolicy .failFast).call (.addObject path c)).2 = s.withPolicy .failFast := by
  obtain ⟨sc, hiso, hunrec, hsame, hfirst⟩ :=
    s.config.scanImage_policies (Image.ofContainer s.nextId path c)
  -- the scanner after the add, isolating failures
  let s' : Scanner := { s.withPolicy .isolate with
    images := s.images ++ [Image.ofContainer s.nextId path c]
    entries := s.entries ++ sc.entries
    issues := s.issues ++ sc.issues
    nextId := s.nextId + 1 }
  have hfail : ∀ i, sc.issues.find? (fun i => i.role.isSome) = some i →
      (s.withPolicy .failFast).add path c = .error i.error := by
    intro i hi
    rw [add_of_accepted _ haccept]
    exact congrArg (Except.map _) (hfirst i hi)
  have hok : (∀ i ∈ sc.issues, i.role = none) →
      (s.withPolicy .failFast).add path c = .ok (s.nextId, sc.issues, s'.withPolicy .failFast) := by
    intro hnone
    rw [add_of_accepted _ haccept]
    exact congrArg (Except.map _) (hsame hnone)
  refine ⟨sc.issues, s', ?_, hunrec, ⟨fun ⟨r, hr⟩ => ?_, fun hnone => ⟨_, hok hnone⟩⟩, hok,
    fun i hi => ⟨hfail i hi, by simp [call, answerAdd, hfail i hi]⟩⟩
  · rw [add_of_accepted _ haccept]
    exact congrArg (Except.map _) hiso
  · -- a fast add that succeeds met no issue with a role
    intro i hi
    cases hfind : sc.issues.find? (fun i => i.role.isSome) with
    | none => simpa using List.find?_eq_none.mp hfind i hi
    | some j => rw [hfail j hfind] at hr; cases hr

/-- A builtin-types section of three bytes, too short for one record, passes the address-space
check, so both policies answer alike as the theorem says. -/
theorem shortBuiltin_policies_agree :
    let c : Container := { sections := [⟨"__swift5_builtin", 0x1000, ⟨#[1, 2, 3]⟩⟩] }
    c.checkAddressSpace "demo.o" = .ok () ∧
      ∃ issues s', (({} : Scanner).withPolicy .isolate).add "demo.o" c = .ok (0, issues, s') ∧
        (∀ i ∈ issues, i.role = none → i.error = .unrecognizedSection i.sectionName) ∧
        ((∃ r, (({} : Scanner).withPolicy .failFast).add "demo.o" c = .ok r) ↔
          ∀ i ∈ issues, i.role = none) ∧
        ((∀ i ∈ issues, i.role = none) → (({} : Scanner).withPolicy .failFast).add "demo.o" c =
          .ok (0, issues, s'.withPolicy .failFast)) ∧
        ∀ i, issues.find? (fun i => i.role.isSome) = some i →
          (({} : Scanner).withPolicy .failFast).add "demo.o" c = .error i.error ∧
            ((({} : Scanner).withPolicy .failFast).call (.addObject "demo.o" c)).2 =
              ({} : Scanner).withPolicy .failFast := by
  intro c
  have haccept : c.checkAddressSpace "demo.o" = .ok () := by decide
  exact ⟨haccept, failFast_agrees_with_isolate {} haccept⟩

end Scanner

end SwiftReflection
