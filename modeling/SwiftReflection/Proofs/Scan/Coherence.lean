import Mathlib
import SwiftReflection.Scan.Scanner
import SwiftReflection.Proofs.Decode.Window
/-!
# Coherence of a scanner across calls

A program drives a scanner by a sequence of calls: it adds the container a reader opened (or the
reader's failure), adds a container it loaded itself, or removes an image by number. A call that
fails answers its error and leaves the scanner as it was.

Every run from a fresh scanner keeps the scanner coherent (`Scanner.Coherent`): image numbers
are handed out in order, one per successful add; the records and issues are exactly those of the
loaded images' own scans, concatenated in load order; and every record finds its image. Adding
an image preserves this because everything a scan produces names the image scanned
(`ScanConfig.scanImage_names`), and the same fact makes removal by number drop exactly the
removed image's share.
-/

namespace SwiftReflection

/-! ## What a scan produces -/

@[simp] theorem Image.id_ofContainer (id : Nat) (path : String) (c : Container) :
    (Image.ofContainer id path c).id = id := rfl

/-- Every record and issue of a scan names image `id`. -/
def ImageScan.Names (sc : ImageScan) (id : Nat) : Prop :=
  (∀ e ∈ sc.entries, e.image = id) ∧ ∀ i ∈ sc.issues, i.image = id

theorem ImageScan.Names.add_entries {sc : ImageScan} {id : Nat} {es : List Entry}
    (h : sc.Names id) (hes : ∀ e ∈ es, e.image = id) :
    ({ sc with entries := sc.entries ++ es } : ImageScan).Names id := by
  refine ⟨?_, h.2⟩
  intro e he
  rcases List.mem_append.mp he with he | he
  · exact h.1 e he
  · exact hes e he

theorem ImageScan.Names.add_issue {sc : ImageScan} {id : Nat} {i : Issue}
    (h : sc.Names id) (hi : i.image = id) :
    ({ sc with issues := sc.issues ++ [i] } : ImageScan).Names id := by
  refine ⟨h.1, ?_⟩
  intro i' hi'
  rcases List.mem_append.mp hi' with hi' | hi'
  · exact h.2 i' hi'
  · rw [List.mem_singleton.mp hi', hi]

/-- Every record decoded from a section names the image it was decoded for. -/
theorem decodeRecords_image {img : Nat} {role : Role} {name : String} {l : Layout}
    {limit : Nat} (fuel count : Nat) (w : Window) :
    ∀ e ∈ (decodeRecords img role name l limit fuel count w).entries, e.image = img := by
  fun_induction decodeRecords img role name l limit fuel count w with
  | case5 fuel count w hgo r next hdec hmove rest ih =>
    intro e he
    rcases List.mem_cons.mp he with rfl | he
    · rfl
    · exact ih e he
  | _ => simp

namespace ScanConfig

/-- The scan an image contributes: its records and issues, or nothing if it fails. -/
def scanOf (c : ScanConfig) (img : Image) : ImageScan :=
  match c.scanImage img with
  | .ok sc => sc
  | .error _ => {}

theorem scanOf_eq {c : ScanConfig} {img : Image} {sc : ImageScan}
    (h : c.scanImage img = .ok sc) : c.scanOf img = sc := by
  simp [scanOf, h]

/-- The issues of classifying an image's sections name the image. -/
theorem classify_issues_image (c : ScanConfig) (img : Image) :
    ∀ i ∈ (c.classify img).2, i.image = img.id := by
  unfold classify
  refine List.foldlRecOn
    (motive := fun acc : List (Role × Section) × List Issue => ∀ i ∈ acc.2, i.image = img.id)
    img.sections _ (by simp) ?_
  rintro ⟨found, issues⟩ hacc sec -
  dsimp only
  split
  · exact hacc
  · split
    · intro i hi
      rcases List.mem_append.mp hi with hi | hi
      · exact hacc i hi
      · rw [List.mem_singleton.mp hi]
    · exact hacc

/-- Decoding the classified sections only adds records and issues naming the image. -/
theorem decodeAll_names (c : ScanConfig) (img : Image) (found pending : List (Role × Section))
    (acc : ImageScan) {sc : ImageScan} (h : c.decodeAll img found pending acc = .ok sc) :
    acc.Names img.id → sc.Names img.id := by
  fun_induction c.decodeAll img found pending acc with
  | case1 acc => intro hacc; cases h; exact hacc
  | case2 role s rest acc missing l hl hmissing scan acc' hnone ih =>
    exact fun hacc => ih h (hacc.add_entries (decodeRecords_image _ _ _))
  | case3 => cases h
  | case4 role s rest acc missing l hl hmissing scan acc' address e hfail hpolicy ih =>
    -- the failure is recorded as an issue of this image
    exact fun hacc => ih h ((hacc.add_entries (decodeRecords_image _ _ _)).add_issue rfl)
  | case5 role s rest acc missing hskip ih => exact fun hacc => ih h hacc

/-- Everything a scan of an image produces names that image. -/
theorem scanImage_names {c : ScanConfig} {img : Image} {sc : ImageScan}
    (h : c.scanImage img = .ok sc) : sc.Names img.id := by
  have hcl := c.classify_issues_image img
  unfold scanImage at h
  rcases hc : c.classify img with ⟨found, issues⟩
  rw [hc] at h hcl
  exact c.decodeAll_names img found found _ h ⟨by simp, hcl⟩

/-- Decoding the classified sections reads only an image's number and byte order. -/
theorem decodeAll_congr (c : ScanConfig) {img img' : Image} (hid : img.id = img'.id)
    (horder : img.order = img'.order) (found pending : List (Role × Section))
    (acc : ImageScan) :
    c.decodeAll img found pending acc = c.decodeAll img' found pending acc := by
  induction pending generalizing acc with
  | nil => rfl
  | cons head rest ih =>
    obtain ⟨role, s⟩ := head
    simp only [decodeAll, hid, horder, ih]

/-- A scan reads only an image's number, sections and byte order: not its path, its symbols or
its pointer width. -/
theorem scanImage_congr (c : ScanConfig) {img img' : Image} (hid : img.id = img'.id)
    (hsections : img.sections = img'.sections) (horder : img.order = img'.order) :
    c.scanImage img = c.scanImage img' := by
  have hcl : c.classify img = c.classify img' := by
    unfold classify
    rw [hid, hsections]
  unfold scanImage
  rw [hcl]
  simp only [c.decodeAll_congr hid horder]

end ScanConfig

/-! ## Lists of tagged blocks -/

/-- Dropping the items tagged `id` from a concatenation of blocks, where each block's items are
tagged with its owner, drops exactly the blocks whose owner is `id`. -/
theorem filter_flatMap_of_owner {α β : Type} {f : α → List β} {owner : α → Nat}
    {tag : β → Nat} (id : Nat) :
    ∀ {l : List α}, (∀ a ∈ l, ∀ b ∈ f a, tag b = owner a) →
      (l.flatMap f).filter (fun b => tag b != id) =
        (l.filter fun a => owner a != id).flatMap f := by
  intro l
  induction l with
  | nil => intro _; rfl
  | cons a l ih =>
    intro h
    have hl := ih fun a' ha' => h a' (List.mem_cons_of_mem a ha')
    have ha := h a List.mem_cons_self
    rw [List.flatMap_cons, List.filter_append, hl, List.filter_cons]
    by_cases hown : owner a = id
    · have hnil : (f a).filter (fun b => tag b != id) = [] :=
        List.filter_eq_nil_iff.mpr fun b hb => by simp [ha b hb, hown]
      simp [hnil, hown]
    · have hall : (f a).filter (fun b => tag b != id) = f a :=
        List.filter_eq_self.mpr fun b hb => by simp [ha b hb, hown]
      simp [hall, hown]

/-- In a list of images whose numbers increase, looking up an image's number finds it. -/
theorem find?_id_of_increasing {img : Image} :
    ∀ {l : List Image}, (l.map Image.id).Pairwise (· < ·) → img ∈ l →
      l.find? (·.id == img.id) = some img := by
  intro l
  induction l with
  | nil => intro _ hm; cases hm
  | cons a l ih =>
    intro hinc hm
    rw [List.map_cons, List.pairwise_cons] at hinc
    rcases List.mem_cons.mp hm with rfl | hm
    · simp
    · have hlt : a.id < img.id := hinc.1 img.id (List.mem_map_of_mem hm)
      rw [List.find?_cons_of_neg (by simp; omega)]
      exact ih hinc.2 hm

/-! ## Calls and runs -/

namespace Scanner

/-- A call a program makes on a scanner. -/
inductive Call where
  /-- Adds the container a reader opened at a path, or the reader's failure. -/
  | addImage (path : String) (opened : Except Error Container)
  /-- Adds a container the program loaded itself, under a name. -/
  | addObject (name : String) (object : Container)
  /-- Unloads an image by number. -/
  | removeImage (id : Nat)

/-- What a call answers: the number of an added image, the removed image, or an error. -/
inductive Answer where
  | added (id : Nat)
  | removed (img : Image)
  | failed (e : Error)

/-- The number an answer reports as added. -/
def Answer.added? : Answer → Option Nat
  | .added id => some id
  | _ => none

/-- The answer of an add and the scanner after it. -/
def answerAdd (s : Scanner) : Except Error (Nat × List Issue × Scanner) → Answer × Scanner
  | .ok (id, _, s') => (.added id, s')
  | .error e => (.failed e, s)

/-- Makes a call: its answer and the scanner after it, which is the scanner before it when the
call fails. -/
def call (s : Scanner) : Call → Answer × Scanner
  | .addImage path opened => s.answerAdd (s.addImage path opened)
  | .addObject name object => s.answerAdd (s.add name object)
  | .removeImage id =>
    match s.remove id with
    | .ok (img, s') => (.removed img, s')
    | .error e => (.failed e, s)

/-- Makes calls one after the other: their answers, and the scanner after the last. -/
def session (s : Scanner) : List Call → List Answer × Scanner
  | [] => ([], s)
  | c :: cs =>
    let rest := (s.call c).2.session cs
    ((s.call c).1 :: rest.1, rest.2)

@[simp] theorem session_nil (s : Scanner) : s.session [] = ([], s) := rfl

@[simp] theorem session_cons (s : Scanner) (c : Call) (cs : List Call) :
    s.session (c :: cs) =
      ((s.call c).1 :: ((s.call c).2.session cs).1, ((s.call c).2.session cs).2) := rfl

/-! ## What one call does -/

theorem add_eq_ok {s : Scanner} {path : String} {c : Container}
    {r : Nat × List Issue × Scanner} :
    s.add path c = .ok r ↔ c.checkAddressSpace path = .ok () ∧
      ∃ sc, s.config.scanImage (Image.ofContainer s.nextId path c) = .ok sc ∧
        r = (s.nextId, sc.issues, { s with
          images := s.images ++ [Image.ofContainer s.nextId path c]
          entries := s.entries ++ sc.entries
          issues := s.issues ++ sc.issues
          nextId := s.nextId + 1 }) := by
  unfold add
  cases hcheck : c.checkAddressSpace path with
  | error e => simp [bind, Except.bind]
  | ok u =>
    cases hscan : s.config.scanImage (Image.ofContainer s.nextId path c) with
    | error e => simp [bind, Except.bind, hscan]
    | ok sc => simp [bind, Except.bind, hscan, pure, Except.pure, eq_comm]

theorem addImage_eq_ok {s : Scanner} {path : String} {opened : Except Error Container}
    {r : Nat × List Issue × Scanner} :
    s.addImage path opened = .ok r ↔ ∃ c, opened = .ok c ∧ s.add path c = .ok r := by
  unfold addImage
  exact bind_eq_ok

theorem remove_eq_ok {s : Scanner} {id : Nat} {img : Image} {s' : Scanner} :
    s.remove id = .ok (img, s') ↔ s.image id = .ok img ∧
      s' = { s with
        images := s.images.filter (·.id != id)
        entries := s.entries.filter (·.image != id)
        issues := s.issues.filter (·.image != id) } := by
  unfold remove
  cases himg : s.image id with
  | error e => simp [bind, Except.bind]
  | ok img' => simp [bind, Except.bind, pure, Except.pure, eq_comm]

/-- What one call can do: fail and leave the scanner as it was, add a container under the
answered number, or remove a loaded image. -/
theorem call_cases (s : Scanner) (c : Call) :
    (∃ e, s.call c = (.failed e, s)) ∨
      (∃ path object r, s.add path object = .ok r ∧ s.call c = (.added r.1, r.2.2)) ∨
      (∃ id img s', s.remove id = .ok (img, s') ∧ s.call c = (.removed img, s')) := by
  cases c with
  | addImage path opened =>
    cases h : s.addImage path opened with
    | error e => exact .inl ⟨e, by simp [call, h, answerAdd]⟩
    | ok r =>
      obtain ⟨object, -, hadd⟩ := addImage_eq_ok.mp h
      obtain ⟨id, issues, s'⟩ := r
      exact .inr (.inl ⟨path, object, _, hadd, by simp [call, h, answerAdd]⟩)
  | addObject name object =>
    cases h : s.add name object with
    | error e => exact .inl ⟨e, by simp [call, h, answerAdd]⟩
    | ok r =>
      obtain ⟨id, issues, s'⟩ := r
      exact .inr (.inl ⟨name, object, _, h, by simp [call, h, answerAdd]⟩)
  | removeImage id =>
    cases h : s.remove id with
    | error e => exact .inl ⟨e, by simp [call, h]⟩
    | ok r =>
      obtain ⟨img, s'⟩ := r
      exact .inr (.inr ⟨id, img, s', h, by simp [call, h]⟩)

/-- A call either adds an image under the next number and counts it, or hands out no number. -/
theorem call_added (s : Scanner) (c : Call) :
    (s.call c).1.added? = none ∧ (s.call c).2.nextId = s.nextId ∨
      (s.call c).1.added? = some s.nextId ∧ (s.call c).2.nextId = s.nextId + 1 := by
  rcases s.call_cases c with ⟨e, hc⟩ | ⟨path, object, r, hadd, hc⟩ | ⟨id, img, s', hrem, hc⟩
  · rw [hc]
    exact .inl ⟨rfl, rfl⟩
  · obtain ⟨-, sc, -, rfl⟩ := add_eq_ok.mp hadd
    rw [hc]
    exact .inr ⟨rfl, rfl⟩
  · obtain ⟨-, rfl⟩ := remove_eq_ok.mp hrem
    rw [hc]
    exact .inl ⟨rfl, rfl⟩

/-- No call changes the configuration. -/
theorem call_config (s : Scanner) (c : Call) : (s.call c).2.config = s.config := by
  rcases s.call_cases c with ⟨e, hc⟩ | ⟨path, object, r, hadd, hc⟩ | ⟨id, img, s', hrem, hc⟩
  · rw [hc]
  · obtain ⟨-, sc, -, rfl⟩ := add_eq_ok.mp hadd
    rw [hc]
  · obtain ⟨-, rfl⟩ := remove_eq_ok.mp hrem
    rw [hc]

/-! ## The invariant -/

/-- The invariant of every scanner a run reaches: its images in increasing number order, all
below the next number, each loaded from a container under its own number and scanned
successfully; and its records and issues exactly those of its images' scans, in load order. -/
structure Coherent (s : Scanner) : Prop where
  increasing : (s.images.map Image.id).Pairwise (· < ·)
  below : ∀ img ∈ s.images, img.id < s.nextId
  loaded : ∀ img ∈ s.images, ∃ path object, img = Image.ofContainer img.id path object
  scanned : ∀ img ∈ s.images, s.config.scanImage img = .ok (s.config.scanOf img)
  entries_eq : s.entries = s.images.flatMap fun img => (s.config.scanOf img).entries
  issues_eq : s.issues = s.images.flatMap fun img => (s.config.scanOf img).issues

theorem coherent_fresh (config : ScanConfig) : ({ config := config } : Scanner).Coherent where
  increasing := List.Pairwise.nil
  below := by simp
  loaded := by simp
  scanned := by simp
  entries_eq := rfl
  issues_eq := rfl

section Coherent

variable {s : Scanner} (h : s.Coherent)
include h

theorem Coherent.names {img : Image} (hm : img ∈ s.images) :
    (s.config.scanOf img).Names img.id :=
  ScanConfig.scanImage_names (h.scanned img hm)

theorem Coherent.image_eq {img : Image} (hm : img ∈ s.images) : s.image img.id = .ok img := by
  simp [image, image?, find?_id_of_increasing h.increasing hm]

/-- Every record of a coherent scanner names a loaded image, which the lookup finds. -/
theorem Coherent.entry_image {e : Entry} (he : e ∈ s.entries) :
    ∃ img ∈ s.images, img.id = e.image ∧ s.image e.image = .ok img := by
  rw [h.entries_eq, List.mem_flatMap] at he
  obtain ⟨img, hm, he⟩ := he
  have hid : e.image = img.id := (h.names hm).1 e he
  exact ⟨img, hm, hid.symm, hid ▸ h.image_eq hm⟩

/-- Every issue of a coherent scanner names a loaded image, which the lookup finds. -/
theorem Coherent.issue_image {i : Issue} (hi : i ∈ s.issues) :
    ∃ img ∈ s.images, img.id = i.image ∧ s.image i.image = .ok img := by
  rw [h.issues_eq, List.mem_flatMap] at hi
  obtain ⟨img, hm, hi⟩ := hi
  have hid : i.image = img.id := (h.names hm).2 i hi
  exact ⟨img, hm, hid.symm, hid ▸ h.image_eq hm⟩

/-- Adding a container keeps a scanner coherent. -/
theorem Coherent.add {path : String} {c : Container} {r : Nat × List Issue × Scanner}
    (hadd : s.add path c = .ok r) : r.2.2.Coherent := by
  obtain ⟨-, sc, hscan, rfl⟩ := add_eq_ok.mp hadd
  have hsc : s.config.scanOf (Image.ofContainer s.nextId path c) = sc := ScanConfig.scanOf_eq hscan
  constructor
  · -- the new image's number is above every loaded one
    simp only [List.map_append, List.map_singleton, List.pairwise_append, List.pairwise_singleton,
      List.mem_singleton, true_and, h.increasing]
    intro a ha b hb
    obtain ⟨img, hm, rfl⟩ := List.mem_map.mp ha
    exact hb ▸ h.below img hm
  · intro img hm
    rcases List.mem_append.mp hm with hm | hm
    · exact Nat.lt_succ_of_lt (h.below img hm)
    · rw [List.mem_singleton.mp hm]
      exact Nat.lt_succ_self _
  · intro img hm
    rcases List.mem_append.mp hm with hm | hm
    · exact h.loaded img hm
    · rw [List.mem_singleton.mp hm]
      exact ⟨path, c, rfl⟩
  · intro img hm
    rcases List.mem_append.mp hm with hm | hm
    · exact h.scanned img hm
    · rw [List.mem_singleton.mp hm, hsc]
      exact hscan
  · simp only [List.flatMap_append, List.flatMap_singleton, hsc, h.entries_eq]
  · simp only [List.flatMap_append, List.flatMap_singleton, hsc, h.issues_eq]

/-- Removing an image keeps a scanner coherent. -/
theorem Coherent.remove {id : Nat} {img : Image} {s' : Scanner}
    (hrem : s.remove id = .ok (img, s')) : s'.Coherent := by
  obtain ⟨-, rfl⟩ := remove_eq_ok.mp hrem
  have hsub : (s.images.filter (·.id != id)).Sublist s.images := List.filter_sublist
  -- a loaded image's records and issues all carry its number, so filtering them by number
  -- drops whole images
  have hent : ∀ a ∈ s.images, ∀ e ∈ (s.config.scanOf a).entries, e.image = a.id :=
    fun a hm => (h.names hm).1
  have hiss : ∀ a ∈ s.images, ∀ i ∈ (s.config.scanOf a).issues, i.image = a.id :=
    fun a hm => (h.names hm).2
  constructor
  · exact h.increasing.sublist (hsub.map _)
  · exact fun img hm => h.below img (hsub.subset hm)
  · exact fun img hm => h.loaded img (hsub.subset hm)
  · exact fun img hm => h.scanned img (hsub.subset hm)
  · rw [h.entries_eq]
    exact filter_flatMap_of_owner id hent
  · rw [h.issues_eq]
    exact filter_flatMap_of_owner id hiss

/-- Every call keeps a scanner coherent. -/
theorem Coherent.call (c : Call) : (s.call c).2.Coherent := by
  rcases s.call_cases c with ⟨e, hc⟩ | ⟨path, object, r, hadd, hc⟩ | ⟨id, img, s', hrem, hc⟩
  · rw [hc]
    exact h
  · rw [hc]
    exact h.add hadd
  · rw [hc]
    exact h.remove hrem

end Coherent

/-! ## Whole runs -/

/-- Every run keeps a coherent scanner coherent. -/
theorem Coherent.session {s : Scanner} (h : s.Coherent) (calls : List Call) :
    (s.session calls).2.Coherent := by
  induction calls generalizing s with
  | nil => exact h
  | cons c cs ih => exact ih (h.call c)

/-- No run changes the configuration. -/
theorem session_config (s : Scanner) (calls : List Call) :
    (s.session calls).2.config = s.config := by
  induction calls generalizing s with
  | nil => rfl
  | cons c cs ih => exact (ih _).trans (s.call_config c)

/-- The numbers a run answers as added are the consecutive numbers from the scanner's next one
to the next one after the run. -/
theorem session_added (s : Scanner) (calls : List Call) :
    (s.session calls).1.filterMap Answer.added? =
        List.range' s.nextId ((s.session calls).2.nextId - s.nextId) ∧
      s.nextId ≤ (s.session calls).2.nextId := by
  induction calls generalizing s with
  | nil => simp [session]
  | cons c cs ih =>
    obtain ⟨ihs, ihle⟩ := ih (s.call c).2
    rw [session_cons, List.filterMap_cons]
    rcases s.call_added c with ⟨hnone, hnext⟩ | ⟨hsome, hnext⟩
    · rw [hnext] at ihs ihle
      simp only [hnone]
      exact ⟨ihs, ihle⟩
    · -- the call's number is the first of the run, and the rest follow from the next one on
      rw [hnext] at ihs ihle
      simp only [hsome]
      refine ⟨?_, by omega⟩
      have hk : ((s.call c).2.session cs).2.nextId - s.nextId =
          (((s.call c).2.session cs).2.nextId - (s.nextId + 1)) + 1 := by omega
      rw [hk, List.range'_succ, ihs]

/-! ## The scanner after any run -/

/-- After any run of calls from a fresh scanner: the numbers answered as added are `0, 1, …` in
order, one per successful add; the loaded images' numbers increase in load order; each loaded
image is a container under its number, scanned successfully, and what its scan contributes
depends only on the configuration, the container and the number; the records of each role and
the issues are the concatenation, in load order, of the loaded images' own scans; every record
and issue names a loaded image that the lookup finds, so a typed view gives one result per
record, the view of the record in its own image; and the state counts the loaded images. -/
theorem session_coherent (config : ScanConfig) (calls : List Call) :
    let run := ({ config := config } : Scanner).session calls
    let s := run.2
    run.1.filterMap Answer.added? = List.range s.nextId ∧
    (s.images.map Image.id).Pairwise (· < ·) ∧
    (∀ img ∈ s.images, (∃ path object, img = Image.ofContainer img.id path object) ∧
      config.scanImage img = .ok (config.scanOf img)) ∧
    (∀ id path path' object, config.scanOf (Image.ofContainer id path object) =
      config.scanOf (Image.ofContainer id path' object)) ∧
    (∀ role, s.records role =
      s.images.flatMap fun img => (config.scanOf img).entries.filter (·.role == role)) ∧
    s.issues = s.images.flatMap (fun img => (config.scanOf img).issues) ∧
    (∀ e ∈ s.entries, ∃ img ∈ s.images, img.id = e.image ∧ s.image e.image = .ok img) ∧
    (∀ i ∈ s.issues, ∃ img ∈ s.images, img.id = i.image ∧ s.image i.image = .ok img) ∧
    (∀ {α : Type} (role : Role) (view : Image → Record → Except Error α),
      List.Forall₂ (fun e r => ∃ img ∈ s.images, img.id = e.image ∧ r = view img e.value)
        (s.records role) (s.typed role view)) ∧
    (s.state = .empty ↔ s.images = []) ∧
    (s.images ≠ [] → s.state = .loaded s.images.length) := by
  intro run s
  have h : s.Coherent := (coherent_fresh config).session calls
  have hconfig : s.config = config := session_config _ calls
  have hadded := (session_added { config := config } calls).1
  refine ⟨?_, h.increasing, fun img hm => ⟨h.loaded img hm, hconfig ▸ h.scanned img hm⟩, ?_, ?_,
    hconfig ▸ h.issues_eq, fun e he => h.entry_image he, fun i hi => h.issue_image hi, ?_, ?_,
    ?_⟩
  · -- a fresh scanner's next number is 0
    rw [List.range_eq_range']
    simpa using hadded
  · intro id path path' object
    have hscan : config.scanImage (Image.ofContainer id path object) =
        config.scanImage (Image.ofContainer id path' object) := config.scanImage_congr rfl rfl rfl
    unfold ScanConfig.scanOf
    rw [hscan]
  · intro role
    rw [records, h.entries_eq, hconfig, List.filter_flatMap]
  · intro α role view
    unfold typed
    rw [List.forall₂_map_right_iff, List.forall₂_same]
    intro e he
    obtain ⟨img, hm, hid, himg⟩ := h.entry_image (List.mem_filter.mp he).1
    exact ⟨img, hm, hid, by rw [himg]; rfl⟩
  · simp [state]
  · intro hne
    simp [state, hne]

end Scanner

end SwiftReflection
