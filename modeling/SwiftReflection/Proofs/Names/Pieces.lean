import Mathlib
import SwiftReflection.Names.Run
import SwiftReflection.Pointer.Resolve
/-!
# Name runs: the extent scan and the pieces read one grammar

A symbolic name run is read by two loops. `runExtent?` walks a buffer step by step to find where
the run ends: a zero byte ends it, a control byte skips its payload (4 bytes from `0x01` to
`0x17`, the pointer width from `0x18` to `0x1F`), any other byte is one step of text.
`NameRun.pieces` then splits the run into text and references. The two treat a zero differently
(the terminator for the scan, text for the pieces) and check payloads against different ends
(the whole buffer for the scan, the run for the pieces).

Each loop is described here by a grammar of its own:

* `Scans w bs`, the scan's steps: nonzero text bytes and control bytes with their whole payload.
  `runExtent?_eq_some_iff`: the extent is `n` exactly when the first `n` bytes are such steps and
  byte `n` is zero.
* `NameRun.Spells r i bs ps`, the pieces': maximal text pieces, each reference with its payload
  and the target `payloadTarget` gives it, and at most one last text piece that holds a control
  byte whose payload runs past the end. `spells_pieces` and `Spells.unique`: the pieces of every
  run spell it, and no other pieces do.

The bytes are steps of the scan exactly when no text piece holds a byte below `0x20`
(`Spells.scans_iff_text_ge`): then each control byte heads a reference piece with its whole
payload, the step the scan takes there, and the truncated-payload case never arises.
`NameRun.pieces_follow_extent` puts the two together, and `Image.nameRunAt_scans` applies it to
the runs the resolver reads from an image.
-/

namespace SwiftReflection

/-! ## Control bytes -/

/-- A byte has no payload exactly when it is zero or at least `0x20`. -/
theorem payloadLength_eq_none_iff {w : Nat} {x : UInt8} :
    payloadLength w x = none ↔ x = 0 ∨ 0x20 ≤ x := by
  unfold payloadLength
  have h := x.toNat_lt
  split_ifs with h1 h2 <;>
    simp_all [UInt8.le_iff_toNat_le, UInt8.ext_iff] <;> omega

theorem ne_zero_of_payloadLength {w p : Nat} {c : UInt8} (h : payloadLength w c = some p) :
    c ≠ 0 := by
  rintro rfl
  simp [payloadLength] at h

theorem lt_of_payloadLength {w p : Nat} {c : UInt8} (h : payloadLength w c = some p) :
    c < 0x20 := by
  have hnone : ¬ payloadLength w c = none := by simp [h]
  rw [payloadLength_eq_none_iff, not_or] at hnone
  exact UInt8.not_le.mp hnone.2

/-- A byte without payload cannot start a reference. -/
theorem not_reference_of_plain {w : Nat} {x c : UInt8} {t rest : List UInt8} {p : Nat}
    (hx : payloadLength w x = none) (hc : payloadLength w c = some p)
    (h : x :: t = c :: rest) : False := by
  simp only [List.cons.injEq] at h
  rw [h.1, hc] at hx
  cases hx

/-- A control byte's payload that fits after it is no payload that runs past the end. -/
theorem le_length_of_payloadLength {w p : Nat} {c : UInt8} {payload rest : List UInt8}
    (hfit : payloadLength w c = some payload.length) (h : payloadLength w c = some p) :
    p ≤ (payload ++ rest).length := by
  rw [hfit, Option.some.injEq] at h
  simp only [List.length_append]
  omega

/-- Two splits of one list into bytes without payload followed by a rest that is empty or starts
with a control byte are the same split. -/
theorem plain_split_unique {w : Nat} {t t' u u' : List UInt8}
    (ht : ∀ x ∈ t, payloadLength w x = none) (ht' : ∀ x ∈ t', payloadLength w x = none)
    (hu : ∀ x ∈ u.head?, payloadLength w x ≠ none) (hu' : ∀ x ∈ u'.head?, payloadLength w x ≠ none)
    (h : t ++ u = t' ++ u') : t = t' ∧ u = u' := by
  induction t generalizing t' with
  | nil =>
    cases t' with
    | nil => exact ⟨rfl, by simpa using h⟩
    | cons y t' =>
      subst h
      exact absurd (ht' y List.mem_cons_self) (hu y (by simp))
  | cons x t ih =>
    cases t' with
    | nil =>
      subst h
      exact absurd (ht x List.mem_cons_self) (hu' x (by simp))
    | cons y t' =>
      simp only [List.cons_append, List.cons.injEq] at h
      obtain ⟨rfl, h⟩ := h
      obtain ⟨rfl, rfl⟩ := ih (fun z hz => ht z (by simp [hz])) (fun z hz => ht' z (by simp [hz])) h
      exact ⟨rfl, rfl⟩

/-! ## The extent scan -/

/-- The extent scan's grammar: `Scans w bs` when the scan walks all of `bs` without stopping,
each step a nonzero byte without payload or a control byte with its whole payload. -/
inductive Scans (w : Nat) : List UInt8 → Prop
  | nil : Scans w []
  | text {x : UInt8} {rest : List UInt8} :
      payloadLength w x = none → x ≠ 0 → Scans w rest → Scans w (x :: rest)
  | reference {c : UInt8} {payload rest : List UInt8} :
      payloadLength w c = some payload.length → Scans w rest → Scans w (c :: (payload ++ rest))

theorem runExtent?_cons {w : Nat} {c : UInt8} (hc : c ≠ 0) (rest : List UInt8) :
    runExtent? w (c :: rest) =
      if rest.length < (payloadLength w c).getD 0 then none
      else (runExtent? w (rest.drop ((payloadLength w c).getD 0))).map
        (· + 1 + (payloadLength w c).getD 0) := by
  rw [runExtent?]
  simp [hc]

theorem runExtent?_of_scans {w : Nat} {run : List UInt8} (h : Scans w run) (rest : List UInt8) :
    runExtent? w (run ++ 0 :: rest) = some run.length := by
  induction h with
  | nil => simp [runExtent?]
  | @text x run hx hx0 _ ih =>
    rw [List.cons_append, runExtent?_cons hx0]
    simp [hx, ih]
  | @reference c payload run hc _ ih =>
    rw [List.cons_append, runExtent?_cons (ne_zero_of_payloadLength hc)]
    simp [hc, ih]
    omega

theorem scans_of_runExtent? {w : Nat} {b : List UInt8} {n : Nat} (h : runExtent? w b = some n) :
    ∃ run rest, Scans w run ∧ b = run ++ 0 :: rest ∧ run.length = n := by
  fun_induction runExtent? w b generalizing n with
  | case1 => cases h
  | case2 c rest hc =>
    simp only [beq_iff_eq] at hc
    cases h
    exact ⟨[], rest, .nil, by simp [hc], rfl⟩
  | case3 => cases h
  | case4 c rest hc skip hlen =>
    rename_i ih
    simp only [skip] at hlen ih h
    obtain ⟨m, hm, rfl⟩ := Option.map_eq_some_iff.mp h
    obtain ⟨run, tail, hscan, hsplit, rfl⟩ := ih hm
    simp only [beq_iff_eq] at hc
    -- one more step in front of the steps the recursive call took
    cases hp : payloadLength w c with
    | none =>
      simp only [hp, Option.getD_none, List.drop_zero] at hsplit
      exact ⟨c :: run, tail, .text hp hc hscan, by simp [hsplit], by simp⟩
    | some p =>
      simp only [hp, Option.getD_some] at hsplit hlen ⊢
      refine ⟨c :: (rest.take p ++ run), tail, .reference ?_ hscan, ?_, ?_⟩
      · rw [List.length_take, Nat.min_eq_left (by omega)]
        exact hp
      · conv_lhs => rw [← List.take_append_drop p rest, hsplit]
        simp
      · simp
        omega

/-- The extent of a buffer is `n` exactly when its first `n` bytes are steps of the scan and
byte `n` is zero. -/
theorem runExtent?_eq_some_iff {w n : Nat} {b : List UInt8} :
    runExtent? w b = some n ↔ ∃ run rest, Scans w run ∧ b = run ++ 0 :: rest ∧ run.length = n := by
  constructor
  · exact scans_of_runExtent?
  · rintro ⟨run, rest, hscan, rfl, rfl⟩
    exact runExtent?_of_scans hscan rest

-- a relative reference whose payload holds a zero byte
example : runExtent? 8 [0x01, 0x00, 0x10, 0x00, 0x00, 0x56, 0x00] = some 6 := by decide +kernel

theorem Scans.of_append_plain {w : Nat} {t rest : List UInt8}
    (ht : ∀ x ∈ t, payloadLength w x = none) (h : Scans w (t ++ rest)) :
    (∀ x ∈ t, x ≠ 0) ∧ Scans w rest := by
  induction t with
  | nil => exact ⟨by simp, h⟩
  | cons x t ih =>
    generalize hb : x :: t ++ rest = b at h
    cases h with
    | nil => simp at hb
    | text _ hx0 hrest =>
      simp only [List.cons_append, List.cons.injEq] at hb
      obtain ⟨rfl, rfl⟩ := hb
      obtain ⟨hz, hs⟩ := ih (fun y hy => ht y (by simp [hy])) hrest
      refine ⟨fun y hy => ?_, hs⟩
      rcases List.mem_cons.mp hy with rfl | hy
      · exact hx0
      · exact hz y hy
    | reference hc _ =>
      simp only [List.cons_append, List.cons.injEq] at hb
      obtain ⟨rfl, -⟩ := hb
      simp [ht x List.mem_cons_self] at hc

theorem Scans.of_reference {w : Nat} {c : UInt8} {payload rest : List UInt8}
    (hc : payloadLength w c = some payload.length) (h : Scans w (c :: (payload ++ rest))) :
    Scans w rest := by
  generalize hb : c :: (payload ++ rest) = b at h
  cases h with
  | nil => cases hb
  | text hx _ _ =>
    simp only [List.cons.injEq] at hb
    obtain ⟨rfl, -⟩ := hb
    simp [hx] at hc
  | reference hc' hrest =>
    simp only [List.cons.injEq] at hb
    obtain ⟨rfl, hb⟩ := hb
    rw [hc, Option.some.injEq] at hc'
    obtain ⟨-, rfl⟩ := List.append_inj hb hc'
    exact hrest

/-- Bytes of `0x20` and above are text steps of the scan. -/
theorem Scans.append_text {w : Nat} {t rest : List UInt8} (ht : ∀ x ∈ t, 0x20 ≤ x)
    (h : Scans w rest) : Scans w (t ++ rest) := by
  induction t with
  | nil => exact h
  | cons x t ih =>
    have hx := ht x List.mem_cons_self
    refine .text (payloadLength_eq_none_iff.mpr (.inr hx)) ?_ (ih fun y hy => ht y (by simp [hy]))
    rintro rfl
    exact absurd hx (by decide)

/-- A control byte whose payload runs past the end is no step of the scan. -/
theorem Scans.not_truncated {w p : Nat} {c : UInt8} {short : List UInt8}
    (hc : payloadLength w c = some p) (hlt : short.length < p) : ¬ Scans w (c :: short) := by
  intro h
  generalize hb : c :: short = b at h
  cases h with
  | nil => cases hb
  | text hx _ _ =>
    simp only [List.cons.injEq] at hb
    obtain ⟨rfl, -⟩ := hb
    simp [hx] at hc
  | reference hc' _ =>
    simp only [List.cons.injEq] at hb
    obtain ⟨rfl, rfl⟩ := hb
    exact absurd hlt (Nat.not_lt.mpr (le_length_of_payloadLength hc' hc))

/-! ## The pieces -/

/-- Whether a piece is text. -/
def NamePiece.isText : NamePiece → Bool
  | .text _ => true
  | .reference .. => false

namespace NameRun

/-- The target the grammar gives a reference whose control byte is at `index` of the run. A
relative reference's is the target of the direct relative offset stored at the byte after the
control byte, its payload read as a 32-bit word, reduced modulo 2^64: so it is that target
itself whenever it lies in [0, 2^64). An absolute reference's is its payload read in the run's
byte order. -/
def payloadTarget (r : NameRun) (index : Nat) (c : UInt8) (payload : List UInt8) : Nat :=
  if c ≤ 0x17 then
    ((RelOffset.mk (r.address + index + 1) (r.order.readUInt payload).toUInt32 .direct).target %
      (pow2 64 : Int)).toNat
  else r.order.readUInt payload

/-- `r.Spells i bs ps`: the pieces `ps` spell the bytes `bs` of the run `r` that start at index
`i`. Text pieces are maximal runs of bytes without payload, so no text piece is empty and no two
are adjacent; a reference is its control byte and whole payload, with the target `payloadTarget`
gives at its index; a control byte whose payload runs past the end is text, together with the
text before it and every byte after it, as the last piece. -/
inductive Spells (r : NameRun) : Nat → List UInt8 → List NamePiece → Prop
  | nil (i : Nat) : Spells r i [] []
  | text {i : Nat} {t rest : List UInt8} {ps : List NamePiece} :
      t ≠ [] → (∀ x ∈ t, payloadLength r.width x = none) → (∀ p ∈ ps.head?, p.isText = false) →
      Spells r (i + t.length) rest ps → Spells r i (t ++ rest) (.text t :: ps)
  | reference {i : Nat} {c : UInt8} {payload rest : List UInt8} {ps : List NamePiece} :
      payloadLength r.width c = some payload.length →
      Spells r (i + 1 + payload.length) rest ps →
      Spells r i (c :: (payload ++ rest)) (.reference c (r.payloadTarget i c payload) :: ps)
  | truncated {i p : Nat} {t short : List UInt8} {c : UInt8} :
      (∀ x ∈ t, payloadLength r.width x = none) → payloadLength r.width c = some p →
      short.length < p → Spells r i (t ++ c :: short) [.text (t ++ c :: short)]

/-- The wrapping 64-bit sum the pieces compute for a relative reference is the exact target of
the relative offset, reduced modulo 2^64. -/
theorem referenceTarget_eq_payloadTarget (r : NameRun) (index : Nat) (c : UInt8)
    (payload : List UInt8) :
    r.referenceTarget index c (r.order.readUInt payload) = r.payloadTarget index c payload := by
  unfold referenceTarget payloadTarget
  split
  · simp [RelOffset.target, RelOffset.delta, RelOffset.deltaBits, PointerKind.lowMask]
  · rfl

/-- What `piecesFrom` returns spells the pending text followed by the bytes still to read. -/
theorem spells_piecesFrom (r : NameRun) (index : Nat) (pending bs : List UInt8) :
    ∀ i, i + pending.length = index → (∀ x ∈ pending, payloadLength r.width x = none) →
      r.Spells i (pending ++ bs) (r.piecesFrom index pending bs) := by
  fun_induction r.piecesFrom index pending bs with
  | case1 index pending =>
    intro i _ hplain
    by_cases hp : pending = []
    · subst hp
      exact .nil i
    · simpa [NamePiece.textPiece, hp] using
        (Spells.text hp hplain (by simp) (.nil _) : r.Spells i (pending ++ []) [.text pending])
  | case2 index pending c rest hc ih =>
    intro i hi hplain
    have hplain' : ∀ x ∈ pending ++ [c], payloadLength r.width x = none := by
      intro x hx
      rcases List.mem_append.mp hx with hx | hx
      · exact hplain x hx
      · rw [List.mem_singleton.mp hx]
        exact hc
    simpa using ih i (by simp; omega) hplain'
  | case3 index pending c rest p hc hlt =>
    intro i _ hplain
    simpa [hlt, NamePiece.textPiece] using Spells.truncated (i := i) hplain hc hlt
  | case4 index pending c rest p hc hle ih =>
    intro i hi hplain
    have htake : (rest.take p).length = p := by rw [List.length_take]; omega
    have href : r.Spells index (c :: (rest.take p ++ rest.drop p))
        (.reference c (r.referenceTarget index c (r.order.readUInt (rest.take p))) ::
          r.piecesFrom (index + 1 + p) [] (rest.drop p)) := by
      rw [referenceTarget_eq_payloadTarget]
      refine .reference (by rw [htake]; exact hc) ?_
      rw [htake]
      simpa using ih (index + 1 + p) rfl (by simp)
    rw [List.take_append_drop] at href
    -- the pending text, if any, is a piece of its own before the reference
    by_cases hp : pending = []
    · subst hp
      simp only [List.length_nil, Nat.add_zero] at hi
      subst hi
      simpa [NamePiece.textPiece] using href
    · simp only [NamePiece.textPiece, List.isEmpty_iff, hp, if_false, List.singleton_append]
      exact .text hp hplain (by simp [NamePiece.isText]) (by rwa [hi])

/-- The pieces of every run spell it. -/
theorem spells_pieces (r : NameRun) : r.Spells 0 r.bytes r.pieces := by
  simpa [pieces] using spells_piecesFrom r 0 [] r.bytes 0 rfl (by simp)

/-! ## Only the pieces spell a run -/

/-- Bytes spelled by pieces that do not start with text are empty or start with a control
byte. -/
theorem Spells.head_control {r : NameRun} {i : Nat} {bs : List UInt8} {ps : List NamePiece}
    (h : r.Spells i bs ps) (hps : ∀ p ∈ ps.head?, p.isText = false) :
    ∀ x ∈ bs.head?, payloadLength r.width x ≠ none := by
  cases h with
  | nil => simp
  | text => simp [NamePiece.isText] at hps
  | reference hc _ => simp [hc]
  | truncated => simp [NamePiece.isText] at hps

/-- Bytes that start with a control byte whose payload runs past the end are spelled from a text
piece on. -/
theorem Spells.starts_text {r : NameRun} {i p : Nat} {c : UInt8} {short : List UInt8}
    {ps : List NamePiece} (h : r.Spells i (c :: short) ps)
    (hc : payloadLength r.width c = some p) (hlt : short.length < p) :
    ∃ q ∈ ps.head?, q.isText = true := by
  generalize hb : c :: short = b at h
  cases h with
  | nil => cases hb
  | text => simp [NamePiece.isText]
  | reference hc' _ =>
    simp only [List.cons.injEq] at hb
    obtain ⟨rfl, rfl⟩ := hb
    exact absurd hlt (Nat.not_lt.mpr (le_length_of_payloadLength hc' hc))
  | truncated => simp [NamePiece.isText]

/-- The grammar is deterministic: a run's bytes have one spelling. -/
theorem Spells.unique {r : NameRun} {i : Nat} {bs : List UInt8} {ps qs : List NamePiece}
    (h : r.Spells i bs ps) (h' : r.Spells i bs qs) : ps = qs := by
  induction h generalizing qs with
  | nil i =>
    generalize hb : ([] : List UInt8) = b at h'
    cases h' with
    | nil => rfl
    | text hne =>
      simp only [List.nil_eq, List.append_eq_nil_iff] at hb
      exact absurd hb.1 hne
    | reference => cases hb
    | truncated => simp at hb
  | @text i t rest ps hne hplain hhead hrest ih =>
    generalize hb : t ++ rest = b at h'
    cases h' with
    | nil =>
      simp only [List.append_eq_nil_iff] at hb
      exact absurd hb.1 hne
    | text _ hplain' hhead' hrest' =>
      obtain ⟨rfl, rfl⟩ :=
        plain_split_unique hplain hplain' (hrest.head_control hhead) (hrest'.head_control hhead') hb
      rw [ih hrest']
    | reference hc _ =>
      obtain ⟨x, t, rfl⟩ := List.exists_cons_of_ne_nil hne
      exact (not_reference_of_plain (hplain x List.mem_cons_self) hc hb).elim
    | truncated hplain' hc hlt =>
      -- the text would have to stop at the control byte, which no text piece may follow
      obtain ⟨rfl, rfl⟩ :=
        plain_split_unique hplain hplain' (hrest.head_control hhead) (by simp [hc]) hb
      obtain ⟨q, hq, htext⟩ := hrest.starts_text hc hlt
      simp [hhead q hq] at htext
  | @reference i c payload rest ps hc hrest ih =>
    generalize hb : c :: (payload ++ rest) = b at h'
    cases h' with
    | nil => cases hb
    | text hne hplain' =>
      rename_i t _ _
      obtain ⟨x, t, rfl⟩ := List.exists_cons_of_ne_nil hne
      exact (not_reference_of_plain (hplain' x List.mem_cons_self) hc hb.symm).elim
    | reference hc' hrest' =>
      simp only [List.cons.injEq] at hb
      obtain ⟨rfl, hb⟩ := hb
      rw [hc, Option.some.injEq] at hc'
      obtain ⟨rfl, rfl⟩ := List.append_inj hb hc'
      rw [ih hrest']
    | truncated hplain' hc' hlt =>
      rename_i t _ _
      cases t with
      | nil =>
        simp only [List.nil_append, List.cons.injEq] at hb
        obtain ⟨rfl, rfl⟩ := hb
        exact absurd hlt (Nat.not_lt.mpr (le_length_of_payloadLength hc hc'))
      | cons x t =>
        exact (not_reference_of_plain (hplain' x List.mem_cons_self) hc hb.symm).elim
  | @truncated i p t short c hplain hc hlt =>
    generalize hb : t ++ c :: short = b at h'
    cases h' with
    | nil => simp at hb
    | text _ hplain' hhead' hrest' =>
      obtain ⟨rfl, rfl⟩ :=
        plain_split_unique hplain' hplain (hrest'.head_control hhead') (by simp [hc]) hb.symm
      obtain ⟨q, hq, htext⟩ := hrest'.starts_text hc hlt
      simp [hhead' q hq] at htext
    | reference hc' _ =>
      cases t with
      | nil =>
        simp only [List.nil_append, List.cons.injEq] at hb
        obtain ⟨rfl, rfl⟩ := hb
        exact absurd hlt (Nat.not_lt.mpr (le_length_of_payloadLength hc' hc))
      | cons x t =>
        exact (not_reference_of_plain (hplain x List.mem_cons_self) hc' hb).elim
    | truncated => rfl

/-- A run's pieces are exactly the pieces that spell it. -/
theorem pieces_eq_iff {r : NameRun} {ps : List NamePiece} :
    r.pieces = ps ↔ r.Spells 0 r.bytes ps := by
  constructor
  · rintro rfl
    exact spells_pieces r
  · exact (spells_pieces r).unique

example : (NameRun.mk 0x1000 [0x78, 0x01, 0x10, 0x00, 0x00, 0x00, 0x56] 8 .little).pieces =
    [.text [0x78], .reference 0x01 0x1012, .text [0x56]] := by decide +kernel

/-! ## Runs the scan walks -/

/-- Over bytes the extent scan walks, every byte of a text piece is at least `0x20`: no text
piece holds a zero or a control byte. -/
theorem Spells.text_ge_of_scans {r : NameRun} {i : Nat} {bs : List UInt8} {ps : List NamePiece}
    (h : r.Spells i bs ps) (hs : Scans r.width bs) :
    ∀ t, NamePiece.text t ∈ ps → ∀ x ∈ t, 0x20 ≤ x := by
  induction h with
  | nil => simp
  | @text i t rest ps _ hplain _ _ ih =>
    obtain ⟨hnz, hs⟩ := hs.of_append_plain hplain
    intro u hu x hx
    rcases List.mem_cons.mp hu with hu | hu
    · cases hu
      exact (payloadLength_eq_none_iff.mp (hplain x hx)).resolve_left (hnz x hx)
    · exact ih hs u hu x hx
  | reference hc _ ih =>
    intro u hu
    rcases List.mem_cons.mp hu with hu | hu
    · cases hu
    · exact ih (hs.of_reference hc) u hu
  | truncated hplain hc hlt =>
    exact ((hs.of_append_plain hplain).2.not_truncated hc hlt).elim

/-- Bytes whose pieces hold no text byte below `0x20` are steps of the extent scan. -/
theorem Spells.scans_of_text_ge {r : NameRun} {i : Nat} {bs : List UInt8} {ps : List NamePiece}
    (h : r.Spells i bs ps) (hge : ∀ t, NamePiece.text t ∈ ps → ∀ x ∈ t, 0x20 ≤ x) :
    Scans r.width bs := by
  induction h with
  | nil => exact .nil
  | @text i t rest ps _ _ _ _ ih =>
    exact .append_text (hge t List.mem_cons_self)
      (ih fun u hu => hge u (List.mem_cons_of_mem _ hu))
  | reference hc _ ih =>
    exact .reference hc (ih fun u hu => hge u (List.mem_cons_of_mem _ hu))
  | @truncated i p t short c _ hc _ =>
    -- the last piece holds the control byte itself
    have hge_c := hge _ List.mem_cons_self c (by simp)
    exact absurd hge_c (UInt8.not_le.mpr (lt_of_payloadLength hc))

/-- The two grammars agree: bytes are steps of the extent scan exactly when the pieces that
spell them hold no text byte below `0x20`. -/
theorem Spells.scans_iff_text_ge {r : NameRun} {i : Nat} {bs : List UInt8} {ps : List NamePiece}
    (h : r.Spells i bs ps) :
    Scans r.width bs ↔ ∀ t, NamePiece.text t ∈ ps → ∀ x ∈ t, 0x20 ≤ x :=
  ⟨h.text_ge_of_scans, h.scans_of_text_ge⟩

/-- Every run is spelled by its pieces, and its bytes are steps of the extent scan exactly when
no text piece holds a byte below `0x20`. When its bytes are the first `n` bytes of a buffer whose
extent is `n`, byte `n` of the buffer is zero and both hold: each control byte heads a reference
piece with its whole payload, the step the scan takes there. -/
theorem pieces_follow_extent (r : NameRun) :
    r.Spells 0 r.bytes r.pieces ∧
      (Scans r.width r.bytes ↔ ∀ t, NamePiece.text t ∈ r.pieces → ∀ x ∈ t, 0x20 ≤ x) ∧
      ∀ b n, runExtent? r.width b = some n → r.bytes = b.take n →
        b[n]? = some 0 ∧ Scans r.width r.bytes ∧
          ∀ t, NamePiece.text t ∈ r.pieces → ∀ x ∈ t, 0x20 ≤ x := by
  refine ⟨spells_pieces r, (spells_pieces r).scans_iff_text_ge, fun b n hext hbytes => ?_⟩
  obtain ⟨run, rest, hscan, rfl, rfl⟩ := runExtent?_eq_some_iff.mp hext
  have hrun : r.bytes = run := by simpa using hbytes
  rw [← hrun] at hscan
  exact ⟨by simp, hscan, (spells_pieces r).text_ge_of_scans hscan⟩

/-- The run at 0x1000 of the text `x`, a relative reference and the text `V`, cut from a buffer
at its extent: the byte after it is the zero that ends it, its bytes are steps of the extent
scan, and its pieces hold no text byte below `0x20`. -/
theorem referenceRun_follows_extent :
    runExtent? 8 [0x78, 0x01, 0x10, 0x00, 0x00, 0x00, 0x56, 0x00, 0x41] = some 7 ∧
      (NameRun.mk 0x1000 [0x78, 0x01, 0x10, 0x00, 0x00, 0x00, 0x56] 8 .little).bytes =
        [0x78, 0x01, 0x10, 0x00, 0x00, 0x00, 0x56, 0x00, 0x41].take 7 ∧
      ([0x78, 0x01, 0x10, 0x00, 0x00, 0x00, 0x56, 0x00, 0x41] : List UInt8)[7]? = some 0 ∧
      Scans 8 [0x78, 0x01, 0x10, 0x00, 0x00, 0x00, 0x56] ∧
      ∀ t, NamePiece.text t ∈
          (NameRun.mk 0x1000 [0x78, 0x01, 0x10, 0x00, 0x00, 0x00, 0x56] 8 .little).pieces →
        ∀ x ∈ t, 0x20 ≤ x := by
  have hext : runExtent? 8 [0x78, 0x01, 0x10, 0x00, 0x00, 0x00, 0x56, 0x00, 0x41] = some 7 := by
    decide +kernel
  exact ⟨hext, rfl,
    (pieces_follow_extent ⟨0x1000, [0x78, 0x01, 0x10, 0x00, 0x00, 0x00, 0x56], 8, .little⟩).2.2
      _ _ hext rfl⟩

end NameRun

/-! ## Runs the resolver reads -/

/-- A name run read at an address of an image, by a name decoder that measures runs with the
extent scan, is a sequence of steps of the extent scan, and no text piece of it holds a byte
below `0x20`: a run the resolver hands out never ends in a truncated reference. -/
theorem Image.nameRunAt_scans {img : Image} {a : Nat} {names : NameDecoder}
    (hscan : ∀ bs width, names.runExtent bs width = runExtent? width bs) {run : NameRun}
    (h : img.nameRunAt a names = .ok run) :
    Scans run.width run.bytes ∧ ∀ t, NamePiece.text t ∈ run.pieces → ∀ x ∈ t, 0x20 ≤ x := by
  unfold Image.nameRunAt at h
  cases hc : img.cursorAt a with
  | error e =>
    rw [hc] at h
    cases h
  | ok w =>
    rw [hc] at h
    simp only [bind, Except.bind, hscan] at h
    split at h
    · rename_i n hext
      split at h
      · cases h
        -- the run is the part of the window's bytes the extent scan measured
        obtain ⟨run, rest, hscan, hsplit, rfl⟩ := runExtent?_eq_some_iff.mp hext
        have hbytes : w.rest.take run.length = run := by rw [hsplit]; simp
        rw [hbytes]
        exact ⟨hscan, (NameRun.spells_pieces _).text_ge_of_scans hscan⟩
      · cases h
    · cases h

end SwiftReflection
