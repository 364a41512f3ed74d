import Mathlib
import SwiftReflection.Proofs.Decode.Forms
import SwiftReflection.Views.Typed
/-!
# Typed views fail only where pointers lead

A typed view reads a record of its catalog layout through accessors that fail on a missing field
or on a value of another form, and follows the record's pointers through the image. On a record
the layout's decode gives, the accessors never fail: the record fits its layout
(`Layout.decodeIn_fits`), and every field a view reads is one of the layout's, of the form the
view expects. What remains are the failures of following pointers (`Error.isFollowing`): a
pointer that leaves the image, too few bytes where it leads, and, in a protocol descriptor read
there, a requirement whose kind selects no arm. A conformance also refuses a type reference kind
of 4 or more, which its 3-bit field can hold.

`FailsWithin P` says that every failure of a read satisfies `P`. It goes through binds and
lists, so each view's lemma follows the view's own steps, with `P` any set of failures that holds
those of following pointers.
-/

namespace SwiftReflection

/-! ## Failures of following pointers -/

/-- A failure of following a pointer or of reading what it leads to: a pointer that leaves the
image, too few bytes where it leads, or a selector value no arm has in a record read there. Two
debug-build checks stop such a read too: reading an indirect pointer's slot in an image whose
pointers are wider than eight bytes, and slicing a name run to an extent, given by the name
decoder, past the bytes its section has left. -/
def Error.isFollowing : Error → Bool
  | .pointerOutOfRange .. | .bufferTooShort .. | .discriminantUnsupported .. => true
  | .panic .wideRead | .panic (.sliceOverrun ..) => true
  | _ => false

/-- Every failure of the read satisfies `P`. -/
def FailsWithin {ε α : Type} (P : ε → Prop) (x : Except ε α) : Prop :=
  ∀ e, x = .error e → P e

namespace FailsWithin

variable {ε α β : Type} {P : ε → Prop}

theorem ok (a : α) : FailsWithin P (Except.ok a : Except ε α) := fun _ h => by cases h

theorem pure (a : α) : FailsWithin P (Pure.pure a : Except ε α) := fun _ h => by cases h

theorem error {e : ε} (h : P e) : FailsWithin P (Except.error e : Except ε α) := fun _ he => by
  cases he
  exact h

theorem bind {x : Except ε α} {f : α → Except ε β} (hx : FailsWithin P x)
    (hf : ∀ a, x = .ok a → FailsWithin P (f a)) : FailsWithin P (x >>= f) := by
  intro e h
  rcases bind_eq_error.mp h with h | ⟨a, ha, h⟩
  · exact hx e h
  · exact hf a ha e h

theorem map {x : Except ε α} {f : α → β} (hx : FailsWithin P x) : FailsWithin P (f <$> x) := by
  intro e h
  cases x with
  | error e' =>
    have he : e' = e := by simpa [Functor.map, Except.map] using h
    exact he ▸ hx e' rfl
  | ok a => simp [Functor.map, Except.map] at h

theorem mapM {f : α → Except ε β} :
    ∀ {l : List α}, (∀ a ∈ l, FailsWithin P (f a)) → FailsWithin P (l.mapM f)
  | [], _ => pure _
  | a :: l, h => by
    rw [List.mapM_cons]
    exact bind (h a List.mem_cons_self) fun _ _ =>
      bind (mapM fun b hb => h b (List.mem_cons_of_mem a hb)) fun _ _ => pure _

end FailsWithin

/-- Whether a pointer's target is a name: a C string or a symbolic name run. -/
def Target.isName : Target → Bool
  | .cstring | .symbolic => true
  | _ => false

section Following

variable {P : Error → Prop} (hP : ∀ e, e.isFollowing = true → P e)
include hP

theorem Window.readUInt_fails (w : Window) (width : Nat) (order : ByteOrder) :
    FailsWithin P (w.readUInt width order) := by
  rw [Window.readUInt_eq]
  split
  · split
    · exact .ok _
    · exact .error (hP _ rfl)
  · exact .error (hP _ rfl)

namespace Image

variable (img : Image)

theorem locate_fails (field address : Nat) : FailsWithin P (img.locate field address) := by
  unfold Image.locate
  split
  · exact .ok _
  · exact .error (hP _ rfl)

theorem cursorAt_fails (address : Nat) : FailsWithin P (img.cursorAt address) :=
  img.locate_fails hP address address

/-- Resolving fails only on a target outside every section, or on an indirect pointer's slot. -/
theorem resolve_fails (o : RelOffset) : FailsWithin P (img.resolve o) := by
  unfold Image.resolve
  split <;> simp only <;> split
  · exact .pure _
  · exact .error (hP _ rfl)
  · refine .bind (img.locate_fails hP _ _) fun w _ => .bind (Window.readUInt_fails hP w _ _) ?_
    intro r _
    obtain ⟨_, _⟩ := r
    exact .pure _
  · exact .error (hP _ rfl)

theorem cString_fails (address : Nat) : FailsWithin P (img.cString address) := by
  unfold Image.cString
  refine .bind (img.cursorAt_fails hP address) fun w _ => ?_
  simp only
  split
  · exact .pure _
  · exact .error (hP _ rfl)

theorem nameRunAt_fails (address : Nat) (names : NameDecoder) :
    FailsWithin P (img.nameRunAt address names) := by
  unfold Image.nameRunAt
  refine .bind (img.cursorAt_fails hP address) fun w _ => ?_
  simp only
  split
  · split
    · exact .pure _
    · exact .error (hP _ rfl)
  · exact .error (hP _ rfl)

/-- The name a pointer to a name leads to fails only where it is followed. -/
theorem displayName_fails {p : PointerValue} (ht : p.target.isName = true) (names : NameDecoder) :
    FailsWithin P (img.displayName p names) := by
  unfold Image.displayName
  refine .bind (img.resolve_fails hP p.offset) fun r _ => ?_
  cases hpt : p.target with
  | cstring => exact .bind (img.cString_fails hP r.address) fun _ _ => .pure _
  | symbolic => exact .bind (img.nameRunAt_fails hP r.address names) fun _ _ => .pure _
  | _ => simp [hpt, Target.isName] at ht

end Image

theorem Image.followAs_fails (img : Image) (o : RelOffset) {l : Layout}
    (hdec : ∀ w, FailsWithin P (l.decodeRecord w)) : FailsWithin P (img.followAs o l) := by
  unfold Image.followAs
  exact .bind (img.resolve_fails hP o) fun _ _ => .bind (img.locate_fails hP _ _) fun w _ =>
    .bind (hdec w) fun _ _ => .pure _

/-- A layout that validation accepts, with no loose selectors and no strided block, decodes
failing only as following a pointer can. -/
theorem Layout.decodeRecord_fails {l : Layout} (hval : l.validateError? = none)
    (hloose : l.looseSelectors = []) (hstride : l.hasStride = false)
    (hwide : l.hasWideShift = false) (w : Window) :
    FailsWithin P (l.decodeRecord w) := by
  intro e h
  rcases Layout.decodeRecord_short_or_unsupported hval hloose hstride hwide h with hs | ⟨_, _, _, rfl⟩
  · exact hP e (by cases e <;> simp_all [Error.isShort, Error.isFollowing])
  · exact hP _ rfl

namespace Views

variable (img : Image) (names : NameDecoder)

theorem optionalName_fails {r : Record} {field : String} {o : RelOffset} {t : Target}
    (hp : r.pointer field = .ok ⟨o, t⟩) (ht : t.isName = true) :
    FailsWithin P (optionalName img names r field) := by
  unfold optionalName
  rw [hp, ok_bind]
  split
  · exact .pure _
  · exact .bind (img.displayName_fails hP ht names) fun _ _ => .pure _

theorem pointerName_fails {p : PointerValue} (ht : p.target.isName = true) :
    FailsWithin P (pointerName img names p) := by
  unfold pointerName
  split
  · exact .ok _
  · exact .map (img.displayName_fails hP ht names)

end Views

/-- The name a name field of a record of a layout leads to fails only where it is followed. -/
theorem Record.Fits.optionalName_fails {r : Record} {l : Layout} (h : Record.Fits r l)
    (img : Image) (names : NameDecoder) (n : String) {kind : PointerKind} {target : Target}
    (hfind : Field.find? l.fields n = some (.pointer kind target)) (ht : target.isName = true) :
    FailsWithin P (Views.optionalName img names r n) := by
  obtain ⟨o, hp, -⟩ := h.pointer n hfind
  exact Views.optionalName_fails hP img names hp ht

end Following

/-- A record read through a pointer is one its layout's decode gives, so it fits the layout. -/
theorem Image.followAs_fits {img : Image} {o : RelOffset} {l : Layout} {body : Record}
    (h : img.followAs o l = .ok body) : Record.Fits body l := by
  unfold Image.followAs at h
  obtain ⟨_, -, h⟩ := bind_eq_ok.mp h
  obtain ⟨w, -, h⟩ := bind_eq_ok.mp h
  obtain ⟨⟨b, w'⟩, hdec, h⟩ := bind_eq_ok.mp h
  obtain rfl : b = body := pure_eq_ok.mp h
  exact Layout.decodeIn_fits {} l w w' b hdec

/-- Reading past a pointer that leaves the image fails as it would have otherwise. -/
theorem Views.unlessExternal_fails {P : Error → Prop} {α : Type} {x : Except Error α}
    (hx : FailsWithin P x) : FailsWithin P (Views.unlessExternal x) := by
  intro e h
  cases x with
  | ok a => simp [Views.unlessExternal] at h
  | error e' =>
    have he : e' = e := by cases e' <;> simp_all [Views.unlessExternal]
    exact he ▸ hx e' rfl

theorem Views.unlessExternal_eq_some {α : Type} {x : Except Error α} {a : α}
    (h : Views.unlessExternal x = .ok (some a)) : x = .ok a := by
  cases x with
  | ok a' => simpa [Views.unlessExternal] using h
  | error e' => cases e' <;> simp_all [Views.unlessExternal]

theorem mapM_ok_of_forall {ε α β : Type} {f : α → Except ε β} {Q : β → Prop} :
    ∀ {l : List α}, (∀ a ∈ l, ∃ b, f a = .ok b ∧ Q b) → ∃ bs, l.mapM f = .ok bs ∧ ∀ b ∈ bs, Q b
  | [], _ => ⟨[], rfl, by simp⟩
  | a :: l, h => by
    obtain ⟨b, hb, hq⟩ := h a List.mem_cons_self
    obtain ⟨bs, hbs, hqs⟩ := mapM_ok_of_forall fun x hx => h x (List.mem_cons_of_mem a hx)
    refine ⟨b :: bs, ?_, ?_⟩
    · rw [List.mapM_cons, hb, ok_bind, hbs, ok_bind]
      rfl
    · intro c hc
      rcases List.mem_cons.mp hc with rfl | hc
      · exact hq
      · exact hqs c hc

/-- The records of a trailing block of a record of a layout fit the block's element. -/
theorem Record.Fits.trailingRecords {r : Record} {l : Layout} (h : Record.Fits r l) (n : String)
    {count : String} {stride : Option String} {element : Layout}
    (hfind : Field.find? l.fields n = some (.trailing count stride element)) :
    ∃ rs, Views.trailingRecords r n = .ok rs ∧ ∀ r' ∈ rs, Record.Fits r' element := by
  obtain ⟨vs, hvs, hitems⟩ := h.items n hfind
  unfold Views.trailingRecords
  rw [hvs, ok_bind]
  refine mapM_ok_of_forall fun v hv => ?_
  obtain ⟨r', hrec, hfit⟩ := hitems.mem v hv
  refine ⟨r', ?_, hfit⟩
  simp only [hrec]
  rfl

theorem Image.follow_fits {img : Image} {p : PointerValue} {l : Layout} {body : Record}
    (ht : p.target = .layout l) (h : img.follow p = .ok body) : Record.Fits body l := by
  unfold Image.follow at h
  rw [ht] at h
  exact Image.followAs_fits h

/-- A kind code refused by `TypeReferenceKind.ofRaw` is 4 or more. -/
theorem Views.TypeReferenceKind.ofRaw_of_lt {n : Nat} (h : n < 4) :
    ∃ k, Views.TypeReferenceKind.ofRaw n = .ok k := by
  match n, h with
  | 0, _ | 1, _ | 2, _ | 3, _ => exact ⟨_, rfl⟩

/-- The tag of a pointer with two tag bits is below 4. -/
theorem RelOffset.tag?_getD_lt_four {o : RelOffset} (hk : o.kind = .tagPacked 2 false) :
    o.tag?.getD 0 < 4 := by
  have hand : ((o.raw >>> 0) &&& lowBits 2).toNat ≤ 3 := by
    rw [UInt32.toNat_and]
    exact (Nat.and_le_right).trans (by decide)
  simp only [RelOffset.tag?, hk, Bool.false_eq_true, if_false, Option.getD_some]
  omega

/-- The value a generic requirement's constraint arm holds for its discriminant, in the shape
`Constraint.ofUnion` reads: a layout kind for `0x1F`, else a pointer, to a name for a same-type,
base-class or same-shape constraint. -/
def Views.Constraint.Expected (d : Nat) (v : Value) : Prop :=
  if d = 0x1F then ∃ k, v.asNat? = some k
  else ∃ o t, v = .pointer o t ∧ (d = 1 ∨ d = 2 ∨ d = 4 → t.isName = true)

/-- Each arm of a generic requirement's constraint holds what `Constraint.ofUnion` expects of its
discriminant. -/
theorem Catalog.genericRequirement_expected (o : ByteOrder) {sel : Selector} {arms : List Arm}
    (harms : Field.find? (Catalog.genericRequirement o).fields "constraint" = some (.union sel arms))
    {d : Nat} {armName : String} {node : Node} {v : Value}
    (hfind : arms.find? (fun a => a.value == d) = some (.mk d armName node))
    (hv : Value.Fits v node) : Views.Constraint.Expected d v := by
  obtain ⟨⟩ := harms
  have hmem := List.mem_of_find?_eq_some hfind
  simp only [List.mem_cons, Arm.mk.injEq, List.not_mem_nil, or_false] at hmem
  rcases hmem with ⟨rfl, -, rfl⟩ | ⟨rfl, -, rfl⟩ | ⟨rfl, -, rfl⟩ | ⟨rfl, -, rfl⟩ | ⟨rfl, -, rfl⟩ |
    ⟨rfl, -, rfl⟩ <;> cases hv <;>
    simp_all [Views.Constraint.Expected, Value.asNat?, Target.isName, ScalarKind.signed]

/-- A protocol requirement reads its flags and default implementation, and never fails. -/
theorem Views.ProtocolRequirement.ofRecord_fails {P : Error → Prop} {o : ByteOrder} {r : Record}
    (hr : Record.Fits r (Catalog.protocolRequirement o)) :
    FailsWithin P (Views.ProtocolRequirement.ofRecord r) := by
  obtain ⟨_, hflags⟩ := hr.flagSet "flags" rfl
  obtain ⟨_, himpl, -⟩ := hr.pointer "default_implementation" rfl
  unfold Views.ProtocolRequirement.ofRecord
  rw [hflags, ok_bind, himpl, ok_bind]
  exact .pure _

/-- Reading a type reference kind fails only on a code of 4 or more. -/
theorem Views.TypeReferenceKind.ofRaw_fails {P : Error → Prop}
    (hkind : P (.unexpectedValue "type reference kind" "a value below 4")) (n : Nat) :
    FailsWithin P (Views.TypeReferenceKind.ofRaw n) := by
  unfold Views.TypeReferenceKind.ofRaw
  split
  · exact .ok _
  · exact .ok _
  · exact .ok _
  · exact .ok _
  · exact .error hkind

section Catalog

variable {P : Error → Prop} (hP : ∀ e, e.isFollowing = true → P e)
include hP

theorem Image.follow_fails (img : Image) {p : PointerValue} {l : Layout}
    (ht : p.target = .layout l) (hdec : ∀ w, FailsWithin P (l.decodeRecord w)) :
    FailsWithin P (img.follow p) := by
  unfold Image.follow
  rw [ht]
  exact img.followAs_fails hP p.offset hdec

theorem Catalog.protocolDescriptor_decodeRecord_fails (o : ByteOrder) (w : Window) :
    FailsWithin P ((Catalog.protocolDescriptor o).decodeRecord w) :=
  Layout.decodeRecord_fails hP (by cases o <;> decide) (by cases o <;> rfl) (by cases o <;> rfl)
    (by cases o <;> rfl) w

theorem Catalog.conformanceDescriptor_decodeRecord_fails (o : ByteOrder) (w : Window) :
    FailsWithin P ((Catalog.conformanceDescriptor o).decodeRecord w) :=
  Layout.decodeRecord_fails hP (by cases o <;> decide) (by cases o <;> rfl) (by cases o <;> rfl)
    (by cases o <;> rfl) w

theorem Catalog.typeContextDescriptor_decodeRecord_fails (o : ByteOrder) (w : Window) :
    FailsWithin P ((Catalog.typeContextDescriptor o).decodeRecord w) :=
  Layout.decodeRecord_fails hP (by cases o <;> decide) (by cases o <;> rfl) (by cases o <;> rfl)
    (by cases o <;> rfl) w

namespace Views

variable (img : Image) (names : NameDecoder)

/-- The name of a protocol fails only where its descriptor is followed. -/
theorem protocolName_fails (o : RelOffset) : FailsWithin P (protocolName img names o) := by
  unfold protocolName
  split
  · exact .pure _
  · refine .bind (unlessExternal_fails (img.followAs_fails hP o
      (Catalog.protocolDescriptor_decodeRecord_fails hP img.order))) fun x hx => ?_
    cases x with
    | none => exact .pure _
    | some body =>
      exact (Image.followAs_fits (unlessExternal_eq_some hx)).optionalName_fails hP img names
        "name" rfl rfl

theorem Constraint.ofUnion_fails {u : UnionValue} (h : Constraint.Expected u.discriminant u.value) :
    FailsWithin P (Constraint.ofUnion img names u) := by
  obtain ⟨arm, d, v⟩ := u
  unfold Constraint.ofUnion
  simp only [Constraint.Expected] at h ⊢
  split
  · rename_i hd
    rw [if_pos (by simpa using hd)] at h
    obtain ⟨k, hk⟩ := h
    rw [hk]
    exact .pure _
  · rename_i hd
    rw [if_neg (by simpa using hd)] at h
    obtain ⟨o, t, rfl, hname⟩ := h
    simp only [pure_bind]
    split
    · exact .bind (protocolName_fails hP img names o) fun _ _ => .pure _
    · exact .bind (pointerName_fails hP img names (hname (.inl rfl))) fun _ _ => .pure _
    · exact .bind (pointerName_fails hP img names (hname (.inr (.inl rfl)))) fun _ _ => .pure _
    · exact .bind (pointerName_fails hP img names (hname (.inr (.inr rfl)))) fun _ _ => .pure _
    · exact .bind (unlessExternal_fails (img.resolve_fails hP o)) fun _ _ => .pure _

theorem GenericRequirement.ofRecord_fails {o : ByteOrder} {r : Record}
    (hr : Record.Fits r (Catalog.genericRequirement o)) :
    FailsWithin P (GenericRequirement.ofRecord img names r) := by
  obtain ⟨u, hu, node, hfind, hfit⟩ := hr.union "constraint" rfl
  obtain ⟨_, hflags⟩ := hr.flagSet "flags" rfl
  unfold GenericRequirement.ofRecord
  refine .bind (hr.optionalName_fails hP img names "param" rfl rfl) fun _ _ => ?_
  rw [hu, ok_bind]
  refine .bind (Constraint.ofUnion_fails hP img names
    (Catalog.genericRequirement_expected o rfl hfind hfit)) fun _ _ => ?_
  rw [hflags, ok_bind]
  exact .pure _

theorem ProtocolDescriptor.ofRecord_fails {o : ByteOrder} {r : Record}
    (hr : Record.Fits r (Catalog.protocolDescriptor o)) :
    FailsWithin P (ProtocolDescriptor.ofRecord img names r) := by
  obtain ⟨ctx, hctx, hcfit⟩ := hr.record "context" rfl
  obtain ⟨_, hflags⟩ := hcfit.flagSet "flags" rfl
  obtain ⟨sig, hsig, hsigfit⟩ := hr.trailingRecords "requirement_signature" rfl
  obtain ⟨reqs, hreqs, hreqfit⟩ := hr.trailingRecords "requirements" rfl
  unfold ProtocolDescriptor.ofRecord
  rw [hctx, ok_bind, hflags, ok_bind]
  refine .bind (hr.optionalName_fails hP img names "associated_type_names" rfl rfl) fun _ _ => ?_
  rw [hsig, ok_bind]
  refine .bind (.mapM fun g hg => GenericRequirement.ofRecord_fails hP img names (hsigfit g hg))
    fun _ _ => ?_
  rw [hreqs, ok_bind]
  refine .bind (.mapM fun q hq => ProtocolRequirement.ofRecord_fails (hreqfit q hq)) fun _ _ => ?_
  exact .bind (hr.optionalName_fails hP img names "name" rfl rfl) fun _ _ => .pure _

theorem ProtocolRecord.ofRecord_fails {o : ByteOrder} {r : Record}
    (hr : Record.Fits r (Catalog.protocolRecord o)) :
    FailsWithin P (ProtocolRecord.ofRecord img names r) := by
  obtain ⟨p, hp, -⟩ := hr.pointer "protocol" rfl
  unfold ProtocolRecord.ofRecord
  rw [hp, ok_bind]
  simp only
  split
  · exact .pure _
  · refine .bind (unlessExternal_fails (img.follow_fails hP rfl
      (Catalog.protocolDescriptor_decodeRecord_fails hP o))) fun x hx => ?_
    cases x with
    | none => exact .pure _
    | some body =>
      exact .bind (ProtocolDescriptor.ofRecord_fails hP img names
        (Image.follow_fits rfl (unlessExternal_eq_some hx))) fun _ _ => .pure _

theorem TypeContext.ofRecord_fails {o : ByteOrder} {r : Record}
    (hr : Record.Fits r (Catalog.typeContextDescriptor o)) :
    FailsWithin P (TypeContext.ofRecord img names r) := by
  obtain ⟨ctx, hctx, hcfit⟩ := hr.record "context" rfl
  obtain ⟨_, hflags⟩ := hcfit.flagSet "flags" rfl
  obtain ⟨_, hp, -⟩ := hr.pointer "fields" rfl
  unfold TypeContext.ofRecord
  rw [hctx, ok_bind, hflags, ok_bind]
  simp only
  -- the field descriptor is resolved for nominal types only; the name is read in every case
  have hname := hr.optionalName_fails hP img names "name" rfl rfl
  split
  · rw [hp, ok_bind]
    split
    · simp only [pure_bind]
      exact .bind hname fun _ _ => .pure _
    · refine .bind (img.resolve_fails hP _) fun _ _ => ?_
      simp only [pure_bind]
      exact .bind hname fun _ _ => .pure _
  · simp only [pure_bind]
    exact .bind hname fun _ _ => .pure _

theorem TypeContext.read_fails (address : Nat) :
    FailsWithin P (TypeContext.read img names address) := by
  unfold TypeContext.read
  refine .bind (img.cursorAt_fails hP address) fun w _ => ?_
  refine .bind (Catalog.typeContextDescriptor_decodeRecord_fails hP img.order w) fun x hx => ?_
  obtain ⟨r, w'⟩ := x
  exact TypeContext.ofRecord_fails hP img names (Layout.decodeIn_fits {} _ w w' r hx)

theorem referencedType_fails (o : RelOffset) :
    ∀ kind, FailsWithin P (referencedType img names o kind)
  | .directTypeDescriptor => by
    unfold referencedType
    exact .bind (img.resolve_fails hP o) fun t _ =>
      .bind (TypeContext.read_fails hP img names t.address) fun _ _ => .pure _
  | .indirectTypeDescriptor => by
    unfold referencedType
    refine .bind (img.resolve_fails hP _) fun t _ => ?_
    split
    · exact .pure _
    · exact .bind (TypeContext.read_fails hP img names t.address) fun _ _ => .pure _
  | .directObjCClassName => by
    unfold referencedType
    exact .bind (img.resolve_fails hP o) fun t _ =>
      .bind (img.cString_fails hP t.address) fun _ _ => .pure _
  | .indirectObjCClass => .pure _

theorem TypeReference.ofRecord_fails {o : ByteOrder} {r : Record}
    (hr : Record.Fits r (Catalog.typeReferenceRecord o)) :
    FailsWithin P (TypeReference.ofRecord img names r) := by
  obtain ⟨p, hp, hk⟩ := hr.pointer "descriptor" rfl
  -- a tag of two bits is always a kind
  obtain ⟨kind, hkind⟩ := TypeReferenceKind.ofRaw_of_lt (RelOffset.tag?_getD_lt_four hk)
  unfold TypeReference.ofRecord
  rw [hp, ok_bind]
  simp only
  rw [hkind, ok_bind]
  exact .bind (referencedType_fails hP img names _ kind) fun _ _ => .pure _

theorem FieldEntry.ofRecord_fails {o : ByteOrder} {r : Record}
    (hr : Record.Fits r (Catalog.fieldRecord o)) : FailsWithin P (FieldEntry.ofRecord img names r) := by
  obtain ⟨_, hflags⟩ := hr.flagSet "flags" rfl
  unfold FieldEntry.ofRecord
  rw [hflags, ok_bind]
  exact .bind (hr.optionalName_fails hP img names "field_name" rfl rfl) fun _ _ =>
    .bind (hr.optionalName_fails hP img names "mangled_type_name" rfl rfl) fun _ _ => .pure _

theorem FieldDescriptor.ofRecord_fails {o : ByteOrder} {r : Record}
    (hr : Record.Fits r (Catalog.fieldDescriptor o)) :
    FailsWithin P (FieldDescriptor.ofRecord img names r) := by
  obtain ⟨rs, hrs, hfits⟩ := hr.trailingRecords "fields" rfl
  obtain ⟨_, hkind⟩ := hr.nat "kind" rfl rfl
  unfold FieldDescriptor.ofRecord
  rw [hrs, ok_bind]
  refine .bind (.mapM fun f hf => FieldEntry.ofRecord_fails hP img names (hfits f hf))
    fun _ _ => ?_
  refine .bind (hr.optionalName_fails hP img names "mangled_type_name" rfl rfl) fun _ _ => ?_
  refine .bind (hr.optionalName_fails hP img names "superclass" rfl rfl) fun _ _ => ?_
  rw [hkind, ok_bind]
  exact .pure _

theorem AssociatedTypeDescriptor.ofRecord_fails {o : ByteOrder} {r : Record}
    (hr : Record.Fits r (Catalog.associatedTypeDescriptor o)) :
    FailsWithin P (AssociatedTypeDescriptor.ofRecord img names r) := by
  obtain ⟨rs, hrs, hfits⟩ := hr.trailingRecords "associated_types" rfl
  unfold AssociatedTypeDescriptor.ofRecord
  rw [hrs, ok_bind]
  refine .bind (.mapM fun item hitem => ?_) fun _ _ => ?_
  · exact .bind ((hfits item hitem).optionalName_fails hP img names "name" rfl rfl) fun _ _ =>
      .bind ((hfits item hitem).optionalName_fails hP img names "substituted_type_name" rfl rfl)
        fun _ _ => .pure _
  · exact .bind (hr.optionalName_fails hP img names "conforming_type_name" rfl rfl) fun _ _ =>
      .bind (hr.optionalName_fails hP img names "protocol_type_name" rfl rfl) fun _ _ => .pure _

theorem BuiltinType.ofRecord_fails {o : ByteOrder} {r : Record}
    (hr : Record.Fits r (Catalog.builtinTypeDescriptor o)) :
    FailsWithin P (BuiltinType.ofRecord img names r) := by
  obtain ⟨_, hflags⟩ := hr.flagSet "alignment_and_flags" rfl
  obtain ⟨_, hsize⟩ := hr.nat "size" rfl rfl
  obtain ⟨_, hstride⟩ := hr.nat "stride" rfl rfl
  obtain ⟨_, hextra⟩ := hr.nat "num_extra_inhabitants" rfl rfl
  unfold BuiltinType.ofRecord
  rw [hflags, ok_bind]
  refine .bind (hr.optionalName_fails hP img names "type_name" rfl rfl) fun _ _ => ?_
  rw [hsize, ok_bind, hstride, ok_bind, hextra, ok_bind]
  exact .pure _

theorem CaptureDescriptor.ofRecord_fails {o : ByteOrder} {r : Record}
    (hr : Record.Fits r (Catalog.captureDescriptor o)) :
    FailsWithin P (CaptureDescriptor.ofRecord img names r) := by
  obtain ⟨types, htypes, htfit⟩ := hr.trailingRecords "capture_types" rfl
  obtain ⟨sources, hsources, hsfit⟩ := hr.trailingRecords "metadata_sources" rfl
  obtain ⟨_, hbindings⟩ := hr.nat "num_bindings" rfl rfl
  unfold CaptureDescriptor.ofRecord
  rw [htypes, ok_bind]
  refine .bind (.mapM fun item hitem =>
    (htfit item hitem).optionalName_fails hP img names "mangled_type_name" rfl rfl) fun _ _ => ?_
  rw [hsources, ok_bind]
  refine .bind (.mapM fun item hitem => ?_) fun _ _ => ?_
  · exact .bind ((hsfit item hitem).optionalName_fails hP img names "mangled_type_name" rfl rfl)
      fun _ _ => .bind ((hsfit item hitem).optionalName_fails hP img names
        "mangled_metadata_source" rfl rfl) fun _ _ => .pure _
  · rw [hbindings, ok_bind]
    exact .pure _

/-- A conformance fails where it follows its descriptor, its type reference and its protocol,
and on a type reference kind of 4 or more. -/
theorem Conformance.ofRecord_fails
    (hkind : P (.unexpectedValue "type reference kind" "a value below 4")) {o : ByteOrder}
    {r : Record} (hr : Record.Fits r (Catalog.conformanceRecord o)) :
    FailsWithin P (Conformance.ofRecord img names r) := by
  obtain ⟨_, hp, -⟩ := hr.pointer "descriptor" rfl
  unfold Conformance.ofRecord
  rw [hp, ok_bind]
  refine .bind (img.follow_fails hP rfl (Catalog.conformanceDescriptor_decodeRecord_fails hP o))
    fun body hbody => ?_
  have hbody := Image.follow_fits rfl hbody
  obtain ⟨_, hflags⟩ := hbody.flagSet "flags" rfl
  obtain ⟨_, htype, -⟩ := hbody.pointer "type_ref" rfl
  obtain ⟨_, hproto, -⟩ := hbody.pointer "protocol" rfl
  rw [hflags, ok_bind]
  refine .bind (TypeReferenceKind.ofRaw_fails hkind _) fun kind _ => ?_
  rw [htype, ok_bind]
  refine .bind (unlessExternal_fails (referencedType_fails hP img names _ kind)) fun _ _ => ?_
  rw [hproto, ok_bind]
  exact .bind (protocolName_fails hP img names _) fun _ _ => .pure _

end Views

end Catalog

/-! ## Views of catalog records -/

/-- A typed view read from a record that its catalog layout decodes fails only where it follows
a pointer (`Error.isFollowing`), or, for a conformance, on a type reference kind of 4 or more:
never on a missing field or on a value of another form than the view reads, in the record or in
the records it follows. -/
theorem Views.TypedView.ofRecord_fails_following {role : Role} {order : ByteOrder} {l : Layout}
    (hl : Catalog.layoutFor role order = some l) {w w' : Window} {r : Record}
    (hr : l.decodeRecord w = .ok (r, w')) (img : Image) (names : NameDecoder) {e : Error}
    (he : Views.TypedView.ofRecord (.role role) img names r = .error e) :
    e.isFollowing = true ∨ (role = .protocolConformances ∧
      e = .unexpectedValue "type reference kind" "a value below 4") := by
  have hfit := Layout.decodeIn_fits {} l w w' r hr
  have hP : ∀ e : Error, e.isFollowing = true → e.isFollowing = true ∨
      (role = .protocolConformances ∧
        e = .unexpectedValue "type reference kind" "a value below 4") := fun _ h => .inl h
  suffices h : FailsWithin (fun e => e.isFollowing = true ∨ (role = .protocolConformances ∧
      e = .unexpectedValue "type reference kind" "a value below 4"))
      (Views.TypedView.ofRecord (.role role) img names r) from h e he
  cases role <;> simp only [Catalog.layoutFor, Option.some.injEq, reduceCtorEq] at hl <;> subst hl
  · exact .map (Views.FieldDescriptor.ofRecord_fails hP img names hfit)
  · exact .map (Views.AssociatedTypeDescriptor.ofRecord_fails hP img names hfit)
  · exact .map (Views.BuiltinType.ofRecord_fails hP img names hfit)
  · exact .map (Views.CaptureDescriptor.ofRecord_fails hP img names hfit)
  · exact .map (Views.ProtocolRecord.ofRecord_fails hP img names hfit)
  · exact .map (Views.Conformance.ofRecord_fails hP img names (.inr ⟨rfl, rfl⟩) hfit)
  · exact .map (Views.TypeReference.ofRecord_fails hP img names hfit)

/-- A section at 0x1000 holding a conformance record whose descriptor follows it, with flags
giving type reference kind 4. -/
def kindFourConformanceSection : Section :=
  ⟨"conformances", 0x1000, ⟨#[4, 0, 0, 0, 0, 0, 0, 0, 0, 0, 0, 0, 0, 0, 0, 0, 0x20, 0, 0, 0]⟩⟩

/-- A little-endian image of that one section. -/
def kindFourConformanceImage : Image :=
  { id := 0, path := "", sections := [kindFourConformanceSection], symbols := [],
    pointerWidth := 8, order := .little }

/-- The conformance record decodes, and its view is refused for its kind. -/
theorem kindFour_conformance_refused :
    ∃ r w', (Catalog.conformanceRecord .little).decodeRecord kindFourConformanceSection.window =
        .ok (r, w') ∧
      Views.TypedView.ofRecord (.role .protocolConformances) kindFourConformanceImage .verbatim r =
        .error (.unexpectedValue "type reference kind" "a value below 4") ∧
      ((Error.unexpectedValue "type reference kind" "a value below 4").isFollowing = true ∨
        (Role.protocolConformances = .protocolConformances ∧
          Error.unexpectedValue "type reference kind" "a value below 4" =
            .unexpectedValue "type reference kind" "a value below 4")) := by
  refine ⟨_, _, rfl, Except.eq_error_of_failure (by decide +kernel), ?_⟩
  exact @Views.TypedView.ofRecord_fails_following .protocolConformances .little _ rfl
    kindFourConformanceSection.window _ _ rfl kindFourConformanceImage .verbatim _
    (Except.eq_error_of_failure (by decide +kernel))

end SwiftReflection
