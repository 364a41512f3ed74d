import SwiftReflection.Decode.Engine
/-!
# Reading from windows

Every read of a window goes through `Window.ensure` and `Window.take`, which succeed exactly when
enough bytes remain. This module states each read operation once as an `if` on the bytes that
remain, reading its bytes off `Window.rest`, the list of unread bytes (`Window.take_eq`). The
laws of decoding rest on this form: a read returns the bytes laid out at the window's position,
and two windows that show the same bytes over a read's range read the same value, or the
shorter one fails for lack of bytes (`Replays.read` in the locality proofs).
-/

namespace SwiftReflection

/-! ## Results of `Except` -/

theorem bind_eq_ok {ε α β : Type} {x : Except ε α} {f : α → Except ε β} {b : β} :
    x >>= f = .ok b ↔ ∃ a, x = .ok a ∧ f a = .ok b := by
  cases x <;> simp [bind, Except.bind]

theorem bind_eq_error {ε α β : Type} {x : Except ε α} {f : α → Except ε β} {e : ε} :
    x >>= f = .error e ↔ x = .error e ∨ ∃ a, x = .ok a ∧ f a = .error e := by
  cases x <;> simp [bind, Except.bind]

@[simp] theorem pure_eq_ok {ε α : Type} {a b : α} : (pure a : Except ε α) = .ok b ↔ a = b := by
  simp [pure, Except.pure]

@[simp] theorem pure_ne_error {ε α : Type} {a : α} {e : ε} : (pure a : Except ε α) ≠ .error e := by
  simp [pure, Except.pure]

/-- A failure for lack of bytes, whatever its address and counts. -/
def Error.isShort : Error → Bool
  | .bufferTooShort .. => true
  | _ => false

/-! ## The unread bytes -/

theorem ByteArray.toList_loop (b : ByteArray) (i : Nat) (r : List UInt8) :
    ByteArray.toList.loop b i r = r.reverse ++ b.data.toList.drop i := by
  fun_induction ByteArray.toList.loop b i r with
  | case1 i r hi ih =>
    have hi' : i < b.data.size := hi
    have hlen : i < b.data.toList.length := by simpa using hi'
    have hdrop : b.data.toList.drop i = b.data.toList[i] ::
        b.data.toList.drop (i + 1) := List.drop_eq_getElem_cons _
    have hget : b.get! i = b.data.toList[i] := by
      simp [ByteArray.get!, getElem!_pos b.data i hi']
    rw [ih, hdrop, hget]
    simp
  | case2 i r hi =>
    have : b.data.toList.drop i = [] := List.drop_of_length_le (by simp; omega)
    simp [this]

theorem ByteArray.toList_eq_data_toList (b : ByteArray) : b.toList = b.data.toList := by
  simp [ByteArray.toList, ByteArray.toList_loop]

/-- A byte of a buffer is the byte at the same index of its list view. -/
theorem ByteArray.getElem?_eq_toList (b : ByteArray) (i : Nat) : b[i]? = b.toList[i]? := by
  rw [toList_eq_data_toList, Array.getElem?_toList]
  by_cases h : i < b.size
  · simp [getElem?_pos, h, ByteArray.getElem_eq_getElem_data]
  · rw [getElem?_neg b i h, getElem?_neg b.data i h]

namespace Window

theorem rest_eq (w : Window) : w.rest = w.data.toList.drop w.pos := by
  simp only [Window.rest, ByteArray.toList_eq_data_toList, ByteArray.data_extract,
    Array.toList_extract, List.extract_eq_take_drop]
  exact List.take_of_length_le (by simp)

@[simp] theorem length_rest (w : Window) : w.rest.length = w.remaining := by
  simp [rest_eq, remaining, ByteArray.toList_eq_data_toList]

/-- Moving a window forward drops bytes from the front of its unread bytes. -/
theorem rest_move (w : Window) (n : Nat) : { w with pos := w.pos + n }.rest = w.rest.drop n := by
  simp [rest_eq, List.drop_drop, Nat.add_comm]

@[simp] theorem remaining_move (w : Window) (n : Nat) :
    { w with pos := w.pos + n }.remaining = w.remaining - n := by
  simp only [remaining]
  omega

theorem extract_toList (w : Window) (n : Nat) :
    (w.data.extract w.pos (w.pos + n)).toList = w.rest.take n := by
  simp [rest_eq, ByteArray.toList_eq_data_toList, ByteArray.data_extract,
    List.extract_eq_take_drop]

/-! ## Each read as one `if` -/

theorem ensure_eq (w : Window) (n : Nat) :
    w.ensure n = if n ≤ w.remaining then .ok ()
      else .error (.bufferTooShort w.address n w.remaining) := by
  unfold ensure
  by_cases h : n ≤ w.remaining
  · simp [h, Nat.not_lt.mpr h]
  · simp [h, Nat.lt_of_not_le h]

theorem ensure_eq_ok {w : Window} {n : Nat} {u : Unit} :
    w.ensure n = .ok u ↔ n ≤ w.remaining := by
  rw [ensure_eq]
  split <;> simp_all

theorem take_eq (w : Window) (n : Nat) :
    w.take n = if n ≤ w.remaining then .ok (w.rest.take n, { w with pos := w.pos + n })
      else .error (.bufferTooShort w.address n w.remaining) := by
  simp only [take, ensure_eq, extract_toList]
  split <;> rfl

theorem advance_eq (w : Window) (n : Nat) :
    w.advance n = if n ≤ w.remaining then .ok { w with pos := w.pos + n }
      else .error (.bufferTooShort w.address n w.remaining) := by
  simp only [advance, ensure_eq]
  split <;> rfl

/-- A read checks its bytes first and asserts the width after. -/
theorem readUInt_eq (w : Window) (width : Nat) (order : ByteOrder) :
    w.readUInt width order = if width ≤ w.remaining
      then if width ≤ 8
        then .ok (order.readUInt (w.rest.take width), { w with pos := w.pos + width })
        else .error (.panic .wideRead)
      else .error (.bufferTooShort w.address width w.remaining) := by
  simp only [readUInt, take_eq]
  split <;> rfl

/-- A read of at most eight bytes fails only for lack of bytes. -/
theorem readUInt_eq_of_le {width : Nat} (hw : width ≤ 8) (w : Window) (order : ByteOrder) :
    w.readUInt width order = if width ≤ w.remaining
      then .ok (order.readUInt (w.rest.take width), { w with pos := w.pos + width })
      else .error (.bufferTooShort w.address width w.remaining) := by
  simp only [readUInt_eq, hw, if_true]

theorem readWord_eq (w : Window) (order : ByteOrder) :
    w.readWord order = if 4 ≤ w.remaining
      then .ok ((order.readUInt (w.rest.take 4)).toUInt32, { w with pos := w.pos + 4 })
      else .error (.bufferTooShort w.address 4 w.remaining) := by
  simp only [readWord, readUInt_eq_of_le (by decide : 4 ≤ 8)]
  split <;> rfl

theorem advance_eq_ok {w w' : Window} {n : Nat} :
    w.advance n = .ok w' ↔ n ≤ w.remaining ∧ w' = { w with pos := w.pos + n } := by
  rw [advance_eq]
  split
  · simp_all [eq_comm]
  · simp only [reduceCtorEq, false_iff, not_and]
    omega

end Window

end SwiftReflection
