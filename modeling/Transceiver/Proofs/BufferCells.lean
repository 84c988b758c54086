import Mathlib.Logic.Function.Basic
import Transceiver.FrameBuffer

/-!
# Cells of the frame buffer

The frame buffer as a memory of 128 cells. `cell` is what each of them holds, which is zero where
nothing was written yet. A write changes one cell, however long the buffer was before it, and after
any number of writes a cell holds what was written to it last (`cell_uploadEach`).
-/

namespace Transceiver

namespace FrameIndex

theorem val_ofNat_of_lt {n : Nat} (h : n < 128) : (ofNat n).val = n := Nat.mod_eq_of_lt h

theorem next_ofNat (n : Nat) : (ofNat n).next = ofNat (n + 1) :=
  Fin.ext (Nat.mod_add_mod n 128 1)

end FrameIndex

namespace FrameBuffer

variable {f : FrameBuffer}

theorem peek_of_lt {index : Nat} (h : index < 128) : f.peek index = .ok (f.octets.getD index 0) :=
  if_pos h

theorem push_of_room (h : f.octets.length < capacity) (b : UInt8) :
    f.push b = (.ok (), { f with octets := f.octets ++ [b] }) := if_pos h

theorem poke_of_lt {index : Nat} (h : index < 128) (b : UInt8) : f.poke index b =
    (.ok (), { f with
      octets := (f.octets ++ List.replicate (index + 1 - f.octets.length) 0).set index b }) :=
  if_pos h

/-- Appending is a write to the first cell that was not written yet. -/
theorem poke_length (h : f.octets.length < capacity) (b : UInt8) :
    f.poke f.octets.length b = f.push b := by
  simp [poke, push, h]

theorem upload_length (hr : f.received = false) (hl : f.octets.length < capacity) (b : UInt8) :
    f.upload f.octets.length b = f.push b := by
  cases f
  cases hr
  exact poke_length hl b

theorem fst_pop : f.pop.1 = f.front? := by
  unfold pop
  cases f.front? with
  | some b => rfl
  | none => rfl

theorem snd_pop : f.pop.2 = { f with readPosition := f.readPosition +
    if f.readPosition < f.octets.length then 1 else 0 } := by
  unfold pop front?
  by_cases h : f.readPosition < f.octets.length
  · simp [h]
  · simp [h]

variable (f)

def cell (i : FrameIndex) : UInt8 := f.octets.getD i 0

theorem peek_eq_cell (i : FrameIndex) : f.peek i = .ok (f.cell i) := if_pos i.isLt

theorem getElem?_octets {i : FrameIndex} (h : i.val < f.octets.length) :
    f.octets[i.val]? = some (f.cell i) := by
  unfold cell
  rw [List.getD_eq_getElem?_getD, List.getElem?_eq_getElem h]
  rfl

theorem length_poke (i : FrameIndex) (b : UInt8) :
    (f.poke i b).2.octets.length = max f.octets.length (i.val + 1) := by
  simp only [poke_of_lt i.isLt, List.length_set, List.length_append, List.length_replicate]
  omega

/-- Zeros at the end cannot be told from what was not written yet. -/
theorem getD_append_zeros (l : List UInt8) (n j : Nat) :
    (l ++ List.replicate n 0).getD j 0 = l.getD j 0 := by
  simp only [List.getD_eq_getElem?_getD]
  by_cases hj : j < l.length
  · rw [List.getElem?_append_left hj]
  · have hle : l.length ≤ j := by omega
    rw [List.getElem?_append_right hle, List.getElem?_eq_none hle, List.getElem?_replicate]
    split
    · rfl
    · rfl

theorem cell_poke (i : FrameIndex) (b : UInt8) :
    (f.poke i b).2.cell = Function.update f.cell i b := by
  funext j
  simp only [cell, poke_of_lt i.isLt]
  by_cases hj : j = i
  · subst hj
    rw [Function.update_self, List.getD_eq_getElem?_getD, List.getElem?_set_self]
    · rfl
    · rw [List.length_append, List.length_replicate]
      omega
  · have hne : i.val ≠ j.val := fun e => hj (Fin.ext e.symm)
    rw [Function.update_of_ne hj, List.getD_eq_getElem?_getD, List.getElem?_set_ne hne,
      ← List.getD_eq_getElem?_getD, getD_append_zeros, cell]

theorem cell_push (h : f.octets.length < capacity) (b : UInt8) :
    (f.push b).2.cell = Function.update f.cell ⟨f.octets.length, h⟩ b := by
  rw [← poke_length h b]
  exact f.cell_poke ⟨f.octets.length, h⟩ b

/-- The octets of the buffer are its first cells. -/
theorem Fits.octets_eq (h : f.Fits) :
    f.octets = (List.ofFn f.cell).take f.octets.length := by
  have hle : f.octets.length ≤ 128 := h.length_le
  refine List.ext_getElem ?_ fun i hi hi' => ?_
  · rw [List.length_take, List.length_ofFn]
    omega
  · have hcell := f.getElem?_octets (i := ⟨i, by omega⟩) hi
    rw [List.getElem_take, List.getElem_ofFn]
    exact Option.some.inj ((List.getElem?_eq_getElem hi).symm.trans hcell)

/-! ### Many writes -/

def uploadEach (f : FrameBuffer) : List (FrameIndex × UInt8) → FrameBuffer
  | [] => f
  | w :: ws => (f.upload w.1 w.2).2.uploadEach ws

theorem cell_upload (i : FrameIndex) (b : UInt8) :
    (f.upload i b).2.cell = Function.update f.cell i b := cell_poke { f with received := false } i b

theorem received_poke (f : FrameBuffer) (index : Nat) (b : UInt8) :
    (f.poke index b).2.received = f.received := by
  unfold poke
  split
  · rfl
  · rfl

theorem received_uploadEach (writes : List (FrameIndex × UInt8)) :
    (f.uploadEach writes).received = (f.received && writes.isEmpty) := by
  induction writes generalizing f with
  | nil => exact (Bool.and_true _).symm
  | cons w ws ih =>
    have hw : (f.upload w.1 w.2).2.received = false := received_poke _ _ _
    rw [uploadEach, ih, hw, Bool.false_and, List.isEmpty_cons, Bool.and_false]

/-- A cell holds what was written to it last, or what it held before. -/
theorem cell_uploadEach (writes : List (FrameIndex × UInt8)) (i : FrameIndex) :
    (f.uploadEach writes).cell i = (writes.reverse.lookup i).getD (f.cell i) := by
  induction writes generalizing f with
  | nil => rfl
  | cons w ws ih =>
    obtain ⟨j, b⟩ := w
    rw [uploadEach, ih, cell_upload, List.reverse_cons, List.lookup_append]
    cases ws.reverse.lookup i with
    | some last => rfl
    | none =>
      by_cases hi : i = j
      · subst hi
        simp
      · have hj : (i == j) = false := beq_false_of_ne hi
        simp only [Function.update_of_ne hi, List.lookup_cons, hj]
        rfl

end FrameBuffer

end Transceiver
