import Transceiver.FrameFilter
import Transceiver.ReceiveFramer

/-!
# The filter on a frame that comes in

The filter is asked while the frame comes in, at an offset whose octet has just arrived. What it
says then it says of any longer part of the frame too: every field it looks at is complete
(`check_append`). The sequence number that it notes is that of `sequenceOf?`, at offset 3 only.
-/

namespace Transceiver

namespace FrameControl

theorem ofFrame_append {frame : List UInt8} (h : 3 ≤ frame.length) (more : List UInt8) :
    ofFrame (frame ++ more) = ofFrame frame := by
  obtain ⟨x, y, z, r, rfl⟩ : ∃ x y z r, frame = x :: y :: z :: r := by
    match frame, h with
    | x :: y :: z :: r, _ => exact ⟨x, y, z, r, rfl⟩
  rfl

end FrameControl

namespace FrameFilter

variable {frame : List UInt8} (more : List UInt8) (node : LocalAddress)

theorem field?_append {s n : Nat} (h : s + n ≤ frame.length) :
    field? (frame ++ more) s n = field? frame s n := by
  have hdrop : (frame ++ more).drop s = frame.drop s ++ more :=
    List.drop_append_of_le_length (by omega)
  have htake : (frame.drop s ++ more).take n = (frame.drop s).take n :=
    List.take_append_of_le_length (by rw [List.length_drop]; omega)
  have hmore : s + n ≤ (frame ++ more).length := by
    rw [List.length_append]
    omega
  simp only [field?, if_pos h, if_pos hmore, hdrop, htake]

/-- The sequence number of a frame of a type that has one to be noted. -/
def sequenceOf? (frame : List UInt8) : Option UInt8 :=
  if (FrameControl.ofFrame frame).isReserved then none
  else sequence? (.ofFrame frame) frame

/-- The number to be noted is the third octet of the frame, if the frame is long enough and of a
type that has one; otherwise the number noted before stays. -/
theorem getD_sequenceOf? (l : UInt8) (body : List UInt8) (old : UInt8) :
    (sequenceOf? (l :: body)).getD old =
      if 3 ≤ body.length ∧ (FrameControl.ofFrame (l :: body)).frameType ≠ .beacon ∧
        (FrameControl.ofFrame (l :: body)).isReserved = false then body.getD 2 0
      else old := by
  have hthird : (l :: body)[3]? = body[2]? := rfl
  unfold sequenceOf? sequence?
  rw [hthird]
  generalize FrameControl.ofFrame (l :: body) = fc
  by_cases hreserved : fc.isReserved = true
  · rw [if_pos hreserved, if_neg (by simp [hreserved])]
    rfl
  rw [if_neg hreserved]
  by_cases hbeacon : fc.frameType = .beacon
  · rw [if_pos hbeacon, if_neg (by simp [hbeacon])]
    rfl
  rw [if_neg hbeacon]
  by_cases hlength : 3 ≤ body.length
  · rw [if_pos ⟨hlength, hbeacon, eq_false_of_ne_true hreserved⟩, List.getD_eq_getElem?_getD,
      List.getElem?_eq_getElem hlength]
    rfl
  · rw [if_neg fun h => hlength h.1, List.getElem?_eq_none (by omega)]
    rfl

theorem sequenceOf?_of_short (h : frame.length ≤ 3) : sequenceOf? frame = none := by
  have hnone : frame[3]? = none := List.getElem?_eq_none h
  simp only [sequenceOf?, sequence?, hnone, ite_self]

theorem sequenceOf?_append (h : 4 ≤ frame.length) :
    sequenceOf? (frame ++ more) = sequenceOf? frame := by
  have h3 : 3 ≤ frame.length := by omega
  have hfc := FrameControl.ofFrame_append h3 more
  have hthird : (frame ++ more)[3]? = frame[3]? := List.getElem?_append_left h
  simp only [sequenceOf?, sequence?, hfc, hthird]

theorem sequenceOf?_concat (h : frame.length ≠ 3) (b : UInt8) :
    sequenceOf? (frame ++ [b]) = sequenceOf? frame := by
  by_cases hl : 4 ≤ frame.length
  · exact sequenceOf?_append [b] hl
  · have hshort : frame.length ≤ 3 := by omega
    have hshort' : (frame ++ [b]).length ≤ 3 := by
      rw [List.length_append, List.length_singleton]
      omega
    rw [sequenceOf?_of_short hshort, sequenceOf?_of_short hshort']

theorem sequence_check_three (frame : List UInt8) :
    (check frame 3 node).sequence = sequenceOf? frame := by
  unfold check sequenceOf?
  simp only
  split <;> rfl

theorem sequence_ofBool (b : Bool) : (Verdict.ofBool b).sequence = none := by
  cases b <;> rfl

theorem accepted_ofBool (b : Bool) : (Verdict.ofBool b).accepted = b := by
  cases b <;> rfl

theorem sequence_check_of_ne {offset : Nat} (h : offset ≠ 3) (frame : List UInt8) :
    (check frame offset node).sequence = none := by
  unfold check
  simp only
  split
  · exact sequence_ofBool _
  · split
    · exact absurd rfl h
    · exact sequence_ofBool _
    · exact sequence_ofBool _
    · exact sequence_ofBool _
    · rfl

/-- With every octet that is checked, the number noted so far is brought up to date. -/
theorem sequence_check_concat (frame : List UInt8) (b : UInt8) :
    (check (frame ++ [b]) frame.length node).sequence.or (sequenceOf? frame) =
      sequenceOf? (frame ++ [b]) := by
  by_cases h3 : frame.length = 3
  · rw [h3, sequence_check_three, sequenceOf?_of_short (Nat.le_of_eq h3), Option.or_none]
  · rw [sequence_check_of_ne node h3, Option.none_or, sequenceOf?_concat h3]

/-- Nothing is refused for its sequence number. -/
theorem accepted_check_three (frame : List UInt8) : (check frame 3 node).accepted = true := by
  unfold check
  simp only
  split <;> rfl

/-- The verdict at an offset does not depend on what comes behind it. -/
theorem check_append {offset : Nat} (h : offset < frame.length) :
    check (frame ++ more) offset node = check frame offset node := by
  by_cases hshort : offset ≤ 2
  · -- The addressing modes may still be missing, but only the frame type matters.
    have hlow (h : offset = 1) : (FrameControl.ofFrame (frame ++ more)).isReserved =
        (FrameControl.ofFrame frame).isReserved := by
      have hfirst : (frame ++ more).getD 1 0 = frame.getD 1 0 := by
        simp only [List.getD_eq_getElem?_getD]
        rw [List.getElem?_append_left (by omega)]
      simp only [FrameControl.isReserved, FrameControl.ofFrame, hfirst]
    unfold check
    match offset with
    | 0 | 2 => simp only; split <;> split <;> rfl
    | 1 => simp only [hlow rfl]
  · have h3 : 3 ≤ frame.length := by omega
    have hfc := FrameControl.ofFrame_append h3 more
    unfold check
    simp only [hfc]
    split
    · rfl
    · split
      · have hthird : (frame ++ more)[3]? = frame[3]? := List.getElem?_append_left h
        simp only [sequence?, hthird]
      · have hpan : 4 + 2 ≤ frame.length := h
        simp only [panAccepted, field?_append more hpan]
      · have hs : node.short.toList.length = 2 := node.short.length_toList
        have hshort : 6 + 2 ≤ frame.length := h
        simp only [addressAccepted, hs, field?_append more hshort]
      · have hi : node.ieee.toList.length = 8 := node.ieee.length_toList
        have hlong : 6 + 8 ≤ frame.length := h
        simp only [addressAccepted, hi, field?_append more hlong]
      · rfl

theorem bounds_of_checkOffset {k : Nat} (h : k ∈ checkOffsets) : 0 < k ∧ k ≤ 13 :=
  (by decide : ∀ k ∈ checkOffsets, 0 < k ∧ k ≤ 13) k h

def Passes (frame : List UInt8) (node : LocalAddress) : Prop :=
  ∀ offset ∈ checkOffsets, offset < frame.length → (check frame offset node).accepted = true

end FrameFilter

end Transceiver
