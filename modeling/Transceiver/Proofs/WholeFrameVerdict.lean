import Mathlib.Data.List.Induction
import Transceiver.Proofs.OctetStream
import Transceiver.Proofs.StreamedFilter

/-!
# The filter on a whole frame

While a frame comes in, the filter is asked at five offsets, each time about no more of the frame
than is there. It could as well be asked about the complete frame, at every offset behind the
length: what it says at an offset does not depend on what follows (`check_take`), and at the other
offsets it says nothing (`check_of_notMem`). So a frame is let in by the five answers exactly if all
answers on the complete frame let it in, and both note the same sequence number:
`streamed_as_whole`.
-/

namespace Transceiver

/-- Two verdicts on one frame. Of two numbers the later one is kept. -/
def Verdict.both (v w : Verdict) : Verdict := ⟨v.accepted && w.accepted, w.sequence.or v.sequence⟩

namespace FrameFilter

variable (node : LocalAddress)

/-- What an effect of the receive framer means for the filter: an octet is stored, or the filter is
asked about the octets stored so far. -/
def heed (s : List UInt8 × Verdict) : ReceiveEffect → List UInt8 × Verdict
  | .push b => (s.1 ++ [b], s.2)
  | .filterCheck offset => (s.1, s.2.both (check s.1 offset node))
  | _ => s

/-- The verdict on a frame that comes in octet by octet behind its length, all of it to be
filtered. -/
def streamed (frame : List UInt8) : Verdict :=
  ((OctetStream.stored frame.length 1 frame.tail).foldl (heed node) (frame.take 1, .accept)).2

/-! ### The verdict at one offset -/

theorem check_take (frame : List UInt8) {offset n : Nat} (h : offset < n) :
    check (frame.take n) offset node = check (frame.take (offset + 1)) offset node := by
  by_cases hin : offset < frame.length
  · have hsplit : frame.take n = frame.take (offset + 1) ++ (frame.drop (offset + 1)).take
        (n - (offset + 1)) := by
      rw [← List.take_add, Nat.add_sub_cancel' h]
    rw [hsplit]
    apply check_append
    rw [List.length_take]
    omega
  · rw [List.take_of_length_le (by omega), List.take_of_length_le (by omega)]

theorem check_of_notMem (frame : List UInt8) {offset : Nat} (h : offset ∉ checkOffsets) :
    check frame offset node = .accept := by
  simp only [checkOffsets, List.mem_cons, List.not_mem_nil, or_false, not_or] at h
  obtain ⟨h1, h3, h5, h7, h13⟩ := h
  have hfirst : Verdict.ofBool (offset != 1) = .accept := by simp [h1, Verdict.ofBool]
  unfold check
  simp only [hfirst]
  split
  · rfl
  · rfl

/-- Some offset behind the length gives the number to be noted, which is then that at offset 3. -/
theorem exists_sequence_iff (frame : List UInt8) (sequence : UInt8) :
    (∃ offset, 0 < offset ∧ offset < frame.length ∧
      (check frame offset node).sequence = some sequence) ↔
      sequenceOf? frame = some sequence := by
  constructor
  · rintro ⟨offset, -, -, hs⟩
    by_cases h3 : offset = 3
    · rw [h3, sequence_check_three] at hs
      exact hs
    · rw [sequence_check_of_ne node h3] at hs
      cases hs
  · intro hs
    refine ⟨3, by omega, Nat.lt_of_not_le fun hshort => ?_, by rw [sequence_check_three, hs]⟩
    rw [sequenceOf?_of_short hshort] at hs
    cases hs

/-! ### The verdicts while a frame comes in -/

structure Sifts (frame : List UInt8) (s : List UInt8 × Verdict) : Prop where
  stored_eq : s.1 = frame
  accepted_iff : s.2.accepted = true ↔ ∀ offset, 0 < offset → offset < frame.length →
    (check frame offset node).accepted = true
  sequence_eq : s.2.sequence = sequenceOf? frame

variable {node} {frame : List UInt8} {s : List UInt8 × Verdict}

theorem sifts_length (l : UInt8) : Sifts node [l] ([l], .accept) where
  stored_eq := rfl
  accepted_iff := by
    refine iff_of_true rfl fun offset h0 h1 => ?_
    have hlt : offset < 1 := h1
    omega
  sequence_eq := by
    have hshort : [l].length ≤ 3 := Nat.le_add_left 1 2
    exact (sequenceOf?_of_short hshort).symm

/-- With one more octet there is one more offset. -/
theorem accepted_concat_iff (hf : 0 < frame.length) (b : UInt8) :
    (∀ offset, 0 < offset → offset < (frame ++ [b]).length →
      (check (frame ++ [b]) offset node).accepted = true) ↔
      (∀ offset, 0 < offset → offset < frame.length →
        (check frame offset node).accepted = true) ∧
      (check (frame ++ [b]) frame.length node).accepted = true := by
  have hlength : (frame ++ [b]).length = frame.length + 1 := by simp
  rw [hlength]
  constructor
  · intro h
    refine ⟨fun offset h0 hlt => ?_, h frame.length hf (Nat.lt_succ_self _)⟩
    rw [← check_append [b] node hlt]
    exact h offset h0 (Nat.lt_succ_of_lt hlt)
  · rintro ⟨h, hlast⟩ offset h0 hlt
    rcases Nat.lt_succ_iff_lt_or_eq.1 hlt with hlt | rfl
    · rw [check_append [b] node hlt]
      exact h offset h0 hlt
    · exact hlast

/-- The next octet is stored, and the filter is asked if it is to be asked there. -/
theorem Sifts.concat (h : Sifts node frame s) (hf : 0 < frame.length) {n : Nat}
    (hn : frame.length ≤ n) (b : UInt8) : Sifts node (frame ++ [b])
      ((OctetStream.stored n frame.length [b]).foldl (heed node) s) := by
  obtain ⟨stored, v⟩ := s
  obtain rfl : stored = frame := h.stored_eq
  have haccepted := h.accepted_iff
  have hsequence := h.sequence_eq
  rw [OctetStream.stored_singleton]
  by_cases hk : stored.length ∈ checkOffsets
  · rw [if_pos ⟨hn, hk⟩]
    constructor
    · rfl
    · rw [accepted_concat_iff hf, ← haccepted, ← Bool.and_eq_true]
      rfl
    · rw [← sequence_check_concat node stored b, ← hsequence]
      rfl
  · have hsilent := check_of_notMem node (stored ++ [b]) hk
    rw [if_neg fun hc => hk hc.2]
    constructor
    · rfl
    · rw [accepted_concat_iff hf, hsilent]
      exact haccepted.trans (and_iff_left rfl).symm
    · rw [← sequence_check_concat node stored b, hsilent]
      exact hsequence

theorem sifts_foldl (l : UInt8) (octets : List UInt8) {n : Nat} (hn : octets.length ≤ n) :
    Sifts node (l :: octets)
      ((OctetStream.stored n 1 octets).foldl (heed node) ([l], .accept)) := by
  induction octets using List.reverseRecOn with
  | nil => exact sifts_length l
  | append_singleton octets b ih =>
    rw [List.length_append, List.length_singleton] at hn
    have hlength : 1 + octets.length = (l :: octets).length := Nat.add_comm 1 _
    rw [OctetStream.stored_append, List.foldl_append, hlength]
    exact (ih (by omega)).concat (Nat.succ_pos _) hn b

/-- The verdict at an offset is the same for every part of a frame that reaches beyond it, and at an
offset where the filter is not asked it says nothing. So a frame that comes in is accepted exactly
if the filter accepts the complete frame at every offset behind the length, and the sequence number
noted is the one that it finds there. -/
theorem streamed_as_whole (node : LocalAddress) (frame : List UInt8) :
    (∀ offset n, offset < n →
      check (frame.take n) offset node = check (frame.take (offset + 1)) offset node) ∧
    (∀ offset, offset ∉ checkOffsets → check frame offset node = .accept) ∧
    ((streamed node frame).accepted = true ↔ ∀ offset, 0 < offset → offset < frame.length →
      (check frame offset node).accepted = true) ∧
    ∀ sequence, (streamed node frame).sequence = some sequence ↔
      ∃ offset, 0 < offset ∧ offset < frame.length ∧
        (check frame offset node).sequence = some sequence := by
  refine ⟨fun _ _ h => check_take node frame h, fun _ h => check_of_notMem node frame h, ?_⟩
  cases frame with
  | nil => simp [streamed, OctetStream.stored, Verdict.accept]
  | cons l octets =>
    have hs : Sifts node (l :: octets) _ := sifts_foldl l octets (Nat.le_succ octets.length)
    refine ⟨hs.accepted_iff, fun sequence => ?_⟩
    rw [exists_sequence_iff]
    exact iff_of_eq (congrArg (· = some sequence) hs.sequence_eq)

end FrameFilter

end Transceiver
