import Transceiver.Proofs.BusAccess

/-!
# The frame window of the data memory

Of the addresses of the data memory some stand for the transceiver and all others are refused. The
window on the frame buffer begins one cell later while the buffer holds a frame off the air, so that
its last address then stands for nothing and reads as zero. The first write ends that, and from then
on every address of the window reads as what was written to it last, or as its own cell of the
buffer.
-/

namespace Transceiver

variable {G : Type}

namespace Cell

/-- The address is that of the lines, of a register or of a place in the frame window. -/
def Mapped (address : UInt16) : Prop :=
  address = 0x139 ∨ (0x140 ≤ address ∧ address ≤ 0x17F) ∨ (0x180 ≤ address ∧ address ≤ 0x1FF)

theorem ofAddress?_eq_none_iff (address : UInt16) : ofAddress? address = none ↔ ¬Mapped address := by
  unfold ofAddress? Mapped
  simp only [UInt16.le_iff_toNat_le, ← UInt16.toNat_inj, UInt16.reduceToNat]
  generalize address.toNat = a
  split
  · exact iff_of_false nofun (by omega)
  · split
    · exact iff_of_false nofun (by omega)
    · split
      · exact iff_of_false nofun (by omega)
      · exact iff_of_true rfl (by omega)

end Cell

namespace MappedRadio

variable (m : MappedRadio G)

theorem frameOctet_eq (i : FrameIndex) : m.frameOctet i =
    if m.chip.buffer.received then if i.val = 127 then 0 else m.chip.buffer.cell i.next
    else m.chip.buffer.cell i := by
  by_cases hr : m.chip.buffer.received = true
  · rw [if_pos hr]
    by_cases hi : i.val = 127
    · have hpeek : m.chip.buffer.peek (1 + i.val) = .error (.outOfRange (1 + i.val)) :=
        if_neg (by rw [hi]; decide)
      rw [if_pos hi]
      simp only [frameOctet, hr, if_true, hpeek]
      rfl
    · have hnext : i.next.val = 1 + i.val := by
        have hi' := i.isLt
        exact (Nat.mod_eq_of_lt (by omega)).trans (Nat.add_comm i.val 1)
      have hlt : 1 + i.val < 128 := hnext ▸ i.next.isLt
      rw [if_neg hi, frameOctet_of_received m hr hlt, FrameBuffer.cell, hnext]
  · rw [if_neg hr, frameOctet_of_not_received m (eq_false_of_ne_true hr)]
    rfl

def writeEach (m : MappedRadio G) : List (FrameIndex × UInt8) → MappedRadio G
  | [] => m
  | w :: ws => (m.write w.1.address w.2).2.writeEach ws

theorem writeEach_eq (writes : List (FrameIndex × UInt8)) : m.writeEach writes =
    { m with chip := { m.chip with buffer := m.chip.buffer.uploadEach writes } } := by
  induction writes generalizing m with
  | nil => rfl
  | cons w ws ih =>
    simp only [writeEach, write_frame, ih, Chip.uploadFrame, FrameBuffer.uploadEach]

/-- An access is refused exactly if its address is none of the transceiver's, and then changes
nothing. A read of the frame window gets a cell of the buffer, the one behind it if the buffer holds
a frame off the air, and changes nothing. Writes to the window leave everything but the buffer as it
was, and after the first one every address of the window reads as what was written to it last, or
as the cell it stands for. -/
theorem frame_window (m : MappedRadio G) :
    (∀ address v, ((∃ e, (m.read address).1 = .error e) ↔ ¬Cell.Mapped address) ∧
      ((∃ e, (m.write address v).1 = .error e) ↔ ¬Cell.Mapped address) ∧
      (¬Cell.Mapped address → m.read address = (.error (.unmapped address), m) ∧
        m.write address v = (.error (.unmapped address), m))) ∧
    (∀ i : FrameIndex, m.read i.address =
      (.ok (if m.chip.buffer.received then if i.val = 127 then 0 else m.chip.buffer.cell i.next
        else m.chip.buffer.cell i), m)) ∧
    ∀ (first : FrameIndex × UInt8) (others : List (FrameIndex × UInt8)),
      let writes := first :: others
      let m' := m.writeEach writes
      m' = { m with chip := { m.chip with buffer := m'.chip.buffer } } ∧
      m'.chip.buffer.received = false ∧
      ∀ i : FrameIndex, (m'.read i.address).1 =
        .ok ((writes.reverse.lookup i).getD (m.chip.buffer.cell i)) := by
  refine ⟨fun address v => ?_, fun i => ?_, fun first others => ?_⟩
  · simp only [read, write, ← Cell.ofAddress?_eq_none_iff]
    cases Cell.ofAddress? address with
    | none => simp
    | some cell => simp
  · rw [read_frame, frameOctet_eq]
  · intro writes m'
    have hwrites : m' = { m with chip :=
        { m.chip with buffer := m.chip.buffer.uploadEach writes } } := m.writeEach_eq writes
    have hreceived : m'.chip.buffer.received = false := by
      rw [hwrites]
      exact (m.chip.buffer.received_uploadEach writes).trans (Bool.and_false _)
    have hcell (i : FrameIndex) : m'.chip.buffer.cell i =
        (writes.reverse.lookup i).getD (m.chip.buffer.cell i) := by
      rw [hwrites]
      exact m.chip.buffer.cell_uploadEach writes i
    refine ⟨?_, hreceived, fun i => ?_⟩
    · rw [hwrites]
    · rw [read_frame, frameOctet_eq, hreceived, if_neg Bool.false_ne_true, hcell]

/-- A frame off the air is read, and then written over. -/
theorem frame_window_of_received_frame :
    let config : Configuration := ⟨.atmega128rfa1, Vector.replicate 8 0, none, 0⟩
    let m : MappedRadio Mixer := attach
      ((Chip.ofConfiguration config).run [.prepareFrame, .pushFrame 2, .pushFrame 5, .pushFrame 6])
    let m' := m.writeEach [(1, 7)]
    ¬Cell.Mapped 0x13F ∧ m.read 0x13F = (.error (.unmapped 0x13F), m) ∧
      (m.read 0x180).1 = .ok 5 ∧ (m.read 0x1FF).1 = .ok 0 ∧
      (m'.read 0x180).1 = .ok 2 ∧ (m'.read 0x181).1 = .ok 7 := by
  intro config m m'
  have hunmapped : ¬Cell.Mapped 0x13F := by
    unfold Cell.Mapped
    decide
  obtain ⟨haccess, hread, hwritten⟩ := frame_window m
  obtain ⟨-, -, hread'⟩ := hwritten (1, 7) []
  exact ⟨hunmapped, ((haccess 0x13F 0).2.2 hunmapped).1, congrArg Prod.fst (hread 0),
    congrArg Prod.fst (hread 127), hread' 0, hread' 1⟩

end MappedRadio

end Transceiver
