import Transceiver.Proofs.BusAccess

/-!
# Bursts on the serial bus

A memory access of the serial bus takes an address and then goes from cell to cell, after the last
one with the first, for as long as the node keeps on. What it comes to is a `burst`: writes to
neighbouring cells of the buffer, of which the later ones win when it has come around, or the cells
one after the other read out.
-/

namespace Transceiver

variable {G : Type}

/-- Octets with the cells that a burst has for them, from a place on around the end. -/
def FrameIndex.burst (start : Nat) (octets : List UInt8) : List (FrameIndex × UInt8) :=
  octets.mapIdx fun i b => (.ofNat (start + i), b)

theorem FrameIndex.burst_cons (start : Nat) (b : UInt8) (octets : List UInt8) :
    burst start (b :: octets) = (.ofNat start, b) :: burst (start + 1) octets := by
  unfold burst
  rw [List.mapIdx_cons]
  simp only [Nat.add_zero, Nat.add_assoc, Nat.add_comm 1]

theorem FrameIndex.isEmpty_burst (start : Nat) (octets : List UInt8) :
    (burst start octets).isEmpty = octets.isEmpty := by
  cases octets with
  | nil => rfl
  | cons b r => rw [burst_cons, List.isEmpty_cons, List.isEmpty_cons]

namespace Transaction

variable (c : Chip G)

theorem exchangeAll_later_writeMemory (n : Nat) (octets : List UInt8) :
    (exchangeAll ⟨.later .writeMemory, .ofNat n⟩ c octets).2.2 =
      { c with buffer := c.buffer.uploadEach (FrameIndex.burst n octets) } := by
  induction octets generalizing c n with
  | nil => rfl
  | cons b r ih =>
    simp only [exchangeAll, exchange, exchangeLater, moveOn, FrameIndex.next_ofNat, ih,
      FrameIndex.burst_cons, FrameBuffer.uploadEach, Chip.uploadFrame]

theorem exchangeAll_later_readMemory (n : Nat) (octets : List UInt8) :
    let r := exchangeAll ⟨.later .readMemory, .ofNat n⟩ c octets
    r.1 = octets.mapIdx (fun k _ => c.buffer.cell (.ofNat (n + k))) ∧ r.2.2 = c := by
  induction octets generalizing n with
  | nil => exact ⟨rfl, rfl⟩
  | cons b r ih =>
    obtain ⟨houts, hchip⟩ := ih (n + 1)
    simp only [Nat.add_assoc, Nat.add_comm 1] at houts
    simp only [exchangeAll, exchange, exchangeLater, moveOn, FrameIndex.next_ofNat, houts, hchip,
      List.mapIdx_cons]
    exact ⟨rfl, trivial⟩

variable (t : Transaction) {command : UInt8}

theorem exchangeAll_writeMemory_burst (h : Access.ofByte command = .writeMemory) (start : UInt8)
    (octets : List UInt8) : (t.restart.exchangeAll c (command :: start :: octets)).2.2 =
      { c with buffer := c.buffer.uploadEach (FrameIndex.burst start.toNat octets) } := by
  simp only [exchangeAll, exchange, restart, h, exchangeFirst]
  exact exchangeAll_later_writeMemory c start.toNat octets

theorem exchangeAll_readMemory_burst (h : Access.ofByte command = .readMemory) (start : UInt8)
    (octets : List UInt8) :
    let r := t.restart.exchangeAll c (command :: start :: octets)
    r.1 = 0 :: 0 :: octets.mapIdx (fun k _ => c.buffer.cell (.ofNat (start.toNat + k))) ∧
      r.2.2 = c := by
  obtain ⟨houts, hchip⟩ := exchangeAll_later_readMemory c start.toNat octets
  simp only [exchangeAll, exchange, restart, h, exchangeFirst]
  exact ⟨congrArg (0 :: 0 :: ·) houts, hchip⟩

end Transaction

namespace SerialRadio

/-- For the memory access of the serial bus the frame buffer goes round: a burst of any length from
any address leaves every cell with the last octet that came by there, or as it was, and leaves
everything else about the chip as it was, except that the buffer is no longer taken for a received
frame if anything was written. A burst that reads gets the cells one after the other and leaves
the chip as it was. -/
theorem memory_goes_round (s : SerialRadio G) (hidle : s.Idle) (command start : UInt8)
    (octets : List UInt8) :
    let r := s.transfer (command :: start :: octets)
    let place (i : Nat) : FrameIndex := .ofNat (start.toNat + i)
    (Access.ofByte command = .writeMemory →
      (∀ i : FrameIndex, r.2.chip.buffer.peek i =
        .ok (((octets.mapIdx fun k b => (place k, b)).reverse.lookup i).getD
          (s.chip.buffer.cell i))) ∧
      r.2.chip.buffer.received = (s.chip.buffer.received && octets.isEmpty) ∧
      r.2.chip = { s.chip with buffer := r.2.chip.buffer }) ∧
    (Access.ofByte command = .readMemory →
      r.1 = 0 :: 0 :: octets.mapIdx (fun k _ => s.chip.buffer.cell (place k)) ∧
      r.2.chip = s.chip) ∧
    r.2 = { s with transaction := r.2.transaction, chip := r.2.chip } := by
  intro r place
  have hr : r = _ := transfer_of_idle hidle (command :: start :: octets)
  refine ⟨fun hcommand => ?_, fun hcommand => ?_, ?_⟩
  · have hchip : r.2.chip = { s.chip with
        buffer := s.chip.buffer.uploadEach (FrameIndex.burst start.toNat octets) } := by
      rw [hr]
      exact s.transaction.exchangeAll_writeMemory_burst s.chip hcommand start octets
    rw [hchip]
    refine ⟨fun i => ?_, ?_, rfl⟩
    · rw [FrameBuffer.peek_eq_cell, FrameBuffer.cell_uploadEach]
      rfl
    · rw [FrameBuffer.received_uploadEach, FrameIndex.isEmpty_burst]
  · rw [hr]
    exact s.transaction.exchangeAll_readMemory_burst s.chip hcommand start octets
  · rw [hr]

/-- Three octets from the last cell on, and two of them read back. -/
theorem memory_goes_round_behind_last_cell :
    let config : Configuration := ⟨.at86rf231, Vector.replicate 8 0, none, 0⟩
    let s : SerialRadio Mixer := attach (.ofConfiguration config)
    let written := (s.transfer [0x40, 0xFF, 1, 2, 3]).2
    s.Idle ∧ Access.ofByte 0x40 = .writeMemory ∧ Access.ofByte 0x1F = .readMemory ∧
      written.chip.buffer.peek 127 = .ok 1 ∧ written.chip.buffer.peek 0 = .ok 2 ∧
      written.chip.buffer.peek 1 = .ok 3 ∧ written.chip.buffer.peek 2 = .ok 0 ∧
      (written.transfer [0x1F, 0x7F, 0, 0]).1 = [0, 0, 1, 2] := by
  intro config s written
  have hidle : s.Idle := idle_attach _
  have hidle' : written.Idle := ⟨rfl, rfl⟩
  obtain ⟨hcells, -⟩ := (memory_goes_round s hidle 0x40 0xFF [1, 2, 3]).1 rfl
  obtain ⟨houts, -⟩ := (memory_goes_round written hidle' 0x1F 0x7F [0, 0]).2.1 rfl
  exact ⟨hidle, rfl, rfl, hcells 127, hcells 0, hcells 1, hcells 2, houts.trans (by decide)⟩

end SerialRadio

end Transceiver
