import Transceiver.Proofs.ReceivedLength
import Transceiver.Radio

/-!
# Accesses over the bus

What the accesses of the node come to, for each of the two ways in which the chip can be attached. A
serial radio at rest does in one transaction what the chip does on its own, and is at rest again.
All that an access leaves behind outside the chip is the memory address of the serial bus.
-/

namespace Transceiver

variable {G : Type}

namespace Chip

def pushAll (c : Chip G) (image : List UInt8) : Chip G :=
  image.foldl (fun c b => (c.pushFrame b).2) c

variable {c : Chip G}

theorem LengthShown.pushFrame (h : c.LengthShown) (b : UInt8) : (c.pushFrame b).2.LengthShown := by
  by_cases hroom : c.buffer.octets.length < FrameBuffer.capacity
  · simp only [Chip.pushFrame, FrameBuffer.push, if_pos hroom]
    exact h.append b
  · simp only [Chip.pushFrame, FrameBuffer.push, if_neg hroom]
    exact h

theorem LengthShown.pushAll (h : c.LengthShown) (image : List UInt8) :
    (c.pushAll image).LengthShown := by
  induction image generalizing c with
  | nil => exact h
  | cons b r ih => exact ih (h.pushFrame b)

end Chip

namespace Transaction

def exchangeAll (t : Transaction) (c : Chip G) : List UInt8 → List UInt8 × Transaction × Chip G
  | [] => ([], t, c)
  | b :: r =>
    let (out, t, c) := t.exchange c b
    let (outs, t, c) := t.exchangeAll c r
    (out :: outs, t, c)

variable (t : Transaction) (c : Chip G)

theorem exchangeAll_readRegister (r : Register) :
    t.restart.exchangeAll c [(Access.readRegister r).toByte, 0] =
      ([0, (c.readRegister r).1], { t with stage := .later (.readRegister r) },
        (c.readRegister r).2) := by
  simp only [exchangeAll, exchange, restart, Access.ofByte_toByte, exchangeFirst]

theorem exchangeAll_writeRegister (r : Register) (v : UInt8) :
    t.restart.exchangeAll c [(Access.writeRegister r).toByte, v] =
      ([0, 0], { t with stage := .later (.writeRegister r) }, c.writeRegister r v) := by
  simp only [exchangeAll, exchange, restart, Access.ofByte_toByte, exchangeFirst]

theorem exchangeAll_readMemory (index : UInt8) :
    t.restart.exchangeAll c [Access.readMemory.toByte, index, 0] =
      ([0, 0, c.buffer.octets.getD (FrameIndex.ofByte index) 0],
        ⟨.later .readMemory, (FrameIndex.ofByte index).next⟩, c) := by
  simp only [exchangeAll, exchange, restart, Access.ofByte_toByte, exchangeFirst, exchangeLater,
    moveOn]

theorem exchangeAll_writeMemory (index v : UInt8) :
    t.restart.exchangeAll c [Access.writeMemory.toByte, index, v] =
      ([0, 0, 0], ⟨.later .writeMemory, (FrameIndex.ofByte index).next⟩,
        (c.uploadFrame (FrameIndex.ofByte index) v).2) := by
  simp only [exchangeAll, exchange, restart, Access.ofByte_toByte, exchangeFirst, exchangeLater,
    moveOn]

theorem exchangeAll_later_writeFrame (h : t.stage = .later .writeFrame) (image : List UInt8) :
    (t.exchangeAll c image).2 = (t, c.pushAll image) := by
  induction image generalizing c with
  | nil => rfl
  | cons b r ih =>
    simp only [exchangeAll, exchange, h, exchangeLater]
    exact ih _

theorem exchangeAll_writeFrame (image : List UInt8) :
    (t.restart.exchangeAll c (Access.writeFrame.toByte :: image)).2.2 = c.pushAll image ∧
      (t.restart.exchangeAll c (Access.writeFrame.toByte :: image)).2.1.address = t.address := by
  cases image with
  | nil => exact ⟨rfl, rfl⟩
  | cons b r =>
    have hr := exchangeAll_later_writeFrame ⟨.later .writeFrame, t.address⟩ (c.pushFrame b).2 rfl r
    simp only [exchangeAll, exchange, restart, Access.ofByte_toByte, exchangeFirst]
    exact ⟨congrArg Prod.snd hr, congrArg (·.1.address) hr⟩

end Transaction

namespace SerialRadio

variable {s : SerialRadio G}

structure Idle (s : SerialRadio G) : Prop where
  selectPin : s.selectPin = true
  resetPin : s.resetPin = true

theorem idle_attach (c : Chip G) : (attach c).Idle := ⟨rfl, rfl⟩

theorem exchangeAll_of_selected (hs : s.selectPin = false) (hr : s.resetPin = true)
    (octets : List UInt8) : s.exchangeAll octets =
      let r := s.transaction.exchangeAll s.chip octets
      (r.1, { s with transaction := r.2.1, chip := r.2.2 }) := by
  induction octets generalizing s with
  | nil => rfl
  | cons b r ih =>
    let d : SerialRadio G := { s with
      transaction := (s.transaction.exchange s.chip b).2.1
      chip := (s.transaction.exchange s.chip b).2.2 }
    have hb : s.exchange b = ((s.transaction.exchange s.chip b).1, d) := by
      simp [exchange, hs, hr, d]
    have hr : d.exchangeAll r = _ := ih (s := d) hs hr
    simp only [exchangeAll, Transaction.exchangeAll, hb, hr, d]

/-- A transaction of a radio at rest is one of its chip. -/
theorem transfer_of_idle (h : s.Idle) (octets : List UInt8) : s.transfer octets =
    let r := s.transaction.restart.exchangeAll s.chip octets
    (r.1, { s with transaction := r.2.1.restart, chip := r.2.2 }) := by
  let d : SerialRadio G := { s with selectPin := false, transaction := s.transaction.restart }
  have hselect : s.setSelect false = d := by
    simp [setSelect, h.selectPin, d]
  have hexchange := exchangeAll_of_selected (s := d) rfl h.resetPin octets
  have hs := h.selectPin
  simp only [transfer, hselect, hexchange, d]
  cases s
  cases hs
  rfl

theorem readRegister_of_idle (h : s.Idle) (r : Register) : RegisterBus.readRegister s r =
    ((s.chip.readRegister r).1,
      { s with transaction := s.transaction.restart, chip := (s.chip.readRegister r).2 }) := by
  let outs := s.transfer [(Access.readRegister r).toByte, 0]
  change (outs.1.getD 1 0, outs.2) = _
  simp only [outs, transfer_of_idle h, Transaction.exchangeAll_readRegister]
  rfl

theorem writeRegister_of_idle (h : s.Idle) (r : Register) (v : UInt8) :
    RegisterBus.writeRegister s r v =
      { s with transaction := s.transaction.restart, chip := s.chip.writeRegister r v } := by
  change (s.transfer _).2 = _
  rw [transfer_of_idle h, Transaction.exchangeAll_writeRegister]
  rfl

theorem readFrame_of_idle (h : s.Idle) (index : UInt8) : RegisterBus.readFrame s index =
    (s.chip.buffer.octets.getD (FrameIndex.ofByte index) 0,
      { s with transaction := ⟨.command, (FrameIndex.ofByte index).next⟩ }) := by
  let outs := s.transfer [Access.readMemory.toByte, index, 0]
  change (outs.1.getD 2 0, outs.2) = _
  simp only [outs, transfer_of_idle h, Transaction.exchangeAll_readMemory]
  rfl

theorem writeFrame_of_idle (h : s.Idle) (index v : UInt8) :
    RegisterBus.writeFrame s index v =
      { s with
        transaction := ⟨.command, (FrameIndex.ofByte index).next⟩
        chip := (s.chip.uploadFrame (FrameIndex.ofByte index) v).2 } := by
  change (s.transfer _).2 = _
  rw [transfer_of_idle h, Transaction.exchangeAll_writeMemory]
  rfl

theorem upload_of_idle (h : s.Idle) (image : List UInt8) : RegisterBus.upload s image =
    { s with transaction := s.transaction.restart, chip := s.chip.pushAll image } := by
  change (s.transfer _).2 = _
  rw [transfer_of_idle h]
  obtain ⟨hchip, haddress⟩ := s.transaction.exchangeAll_writeFrame s.chip image
  simp only [Transaction.restart] at hchip haddress ⊢
  rw [hchip, haddress]

theorem pulseReset_of_idle (h : s.Idle) :
    RegisterBus.pulseReset s = { s with chip := s.chip.reset } := by
  have hr := h.resetPin
  cases s
  cases hr
  rfl

end SerialRadio

namespace MappedRadio

variable (m : MappedRadio G)

theorem frameOctet_of_received (h : m.chip.buffer.received = true) {index : FrameIndex}
    (hi : 1 + index.val < 128) :
    m.frameOctet index = m.chip.buffer.octets.getD (1 + index.val) 0 := by
  unfold frameOctet
  simp only [h, if_true, FrameBuffer.peek_of_lt hi]
  rfl

theorem frameOctet_of_not_received (h : m.chip.buffer.received = false) (index : FrameIndex) :
    m.frameOctet index = m.chip.buffer.octets.getD index.val 0 := by
  unfold frameOctet
  simp only [h, Bool.false_eq_true, if_false, Nat.zero_add, FrameBuffer.peek_of_lt index.isLt]
  rfl

theorem read_register (r : Register) : m.read r.address =
    (.ok (m.chip.readRegister r).1, { m with chip := (m.chip.readRegister r).2 }) := by
  simp only [read, Cell.ofAddress?_register, readCell]

theorem write_register (r : Register) (v : UInt8) :
    m.write r.address v = (.ok (), { m with chip := m.chip.writeRegister r v }) := by
  simp only [write, Cell.ofAddress?_register, writeCell]

theorem read_frame (i : FrameIndex) : m.read i.address = (.ok (m.frameOctet i), m) := by
  simp only [read, Cell.ofAddress?_frame, readCell]

theorem write_frame (i : FrameIndex) (v : UInt8) :
    m.write i.address v = (.ok (), { m with chip := (m.chip.uploadFrame i v).2 }) := by
  simp only [write, Cell.ofAddress?_frame, writeCell]

theorem load_frame (i : FrameIndex) : m.load i.address = (m.frameOctet i, m) := by
  rw [load, read_frame]
  rfl

theorem load_tstRxLength :
    m.load Register.tstRxLength.address = (m.chip.registers.get .tstRxLength, m) := by
  rw [load, read_register]
  rfl

theorem readRegister_eq (r : Register) : RegisterBus.readRegister m r =
    ((m.chip.readRegister r).1, { m with chip := (m.chip.readRegister r).2 }) := by
  change m.load r.address = _
  rw [load, read_register]
  rfl

theorem writeRegister_eq (r : Register) (v : UInt8) :
    RegisterBus.writeRegister m r v = { m with chip := m.chip.writeRegister r v } := by
  change (m.write r.address v).2 = _
  rw [write_register]

theorem writeFrame_eq (index v : UInt8) : RegisterBus.writeFrame m index v =
    { m with chip := (m.chip.uploadFrame (FrameIndex.ofByte index) v).2 } := by
  change (m.write (FrameIndex.ofByte index).address v).2 = _
  rw [write_frame]

/-- Each control line is driven with the other one left as it is. -/
theorem setSleep_eq (level : Bool) : RegisterBus.setSleep m level = m.setLines false level := by
  change m.writeLines (if level then m.lines ||| 0x02 else m.lines &&& ~~~0x02) = _
  unfold writeLines lines
  cases m.sleepLine <;> cases level <;> rfl

theorem setReset_eq (asserted : Bool) : RegisterBus.setReset m asserted =
    if asserted then { m with chip := m.chip.reset } else m := by
  have hlines : m.writeLines (m.lines ||| 0x01) = m.setLines true m.sleepLine := by
    unfold writeLines lines
    cases m.sleepLine <;> rfl
  change (if asserted then m.writeLines (m.lines ||| 0x01) else m) = _
  rw [hlines]
  simp only [setLines, if_true]

/-- With the register in place of the first octet, the buffer reads as it is. -/
theorem readFrame_eq (h : m.chip.LengthShown) (index : UInt8) : RegisterBus.readFrame m index =
    (m.chip.buffer.octets.getD (FrameIndex.ofByte index) 0, m) := by
  change m.readFrame index = _
  unfold readFrame
  simp only
  generalize FrameIndex.ofByte index = i
  by_cases hr : m.chip.buffer.received = true
  · rw [if_pos hr]
    by_cases hi : i.val = 0
    · have hhead : m.chip.buffer.octets.getD 0 0 = m.chip.registers.get .tstRxLength := by
        rw [List.getD_eq_getElem?_getD, ← List.head?_eq_getElem?, h hr]
        rfl
      rw [if_pos hi, load_tstRxLength, hi, hhead]
    · have hlt : i.val - 1 < 128 := by omega
      have hval : 1 + (FrameIndex.ofNat (i.val - 1)).val = i.val := by
        rw [FrameIndex.val_ofNat_of_lt hlt]
        omega
      have hnext : 1 + (FrameIndex.ofNat (i.val - 1)).val < 128 := by
        rw [hval]
        exact i.isLt
      rw [if_neg hi, load_frame, frameOctet_of_received m hr hnext, hval]
  · rw [if_neg hr, load_frame, frameOctet_of_not_received m (eq_false_of_ne_true hr)]

theorem writeFrames_eq_pushAll {m : MappedRadio G} {image : List UInt8}
    (hr : m.chip.buffer.received = false)
    (hl : m.chip.buffer.octets.length + image.length ≤ 128) :
    m.writeFrames (.ofNat m.chip.buffer.octets.length) image =
      { m with chip := m.chip.pushAll image } := by
  induction image generalizing m with
  | nil => rfl
  | cons v r ih =>
    rw [List.length_cons] at hl
    have hlt : m.chip.buffer.octets.length < 128 := by omega
    have hcell : (m.write (FrameIndex.ofNat m.chip.buffer.octets.length).address v).2 =
        { m with chip := (m.chip.pushFrame v).2 } := by
      simp only [write_frame, Chip.uploadFrame, FrameIndex.val_ofNat_of_lt hlt, Chip.pushFrame,
        FrameBuffer.upload_length hr hlt]
    have hpush : (m.chip.pushFrame v).2.buffer =
        { m.chip.buffer with octets := m.chip.buffer.octets ++ [v] } := by
      simp only [Chip.pushFrame, FrameBuffer.push_of_room hlt]
    have hlength : (m.chip.pushFrame v).2.buffer.octets.length =
        m.chip.buffer.octets.length + 1 := by
      rw [hpush]
      simp
    have hrest := ih (m := { m with chip := (m.chip.pushFrame v).2 })
      (by rw [hpush]; exact hr) (by rw [hlength]; omega)
    simp only [hlength] at hrest
    rw [writeFrames, hcell, FrameIndex.next_ofNat, hrest]
    rfl

/-- A frame loaded into an empty buffer cell by cell. -/
theorem upload_of_empty (hr : m.chip.buffer.received = false) (he : m.chip.buffer.octets = [])
    {image : List UInt8} (hl : image.length ≤ 128) :
    RegisterBus.upload m image = { m with chip := m.chip.pushAll image } := by
  have hall : m.chip.buffer.octets.length + image.length ≤ 128 := by
    rw [he, List.length_nil, Nat.zero_add]
    exact hl
  have h := writeFrames_eq_pushAll hr hall
  rw [he] at h
  exact h

theorem pulseReset_eq : RegisterBus.pulseReset m = { m with chip := m.chip.reset } := by
  rw [RegisterBus.pulseReset, setReset_eq, setReset_eq]
  rfl

end MappedRadio

end Transceiver
