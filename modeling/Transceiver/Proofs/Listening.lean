import Transceiver.Proofs.Hearing

/-!
# Octets heard at any time

The clock has no say in what a chip takes out of the octets it hears. `hear` is the reception of one
octet without a look at the clock, `listen` hears octets one after the other at any instants, and
`timeless` leaves out of a chip what its clock decides: the time, the timer and the signal strength.
By `timeless_listen` the rest of a chip that listens is as `hearMany` has it.
-/

namespace Transceiver

namespace RegisterFile

variable {f g : RegisterFile}

theorem set_comm {r s : Register} (f : RegisterFile) (v w : UInt8) (h : r ≠ s) :
    (f.set r v).set s w = (f.set s w).set r v :=
  congrArg RegisterFile.mk (Vector.set_comm v w (Fin.val_ne_of_ne h))

@[simp] theorem set_set (f : RegisterFile) (r : Register) (v w : UInt8) :
    (f.set r v).set r w = f.set r w := congrArg RegisterFile.mk (Vector.set_set v r.isLt)

theorem set_get_self (f : RegisterFile) (r : Register) : f.set r (f.get r) = f :=
  congrArg RegisterFile.mk (Vector.set_getElem_self r.isLt)

/-- The registers that reception writes of its own accord. -/
def written : List Register := [.phyRssi, .irqStatus, .tstRxLength]

def SameSettings (f g : RegisterFile) : Prop := ∀ r, r ∉ written → g.get r = f.get r

theorem SameSettings.trans {k : RegisterFile} (h : f.SameSettings g) (hk : g.SameSettings k) :
    f.SameSettings k := fun r hr => (hk r hr).trans (h r hr)

theorem SameSettings.symm (h : f.SameSettings g) : g.SameSettings f := fun r hr => (h r hr).symm

theorem sameSettings_set {r : Register} (hr : r ∈ written) (f : RegisterFile) (v : UInt8) :
    f.SameSettings (f.set r v) := fun _ hs => f.get_set_of_ne v fun he => hs (he ▸ hr)

namespace SameSettings

variable (h : f.SameSettings g)

include h

theorem autoFcs : g.autoFcs = f.autoFcs := by
  simp only [RegisterFile.autoFcs, h .trxCtrl1 (by decide)]

theorem recordMasked : g.recordMasked = f.recordMasked := by
  simp only [RegisterFile.recordMasked, h .trxCtrl1 (by decide)]

theorem unmasked (bit : UInt8) : g.unmasked bit = f.unmasked bit := by
  simp only [RegisterFile.unmasked, h .irqMask (by decide)]

theorem powerSetting : g.powerSetting = f.powerSetting := by
  simp only [RegisterFile.powerSetting, h .phyTxPwr (by decide)]

theorem channel : g.channel = f.channel := by
  simp only [RegisterFile.channel, h .phyCcCca (by decide)]

theorem isCoordinator : g.isCoordinator = f.isCoordinator := by
  simp only [RegisterFile.isCoordinator, h .csmaSeed1 (by decide)]

theorem ackDisabled : g.ackDisabled = f.ackDisabled := by
  simp only [RegisterFile.ackDisabled, h .csmaSeed1 (by decide)]

theorem ackPending : g.ackPending = f.ackPending := by
  simp only [RegisterFile.ackPending, h .csmaSeed1 (by decide)]

theorem getMany {n : Nat} {s : Register} (hs : ∀ i : Fin n, s.plus i.val ∉ written) :
    g.getMany n s = f.getMany n s := by
  apply Vector.ext
  intro i hi
  simp only [RegisterFile.getMany, Vector.getElem_ofFn]
  exact h _ (hs ⟨i, hi⟩)

end SameSettings

end RegisterFile

namespace Chip

variable {G : Type} (c : Chip G)

/-- The chip but for the time, the timer and the signal strength. -/
def timeless : Chip G :=
  { c with
    surroundings := { c.surroundings with now := ⟨0⟩ }
    registers := c.registers.set .phyRssi 0
    rssiTimer := .idle }

@[simp] theorem timeless_setTime (now : Instant) : (c.setTime now).timeless = c.timeless := rfl

/-- With time, only the timer and a register may change. -/
theorem advance_eq (now : Instant) : c.advance now = { c with
    registers := (c.advance now).registers
    rssiTimer := (c.advance now).rssiTimer } := by
  unfold advance
  simp only
  split
  · rfl
  · rfl

@[simp] theorem timeless_advance (now : Instant) : (c.advance now).timeless = c.timeless := by
  unfold advance
  obtain ⟨fired, timer⟩ := c.rssiTimer.poll now
  simp only
  split
  · simp [timeless, RegisterFile.setRssi, RegisterFile.modify]
  · rfl

/-! ### What the clock leaves alone -/

theorem localAddress_congr {d : Chip G} (h : c.registers.SameSettings d.registers) :
    d.localAddress = c.localAddress := by
  simp only [localAddress, h.isCoordinator, h.getMany (n := 2) (s := .panId) (by decide),
    h.getMany (n := 2) (s := .shortAddr) (by decide),
    h.getMany (n := 8) (s := .ieeeAddr) (by decide)]

theorem get_timeless {r : Register} (h : r ≠ .phyRssi) :
    c.timeless.registers.get r = c.registers.get r := c.registers.get_set_of_ne 0 h.symm

theorem sameSettings_timeless : c.registers.SameSettings c.timeless.registers :=
  RegisterFile.sameSettings_set (by decide) c.registers 0

theorem acknowledgement?_timeless : c.timeless.acknowledgement? = c.acknowledgement? := by
  simp only [acknowledgement?, c.sameSettings_timeless.ackDisabled,
    c.sameSettings_timeless.ackPending]
  rfl

theorem timeless_setRegister {r : Register} (v : UInt8) (h : r ≠ .phyRssi) :
    timeless { c with registers := c.registers.set r v } =
      { c.timeless with registers := c.timeless.registers.set r v } := by
  simp only [timeless, c.registers.set_comm v 0 h]

theorem timeless_latch (e : Event) : (c.latch e).timeless = c.timeless.latch e := by
  have hr : Register.irqStatus ≠ .phyRssi := by decide
  simp only [latch, RegisterFile.modify, c.timeless_setRegister _ hr, c.get_timeless hr]

theorem timeless_post (e : Event) : (c.post e).timeless = c.timeless.post e := by
  have hv : e.vector? c.timeless.interruptLine c.timeless.variant =
      e.vector? c.interruptLine c.variant := rfl
  unfold post
  rw [hv]
  cases e.vector? c.interruptLine c.variant with
  | some v => rfl
  | none => rfl

theorem timeless_raise (e : Event) : (c.raise e).timeless = c.timeless.raise e := by
  unfold raise
  rw [c.sameSettings_timeless.unmasked, c.sameSettings_timeless.recordMasked]
  split
  · rw [timeless_post, timeless_latch]
  · split
    · exact c.timeless_latch e
    · rfl

theorem timeless_endReception : c.endReception.timeless = c.timeless.endReception := by
  cases h : c.receiver with
  | none =>
    have ht : c.timeless.receiver = none := h
    simp only [endReception, h, ht]
  | some f =>
    simp only [endReception, h, timeless, RegisterFile.setRssi, RegisterFile.modify,
      RegisterFile.set_set, RegisterFile.get_set_self]
    rfl

theorem timeless_beginTransmission :
    c.beginTransmission.timeless = c.timeless.beginTransmission := by
  have hpower := c.sameSettings_timeless.powerSetting
  have hchannel := c.sameSettings_timeless.channel
  cases h : c.transmitter with
  | some f =>
    have ht : c.timeless.transmitter = some f := h
    simp only [beginTransmission, h, ht]
  | none =>
    have ht : c.timeless.transmitter = none := h
    have howed : c.timeless.owed = c.owed := rfl
    simp only [beginTransmission, h, ht, howed]
    cases c.owed.isNone with
    | true =>
      simp only [if_true, give, power, frequency, hpower, hchannel]
      rfl
    | false =>
      simp only [Bool.false_eq_true, if_false, give, power, frequency, hpower, hchannel]
      rfl

/-! ### Reception without the clock -/

theorem timeless_turnAround : c.turnAround.timeless = c.timeless.turnAround := by
  have howed : c.timeless.owed = c.owed := rfl
  have hvalid : c.timeless.lastValid = c.lastValid := rfl
  unfold turnAround
  rw [howed, hvalid]
  split
  · rw [timeless_beginTransmission, timeless_endReception]
  · rfl

theorem timeless_storeOctet (b : UInt8) :
    c.timeless.storeOctet b = ((c.storeOctet b).1, (c.storeOctet b).2.timeless) := by
  by_cases h : c.buffer.octets.length < FrameBuffer.capacity
  · have ht : c.timeless.buffer.octets.length < FrameBuffer.capacity := h
    rw [storeOctet_of_room h, storeOctet_of_room ht]
    rfl
  · have ht : ¬c.timeless.buffer.octets.length < FrameBuffer.capacity := h
    rw [storeOctet_of_full h, storeOctet_of_full ht]
    rfl

theorem timeless_startFrame (length : UInt8) :
    c.timeless.startFrame length =
      ((c.startFrame length).1, (c.startFrame length).2.timeless) := by
  have hr : Register.tstRxLength ≠ .phyRssi := by decide
  let opened : Chip G := { c with
    buffer := .forReception
    registers := c.registers.set .tstRxLength length }
  have h : { c.timeless with
      buffer := .forReception
      registers := c.timeless.registers.set .tstRxLength length } = opened.timeless := by
    simp only [opened, timeless, c.registers.set_comm length 0 hr]
  unfold startFrame
  rw [h, timeless_storeOctet]

theorem timeless_noteSequence (sequence : Option UInt8) :
    c.timeless.noteSequence sequence = (c.noteSequence sequence).timeless := by
  cases sequence <;> rfl

theorem timeless_filter (offset : Nat) :
    c.timeless.filter offset = ((c.filter offset).1, (c.filter offset).2.timeless) := by
  have hstate : c.timeless.state = c.state := rfl
  have hbuffer : c.timeless.buffer = c.buffer := rfl
  simp only [filter, hstate, hbuffer, c.localAddress_congr c.sameSettings_timeless,
    c.sameSettings_timeless.isCoordinator, timeless_noteSequence]
  generalize FrameFilter.check c.buffer.octets offset c.localAddress = verdict
  split
  · rfl
  · split
    · split
      · rw [timeless_raise]
      · rfl
    · rfl

theorem timeless_completeUnchecked :
    c.timeless.completeUnchecked = c.completeUnchecked.timeless :=
  (timeless_raise { c with bitErrors := .empty, lastValid := false } .rxEnd).symm

variable [RandomWords G]

theorem timeless_storeLinkQuality (valid : Bool) :
    c.timeless.storeLinkQuality valid = (c.storeLinkQuality valid).timeless := rfl

theorem timeless_completeChecked (valid : Bool) :
    c.timeless.completeChecked valid = (c.completeChecked valid).timeless := by
  unfold completeChecked
  simp only [timeless_storeLinkQuality, ← timeless_raise, acknowledgement?_timeless]
  cases valid <;> rfl

theorem timeless_apply (x : ReceiveEffect) :
    c.timeless.apply x = ((c.apply x).1, (c.apply x).2.timeless) := by
  cases x with
  | raise e => exact congrArg (Prod.mk true) (c.timeless_raise e).symm
  | frameStart length => exact c.timeless_startFrame length
  | push b => exact c.timeless_storeOctet b
  | filterCheck offset => exact c.timeless_filter offset
  | frameComplete valid =>
    cases valid with
    | none => exact congrArg (Prod.mk true) c.timeless_completeUnchecked
    | some valid => exact congrArg (Prod.mk true) (c.timeless_completeChecked valid)
  | endOfFrame carrier => exact congrArg (Prod.mk true) c.timeless_turnAround.symm
  | discarded => rfl

theorem timeless_carryOut (effects : List ReceiveEffect) :
    c.timeless.carryOut effects = (c.carryOut effects).timeless := by
  induction effects generalizing c with
  | nil => rfl
  | cons x r ih =>
    simp only [carryOut, timeless_apply]
    cases c.apply x with
    | mk goesOn d =>
      cases goesOn with
      | true => exact ih d
      | false => rfl

def hear (carrier : Bool) (b : UInt8) : Chip G :=
  match c.receiver with
  | none => c
  | some f =>
    let r := f.step ⟨b, carrier, c.registers.autoFcs⟩
    { c with receiver := some r.1 }.carryOut r.2.effects

def hearMany (c : Chip G) (octets : List UInt8) : Chip G :=
  octets.foldl (fun c b => c.hear true b) c

def listen (c : Chip G) (heard : List (Instant × UInt8)) : Chip G :=
  c.run (heard.flatMap fun x => [.setTime x.1, .receive true x.2])

theorem timeless_hear (carrier : Bool) (b : UInt8) :
    c.timeless.hear carrier b = (c.hear carrier b).timeless := by
  have hr : c.timeless.receiver = c.receiver := rfl
  unfold hear
  rw [hr, c.sameSettings_timeless.autoFcs]
  cases c.receiver with
  | none => rfl
  | some f =>
    let r := f.step ⟨b, carrier, c.registers.autoFcs⟩
    exact timeless_carryOut { c with receiver := some r.1 } r.2.effects

theorem snd_receive (carrier : Bool) (b : UInt8) :
    (c.receive carrier b).2 = (c.advance c.surroundings.now).hear carrier b := by
  unfold receive hear
  simp only
  cases (c.advance c.surroundings.now).receiver with
  | none => rfl
  | some f => rfl

theorem timeless_receive (now : Instant) (carrier : Bool) (b : UInt8) :
    ((c.setTime now).receive carrier b).2.timeless = c.timeless.hear carrier b := by
  rw [snd_receive, ← timeless_hear, timeless_advance, timeless_setTime]

/-- The clock has no say in what becomes of the octets. -/
theorem timeless_listen (heard : List (Instant × UInt8)) :
    (c.listen heard).timeless = c.timeless.hearMany (heard.map Prod.snd) := by
  induction heard generalizing c with
  | nil => rfl
  | cons x r ih =>
    have h := ih ((c.setTime x.1).receive true x.2).2
    rw [timeless_receive] at h
    exact h

end Chip

end Transceiver
