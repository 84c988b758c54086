import Transceiver.Proofs.OctetStream

/-!
# The meter of signal strength

The signal strength of a chip depends on few things: whether the receiver is on, the timer until the
strength has settled, and the reading in the low bits of its register. `Meter` is these three with
the ways in which they change. By `meter_after` an operation looks at the clock or changes the
reading, as `metered` has it, and may then switch the receiver; and by `Reachable.meter_atRest` the
timer rests whenever the receiver is off.
-/

namespace Transceiver

structure Meter where
  isOn : Bool
  timer : Timer
  /-- The low five bits of the strength register. -/
  reading : UInt8
  deriving DecidableEq

def Operation.strength? (v : UInt8) : Operation → Option UInt8
  | .writeRegister r w => if r = .phyRssi then some w else none
  | .setRssi dbm => some ((v &&& 0xE0) ||| rssiOfDbm dbm)
  | .reset => some Register.phyRssi.resetValue
  | _ => none

namespace Meter

variable (m : Meter)

def switchOn (now : Instant) : Meter :=
  if m.isOn then m else { m with isOn := true, timer := .arm (now.after Chip.settlingTime) }

def switchOff : Meter := if m.isOn then ⟨false, .idle, 0⟩ else m

def switch (now : Instant) : FramerAction → Meter
  | .keep => m
  | .start => m.switchOn now
  | .stop => m.switchOff

def look (now : Instant) : Meter :=
  let (fired, timer) := m.timer.poll now
  { m with timer, reading := if fired && m.isOn then settledRssi else m.reading }

def AtRest : Prop := m.isOn = false → m.timer = .idle

variable {m}

/-- The reading does not matter. -/
theorem AtRest.congr {m' : Meter} (h : m.AtRest) (hon : m'.isOn = m.isOn)
    (htimer : m'.timer = m.timer) : m'.AtRest := by
  unfold AtRest
  rw [hon, htimer]
  exact h

theorem AtRest.switchOn (h : m.AtRest) (now : Instant) : (m.switchOn now).AtRest := by
  unfold Meter.switchOn
  split
  · exact h
  · exact nofun

theorem AtRest.switchOff (h : m.AtRest) : m.switchOff.AtRest := by
  unfold Meter.switchOff
  split
  · exact fun _ => rfl
  · exact h

theorem AtRest.look (h : m.AtRest) (now : Instant) : (m.look now).AtRest := by
  intro hoff
  have htimer := h hoff
  simp only [Meter.look, htimer, Timer.poll_idle]

theorem switchOff_switchOff : m.switchOff.switchOff = m.switchOff := by
  unfold switchOff
  cases hm : m.isOn <;> simp [hm]

end Meter

namespace Chip

variable {G : Type} (c : Chip G)

def meter : Meter where
  isOn := c.isReceiving
  timer := c.rssiTimer
  reading := c.registers.get .phyRssi &&& 0x1F

theorem meter_setRegister {r : Register} (v : UInt8) (h : r ≠ .phyRssi) :
    meter { c with registers := c.registers.set r v } = c.meter := by
  simp only [meter, c.registers.get_set_of_ne v h]
  rfl

theorem meter_setStrength (v : UInt8) :
    meter { c with registers := c.registers.set .phyRssi v } =
      { c.meter with reading := v &&& 0x1F } := by
  simp only [meter, RegisterFile.get_set_self]
  rfl

/-- A reading that fits is read as it was put into the register. -/
theorem reading_of_parts {rssi : UInt8} (h : rssi &&& 0x1F = rssi) (v : UInt8) :
    ((v &&& 0xE0) ||| rssi) &&& 0x1F = rssi := by
  have hupper : (0xE0 : UInt8) &&& 0x1F = 0 := rfl
  rw [octet_and_or_distrib, UInt8.and_assoc, hupper, UInt8.and_zero, UInt8.zero_or, h]

theorem meter_setRssi {rssi : UInt8} (h : rssi &&& 0x1F = rssi) :
    meter { c with registers := c.registers.setRssi rssi } = { c.meter with reading := rssi } := by
  refine (c.meter_setStrength _).trans ?_
  rw [reading_of_parts h]

theorem meter_enter (s : OperatingState) : (c.enter s).meter = c.meter :=
  c.meter_setRegister s.code (by decide)

theorem meter_raise (e : Event) : (c.raise e).meter = c.meter := by
  have hregister := c.get_raise e (r := .phyRssi) (by decide)
  rw [raise_eq]
  simp only [meter, hregister]
  rfl

def lookedAt? (c : Chip G) : Operation → Option Instant
  | .advance now => some now
  | .receive _ _ => some c.surroundings.now
  | _ => none

/-- The meter when an operation has looked at the clock and put a reading of its own into the
register, if it does, and before it switches the receiver. -/
def metered (c : Chip G) (op : Operation) : Meter :=
  let looked := (c.lookedAt? op).elim c.meter c.meter.look
  { looked with
    reading := (op.strength? (c.registers.get .phyRssi)).elim looked.reading (· &&& 0x1F) }

/-! ### Sessions and control -/

theorem meter_beginTransmission : c.beginTransmission.meter = c.meter := by
  unfold beginTransmission
  cases c.transmitter with
  | some f => rfl
  | none => cases c.owed.isNone <;> rfl

theorem meter_abandonTransmission : c.abandonTransmission.meter = c.meter := by
  unfold abandonTransmission endTransmission
  simp only
  split
  · rfl
  · rfl

theorem meter_beginReception : c.beginReception.meter = c.meter.switchOn c.surroundings.now := by
  cases hr : c.receiver with
  | some f =>
    have hon : c.meter.isOn = true := congrArg Option.isSome hr
    simp only [beginReception, hr, Meter.switchOn, hon, if_true]
  | none =>
    have hoff : c.meter.isOn = false := congrArg Option.isSome hr
    simp only [beginReception, hr, Meter.switchOn, hoff]
    rfl

theorem meter_endReception : c.endReception.meter = c.meter.switchOff := by
  cases hr : c.receiver with
  | some f =>
    have hon : c.meter.isOn = true := congrArg Option.isSome hr
    let silent : Chip G := { c.give .endReception with receiver := none, rssiTimer := .idle }
    simp only [endReception, hr, Meter.switchOff, hon, if_true]
    exact silent.meter_setRssi (by decide)
  | none =>
    have hoff : c.meter.isOn = false := congrArg Option.isSome hr
    simp [endReception, hr, Meter.switchOff, hoff]

theorem meter_abandonReception : c.abandonReception.meter = c.meter.switchOff :=
  meter_endReception { c with owed := none }

theorem now_abandonTransmission : c.abandonTransmission.surroundings.now = c.surroundings.now := by
  unfold abandonTransmission endTransmission
  simp only
  split
  · rfl
  · rfl

theorem meter_steer (t : Transition) (h : t.receiver = .start → t.transmitter = .stop) :
    (c.steer t).meter = c.meter.switch c.surroundings.now t.receiver := by
  unfold steer
  cases ht : t.transmitter <;> cases hr : t.receiver <;>
    simp_all [Meter.switch, meter_abandonTransmission, meter_abandonReception,
      meter_beginTransmission, meter_beginReception, now_abandonTransmission]

theorem meter_execute (command : Command) : (c.execute command).meter =
    c.meter.switch c.surroundings.now (command.transition c.state).receiver := by
  have houtcome (b : Bool) :
      (if b then { c with registers := c.registers.setOutcome 0xE0 } else c).meter = c.meter := by
    cases b with
    | true => exact c.meter_setRegister _ (by decide)
    | false => rfl
  have hnow (b : Bool) : (if b then { c with registers := c.registers.setOutcome 0xE0 } else
      c).surroundings.now = c.surroundings.now := by
    cases b <;> rfl
  unfold execute
  simp only
  rw [meter_steer _ _ (by cases command <;> simp [Command.transition]), meter_enter, houtcome]
  exact congrArg (c.meter.switch · _) (hnow _)

theorem meter_writeRegister {r : Register} (v : UInt8) (h : r ≠ .phyRssi) :
    (c.writeRegister r v).meter = if r = .trxState then
      (c.command (v &&& 0x1F)).meter else c.meter := by
  unfold writeRegister
  by_cases hs : r = .trxStatus
  · have hr : r ≠ .trxState := by rw [hs]; decide
    rw [if_pos hs, if_neg hr]
  · rw [if_neg hs]
    by_cases hr : r = .trxState
    · simp only [if_pos hr, command, meter_execute, c.meter_setRegister v h]
    · simp only [if_neg hr, c.meter_setRegister v h]

theorem meter_writeStrength (v : UInt8) :
    (c.writeRegister .phyRssi v).meter = { c.meter with reading := v &&& 0x1F } := by
  have hstatus : ¬Register.phyRssi = .trxStatus := by decide
  have hstate : ¬Register.phyRssi = .trxState := by decide
  simp only [writeRegister, if_neg hstatus, if_neg hstate]
  exact c.meter_setStrength v

theorem meter_readRegister (r : Register) : (c.readRegister r).2.meter = c.meter := by
  unfold readRegister RegisterFile.read
  by_cases hr : r = .irqStatus
  · simp only [if_pos hr]
    exact c.meter_setRegister 0 (by rw [hr]; decide)
  · simp only [if_neg hr]

theorem meter_sleepPin (level : Bool) : (c.sleepPin level).meter = c.meter := by
  unfold sleepPin
  split
  · exact meter_enter (c.give _) _
  · exact c.meter_enter _
  · rfl

theorem meter_reset : c.reset.meter = { c.meter with reading := 0 }.switchOff := by
  let cleared : Chip G := { c with
    registers := .reset c.ieee
    owed := none
    dataWaiting := false
    lastValid := false }
  have hreading : (RegisterFile.reset c.ieee).get .phyRssi &&& 0x1F = 0 := by
    rw [RegisterFile.get_reset c.ieee .phyRssi (by decide)]
    decide
  have hcleared : cleared.meter = { c.meter with reading := 0 } := by
    simp only [cleared, meter, isReceiving, hreading]
  rw [← hcleared, ← cleared.meter_abandonTransmission, ← meter_abandonReception]
  exact meter_enter { cleared.abandonTransmission.abandonReception with buffer := .empty } _

theorem meter_advance (now : Instant) : (c.advance now).meter = c.meter.look now := by
  have htimer : c.meter.timer = c.rssiTimer := rfl
  have hon : c.meter.isOn = c.isReceiving := rfl
  unfold advance Meter.look
  rw [htimer, hon]
  obtain ⟨fired, timer⟩ := c.rssiTimer.poll now
  have hreceiving : isReceiving { c with rssiTimer := timer } = c.isReceiving := rfl
  simp only [hreceiving]
  by_cases h : (fired && c.isReceiving) = true
  · simp only [h, if_true]
    exact meter_setRssi { c with rssiTimer := timer } (by decide)
  · simp only [h]
    rfl

/-! ### Frames -/

theorem meter_finishTransmission : c.finishTransmission.meter = c.meter := by
  unfold finishTransmission
  simp only
  rw [meter_abandonTransmission, meter_raise]
  exact (meter_setRegister _ _ (by decide)).trans (c.meter_enter _)

theorem meter_afterOctet (out : TransmitOutput) : (c.afterOctet out).meter = c.meter := by
  refine afterOctet_induction (P := fun d => d.meter = c.meter) out rfl ?_ ?_ ?_ ?_
  · exact fun d hd => hd
  · exact fun d hd => hd
  · exact fun d hd => (d.meter_raise .underrun).trans hd
  · exact fun d hd => d.meter_finishTransmission.trans hd

theorem meter_transmit : c.transmit.2.meter = c.meter := by
  unfold transmit
  cases c.transmitter with
  | none => rfl
  | some f => exact meter_afterOctet { c with transmitter := some _ } _

theorem meter_storeOctet (b : UInt8) : (c.storeOctet b).2.meter = c.meter := by
  unfold storeOctet
  split
  · rfl
  · simp [meter, isReceiving]

theorem meter_startFrame (length : UInt8) : (c.startFrame length).2.meter = c.meter := by
  unfold startFrame
  rw [meter_storeOctet]
  exact c.meter_setRegister length (by decide)

theorem meter_filter (offset : Nat) : (c.filter offset).2.meter = c.meter := by
  refine filter_induction (P := fun d => d.meter = c.meter) offset rfl ?_ ?_ ?_
  · rintro d (_ | n) hd <;> exact hd
  · exact fun d hd => (d.meter_raise .addressMatch).trans hd
  · intro d hd
    rw [← hd]
    simp [meter, isReceiving]

variable {c} [RandomWords G]

theorem meter_completeChecked (c : Chip G) (valid : Bool) :
    (c.completeChecked valid).meter = c.meter := by
  have hraised := (c.storeLinkQuality valid).meter_raise .rxEnd
  unfold completeChecked
  simp only
  split
  · exact hraised
  · exact hraised

/-- Only a chip that turns around to acknowledge switches the meter off. -/
theorem meter_apply (c : Chip G) (x : ReceiveEffect) :
    (c.apply x).2.meter = c.meter ∨ (c.apply x).2.meter = c.meter.switchOff := by
  cases x with
  | raise e => exact .inl (c.meter_raise e)
  | frameStart length => exact .inl (c.meter_startFrame length)
  | push b => exact .inl (c.meter_storeOctet b)
  | filterCheck offset => exact .inl (c.meter_filter offset)
  | frameComplete valid =>
    cases valid with
    | none => exact .inl (meter_raise _ .rxEnd)
    | some valid => exact .inl (c.meter_completeChecked valid)
  | endOfFrame carrier =>
    change c.turnAround.meter = _ ∨ c.turnAround.meter = _
    unfold turnAround
    split
    · rw [meter_beginTransmission, meter_endReception]
      exact .inr rfl
    · exact .inl rfl
  | discarded => exact .inl rfl

theorem meter_carryOut (c : Chip G) (effects : List ReceiveEffect) :
    (c.carryOut effects).meter = c.meter ∨ (c.carryOut effects).meter = c.meter.switchOff := by
  refine carryOut_induction
    (P := fun d => d.meter = c.meter ∨ d.meter = c.meter.switchOff) (.inl rfl) fun x _ d hd => ?_
  have hx := d.meter_apply x
  rcases hd with hd | hd
  · rwa [hd] at hx
  · rw [hd, Meter.switchOff_switchOff, or_self] at hx
    exact .inr hx

theorem meter_receive (c : Chip G) (carrier : Bool) (b : UInt8) :
    let m := c.meter.look c.surroundings.now
    (c.receive carrier b).2.meter = m ∨ (c.receive carrier b).2.meter = m.switchOff := by
  intro m
  have hnow : (c.advance c.surroundings.now).meter = m := c.meter_advance c.surroundings.now
  cases hf : c.receiver with
  | none =>
    rw [receive_of_none hf]
    exact .inl hnow
  | some f =>
    let stepped (f : ReceiveFramer) : Chip G :=
      { c.advance c.surroundings.now with receiver := some f }
    have hon : (c.advance c.surroundings.now).isReceiving = true := by
      have hreceiver := congrArg Activity.receiver (c.activity_advance c.surroundings.now)
      exact congrArg Option.isSome (hreceiver.trans hf)
    have hstepped (f : ReceiveFramer) : (stepped f).meter = m := by
      rw [← hnow]
      simp only [meter, hon]
      rfl
    rw [receive_of_some hf, ← hstepped]
    exact meter_carryOut _ _

/-! ### Every operation -/

theorem meter_after (c : Chip G) (op : Operation) :
    (c.after op).meter = c.metered op ∨ (c.after op).meter = (c.metered op).switchOff ∨
      (c.after op).meter = (c.metered op).switchOn c.surroundings.now := by
  have hcommand (code : UInt8) : (c.command code).meter = c.meter ∨
      (c.command code).meter = c.meter.switchOff ∨
      (c.command code).meter = c.meter.switchOn c.surroundings.now := by
    rw [command, meter_execute]
    cases (((Command.ofCode? code).getD .nop).transition c.state).receiver with
    | keep => exact .inl rfl
    | stop => exact .inr (.inl rfl)
    | start => exact .inr (.inr rfl)
  cases op with
  | writeRegister r v =>
    by_cases hr : r = .phyRssi
    · subst hr
      exact .inl (c.meter_writeStrength v)
    · have hmetered : c.metered (.writeRegister r v) = c.meter := by
        simp [metered, Operation.strength?, lookedAt?, hr]
      have hwritten : (c.after (.writeRegister r v)).meter = _ := c.meter_writeRegister v hr
      rw [hmetered, hwritten]
      split
      · exact hcommand _
      · exact .inl rfl
  | command code => exact hcommand code
  | readRegister r => exact .inl (c.meter_readRegister r)
  | sleepPin level => exact .inl (c.meter_sleepPin level)
  | reset => exact .inr (.inl c.meter_reset)
  | transmit => exact .inl c.meter_transmit
  | receive carrier b => exact (c.meter_receive carrier b).imp_right .inl
  | advance now => exact .inl (c.meter_advance now)
  | setRssi dbm => exact .inl (c.meter_setStrength _)
  | setDataWaiting | pushFrame | popFrame | uploadFrame | pokeFrame | clearFrame | prepareFrame
  | recordBitErrors | takePacketErrorRate | setTime => exact .inl rfl

theorem atRest_after (h : c.meter.AtRest) (op : Operation) : (c.after op).meter.AtRest := by
  have hlooked : ((c.lookedAt? op).elim c.meter c.meter.look).AtRest := by
    cases c.lookedAt? op with
    | none => exact h
    | some now => exact h.look now
  have hmetered : (c.metered op).AtRest := hlooked.congr rfl rfl
  rcases c.meter_after op with hm | hm | hm <;> rw [hm]
  · exact hmetered
  · exact hmetered.switchOff
  · exact hmetered.switchOn _

theorem Reachable.meter_atRest (h : Reachable c) : c.meter.AtRest :=
  h.induction (P := fun d => d.meter.AtRest) (fun _ _ _ _ => rfl) fun _ op hd => atRest_after hd op

end Chip

end Transceiver
