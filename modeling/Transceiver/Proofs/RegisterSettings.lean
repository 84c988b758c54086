import Transceiver.Proofs.FrameAnnouncement

/-!
# Settings of the node

In a few bits of its registers the radio shows what it is doing; all others are settings, which are
the node's. The settings of a chip are these bits, together with how the chip is wired and the
address it was configured with. Whatever the radio does leaves them alone but for the length of a
frame that begins: `settings_after`.
-/

namespace Transceiver

namespace Register

/-- The bits of a register that the radio leaves to the node. -/
def settingBits (r : Register) : UInt8 :=
  if r = .trxStatus ∨ r = .irqStatus then 0
  else if r = .trxState then 0x1F
  else if r = .phyRssi then 0xE0
  else 0xFF

theorem settingBits_of_not_shown {r : Register}
    (h : r ∉ [Register.trxStatus, .trxState, .phyRssi, .irqStatus]) : r.settingBits = 0xFF := by
  simp only [List.mem_cons, List.not_mem_nil, or_false, not_or] at h
  obtain ⟨hstatus, hstate, hrssi, hirq⟩ := h
  simp [settingBits, hstatus, hstate, hrssi, hirq]

end Register

structure Settings where
  variant : Variant
  interruptLine : Option UInt8
  ieee : Vector UInt8 8
  bits : Register → UInt8

namespace Settings

variable (s : Settings)

def set (r : Register) (v : UInt8) : Settings :=
  { s with bits := fun q => if q = r then v &&& r.settingBits else s.bits q }

def restored : Settings :=
  { s with bits := fun r => (RegisterFile.reset s.ieee).get r &&& r.settingBits }

variable {s}

theorem set_of_eq {r : Register} {v : UInt8} (h : v &&& r.settingBits = s.bits r) :
    s.set r v = s := by
  have hbits : (fun q => if q = r then v &&& r.settingBits else s.bits q) = s.bits := by
    funext q
    split
    · rename_i hq
      rw [h, hq]
    · rfl
  rw [set, hbits]

end Settings

namespace Chip

variable {G : Type} (c : Chip G)

def settings : Settings where
  variant := c.variant
  interruptLine := c.interruptLine
  ieee := c.ieee
  bits r := c.registers.get r &&& r.settingBits

theorem settings_setRegister (r : Register) (v : UInt8) :
    settings { c with registers := c.registers.set r v } = c.settings.set r v := by
  have hbits : (fun q => (c.registers.set r v).get q &&& q.settingBits) =
      fun q => if q = r then v &&& r.settingBits else c.registers.get q &&& q.settingBits := by
    funext q
    by_cases hq : q = r
    · rw [if_pos hq, hq, RegisterFile.get_set_self]
    · rw [if_neg hq, c.registers.get_set_of_ne v (Ne.symm hq)]
  unfold settings Settings.set
  rw [hbits]

/-- The radio writes registers with the settings as they were. -/
theorem settings_showRegister {r : Register} {v : UInt8}
    (h : v &&& r.settingBits = c.registers.get r &&& r.settingBits) :
    settings { c with registers := c.registers.set r v } = c.settings :=
  (c.settings_setRegister r v).trans (Settings.set_of_eq h)

theorem settings_enter (s : OperatingState) : (c.enter s).settings = c.settings :=
  c.settings_showRegister (UInt8.and_zero.trans UInt8.and_zero.symm)

theorem settings_latch (e : Event) : (c.latch e).settings = c.settings :=
  c.settings_showRegister (UInt8.and_zero.trans UInt8.and_zero.symm)

theorem masked_or {v w mask bits : UInt8} (hmask : mask &&& bits = bits) (hw : w &&& bits = 0) :
    ((v &&& mask) ||| w) &&& bits = v &&& bits := by
  rw [octet_and_or_distrib, UInt8.and_assoc, hmask, hw, UInt8.or_zero]

theorem settings_setOutcome {outcome : UInt8} (h : outcome &&& 0x1F = 0) :
    settings { c with registers := c.registers.setOutcome outcome } = c.settings :=
  c.settings_showRegister (masked_or rfl h)

theorem settings_setRssi {rssi : UInt8} (h : rssi &&& 0xE0 = 0) :
    settings { c with registers := c.registers.setRssi rssi } = c.settings :=
  c.settings_showRegister (masked_or rfl h)

theorem settings_post (e : Event) : (c.post e).settings = c.settings := by
  unfold post
  split
  · rfl
  · rfl

theorem settings_raise (e : Event) : (c.raise e).settings = c.settings := by
  unfold raise
  split
  · rw [settings_post, settings_latch]
  · split
    · exact c.settings_latch e
    · rfl

/-! ### Sessions and control -/

theorem settings_beginTransmission : c.beginTransmission.settings = c.settings := by
  unfold beginTransmission
  cases c.transmitter with
  | some f => rfl
  | none => cases c.owed.isNone <;> rfl

theorem settings_endTransmission : c.endTransmission.settings = c.settings := by
  unfold endTransmission
  split
  · rfl
  · rfl

theorem settings_abandonTransmission : c.abandonTransmission.settings = c.settings :=
  settings_endTransmission { c with owed := none }

theorem settings_beginReception : c.beginReception.settings = c.settings := by
  unfold beginReception
  split
  · rfl
  · rfl

theorem settings_endReception : c.endReception.settings = c.settings := by
  unfold endReception
  split
  · exact c.settings_setRssi (by decide)
  · rfl

theorem settings_abandonReception : c.abandonReception.settings = c.settings :=
  settings_endReception { c with owed := none }

theorem settings_steer (t : Transition) : (c.steer t).settings = c.settings := by
  refine steer_induction (P := fun d => d.settings = c.settings) t rfl ?_ ?_ ?_ ?_
  · exact fun d hd => d.settings_abandonTransmission.trans hd
  · exact fun d hd => d.settings_abandonReception.trans hd
  · exact fun d hd => d.settings_beginTransmission.trans hd
  · exact fun d hd => d.settings_beginReception.trans hd

theorem settings_execute (command : Command) : (c.execute command).settings = c.settings := by
  unfold execute
  simp only
  rw [settings_steer, settings_enter]
  split
  · exact c.settings_setOutcome (by decide)
  · rfl

/-- The status takes no settings, so that it makes no difference that it cannot be written. -/
theorem settings_writeRegister (r : Register) (v : UInt8) :
    (c.writeRegister r v).settings = c.settings.set r v := by
  unfold writeRegister
  by_cases hr : r = .trxStatus
  · subst hr
    rw [if_pos rfl]
    exact (Settings.set_of_eq (UInt8.and_zero.trans UInt8.and_zero.symm)).symm
  · rw [if_neg hr]
    simp only
    split
    · exact (settings_execute _ _).trans (c.settings_setRegister r v)
    · exact c.settings_setRegister r v

theorem settings_readRegister (r : Register) : (c.readRegister r).2.settings = c.settings := by
  unfold readRegister RegisterFile.read
  by_cases hr : r = .irqStatus
  · subst hr
    exact c.settings_showRegister (UInt8.and_zero.trans UInt8.and_zero.symm)
  · simp only [if_neg hr]

theorem settings_sleepPin (level : Bool) : (c.sleepPin level).settings = c.settings := by
  unfold sleepPin
  split
  · exact settings_enter (c.give _) _
  · exact c.settings_enter _
  · rfl

theorem settings_reset : c.reset.settings = c.settings.restored := by
  let cleared : Chip G := { c with
    registers := .reset c.ieee
    owed := none
    dataWaiting := false
    lastValid := false }
  have hcleared : cleared.settings = c.settings.restored := rfl
  have hstopped : cleared.abandonTransmission.abandonReception.settings = cleared.settings := by
    rw [settings_abandonReception, settings_abandonTransmission]
  refine Eq.trans ?_ (hstopped.trans hcleared)
  exact settings_enter { cleared.abandonTransmission.abandonReception with buffer := .empty } _

/-- A reading of the signal strength fits in the bits for it. -/
theorem and_eq_zero_of_le_maxRssi {rssi : UInt8} (h : rssi ≤ maxRssi) : rssi &&& 0xE0 = 0 := by
  have hall : ∀ n : Fin 29, (UInt8.ofNat n) &&& 0xE0 = 0 := by decide
  have hlt : rssi.toNat < 29 := Nat.lt_succ_of_le (UInt8.le_iff_toNat_le.1 h)
  have hn := hall ⟨rssi.toNat, hlt⟩
  rwa [UInt8.ofNat_toNat] at hn

theorem settings_advance (now : Instant) : (c.advance now).settings = c.settings := by
  unfold advance
  obtain ⟨fired, timer⟩ := c.rssiTimer.poll now
  simp only
  split
  · exact settings_setRssi { c with rssiTimer := timer } (by decide)
  · rfl

/-! ### Frames -/

theorem settings_finishTransmission : c.finishTransmission.settings = c.settings := by
  unfold finishTransmission
  simp only
  rw [settings_abandonTransmission, settings_raise, settings_setOutcome _ (by decide),
    settings_enter]

theorem settings_afterOctet (out : TransmitOutput) : (c.afterOctet out).settings = c.settings := by
  refine afterOctet_induction (P := fun d => d.settings = c.settings) out rfl ?_ ?_ ?_ ?_
  · exact fun d hd => hd
  · exact fun d hd => hd
  · exact fun d hd => (d.settings_raise .underrun).trans hd
  · exact fun d hd => d.settings_finishTransmission.trans hd

theorem settings_transmit : c.transmit.2.settings = c.settings := by
  unfold transmit
  cases c.transmitter with
  | none => rfl
  | some f => exact settings_afterOctet { c with transmitter := some _ } _

theorem settings_storeOctet (b : UInt8) : (c.storeOctet b).2.settings = c.settings := by
  unfold storeOctet
  split
  · rfl
  · rfl

theorem settings_startFrame (length : UInt8) :
    (c.startFrame length).2.settings = c.settings.set .tstRxLength length := by
  unfold startFrame
  rw [settings_storeOctet]
  exact c.settings_setRegister .tstRxLength length

theorem settings_filter (offset : Nat) : (c.filter offset).2.settings = c.settings := by
  refine filter_induction (P := fun d => d.settings = c.settings) offset rfl ?_ ?_ ?_
  · rintro d (_ | n) hd <;> exact hd
  · exact fun d hd => (d.settings_raise .addressMatch).trans hd
  · exact fun d hd => hd

theorem settings_turnAround : c.turnAround.settings = c.settings := by
  unfold turnAround
  split
  · rw [settings_beginTransmission, settings_endReception]
  · rfl

section

variable [RandomWords G]

theorem settings_completeChecked (valid : Bool) :
    (c.completeChecked valid).settings = c.settings := by
  have hraised := (c.storeLinkQuality valid).settings_raise .rxEnd
  unfold completeChecked
  simp only
  split
  · exact hraised
  · exact hraised

theorem settings_apply {x : ReceiveEffect} (h : ∀ l, x ≠ .frameStart l) :
    (c.apply x).2.settings = c.settings := by
  cases x with
  | raise e => exact c.settings_raise e
  | frameStart length => exact absurd rfl (h length)
  | push b => exact c.settings_storeOctet b
  | filterCheck offset => exact c.settings_filter offset
  | frameComplete valid =>
    cases valid with
    | none => exact settings_raise _ .rxEnd
    | some valid => exact c.settings_completeChecked valid
  | endOfFrame carrier => exact c.settings_turnAround
  | discarded => rfl

theorem settings_carryOut {effects : List ReceiveEffect} (h : ∀ l, .frameStart l ∉ effects) :
    (c.carryOut effects).settings = c.settings := by
  refine carryOut_induction (P := fun d => d.settings = c.settings) rfl fun x hx d hd => ?_
  exact (d.settings_apply fun l hl => h l (hl ▸ hx)).trans hd

def announced? (c : Chip G) (carrier : Bool) (b : UInt8) : Option UInt8 :=
  c.receiver.bind fun f => f.announced? ⟨b, carrier, c.registers.autoFcs⟩

theorem settings_receive (carrier : Bool) (b : UInt8) : (c.receive carrier b).2.settings =
    (c.announced? carrier b).elim c.settings (c.settings.set .tstRxLength) := by
  have hnow := c.settings_advance c.surroundings.now
  cases hf : c.receiver with
  | none =>
    rw [receive_of_none hf]
    simpa [announced?, hf] using hnow
  | some f =>
    let i : ReceiveInput := ⟨b, carrier, c.registers.autoFcs⟩
    have hannounced : c.announced? carrier b = f.announced? i := by simp [announced?, hf, i]
    let stepped : Chip G := { c.advance c.surroundings.now with receiver := some (f.step i).1 }
    have hstepped : stepped.settings = c.settings := hnow
    rw [receive_of_some hf, hannounced]
    change (stepped.carryOut (f.step i).2.effects).settings = _
    cases ha : f.announced? i with
    | none =>
      rw [settings_carryOut _ (ReceiveFramer.frameStart_not_mem_step ha)]
      exact hstepped
    | some l =>
      obtain ⟨g, -, hstep⟩ := ReceiveFramer.step_of_announced ha
      rw [hstep, carryOut_singleton, ← hstepped]
      exact stepped.settings_startFrame l

/-- The settings change with a write to a register, with a reset, and with the length of a frame
that begins. -/
theorem settings_after (op : Operation) : (c.after op).settings =
    match op with
    | .writeRegister r v => c.settings.set r v
    | .reset => c.settings.restored
    | .receive carrier b =>
      (c.announced? carrier b).elim c.settings (c.settings.set .tstRxLength)
    | _ => c.settings := by
  cases op with
  | writeRegister r v => exact c.settings_writeRegister r v
  | readRegister r => exact c.settings_readRegister r
  | command code => exact c.settings_execute _
  | sleepPin level => exact c.settings_sleepPin level
  | reset => exact c.settings_reset
  | transmit => exact c.settings_transmit
  | receive carrier b => exact c.settings_receive carrier b
  | setRssi dbm => exact c.settings_setRssi (and_eq_zero_of_le_maxRssi (rssiOfDbm_le dbm))
  | advance now => exact c.settings_advance now
  | setDataWaiting | pushFrame | popFrame | uploadFrame | pokeFrame | clearFrame | prepareFrame
  | recordBitErrors | takePacketErrorRate | setTime => rfl

end

end Chip

end Transceiver
