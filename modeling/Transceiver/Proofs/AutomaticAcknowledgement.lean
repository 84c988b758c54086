import Transceiver.Proofs.AddressRecognition
import Transceiver.Proofs.FrameTransmission

/-!
# Automatic acknowledgements

A frame that asks for an acknowledgement gets one if its check octets are right. The first octet
behind the frame turns the chip around, and the next ones that it sends are the acknowledgement,
which names the sequence number of the frame: `acknowledges`. Nothing of this happens to a frame
with wrong check octets.
-/

namespace Transceiver

namespace Header

variable (h : Header)

/-- The frame is one that nodes exchange and that carries a sequence number of its own. -/
def IsExchange : Prop := h.frameType.onAir = .data ∨ h.frameType.onAir = .command

variable {h}

theorem IsExchange.isReserved_eq_false (ht : h.IsExchange) : h.control.isReserved = false := by
  refine h.isReserved_control.2 ?_
  unfold IsExchange FrameType.onAir at ht
  exact (by decide +kernel : ∀ b ∈ [0, 1, 2, 3, 4, 5, 6, 7],
    FrameType.ofBits b = .data ∨ FrameType.ofBits b = .command → b < 4) _
    h.frameType.bits_cases ht

theorem IsExchange.sequenceOf?_image (ht : h.IsExchange) (l : UInt8) (payload : List UInt8) :
    FrameFilter.sequenceOf? (l :: (h.octets ++ payload)) = some h.sequence := by
  have hcontrol : FrameControl.ofFrame (l :: (h.octets ++ payload)) = h.control := rfl
  have hbeacon : h.control.frameType ≠ .beacon := by
    rw [h.frameType_control]
    rcases ht with ht | ht <;> simp [ht]
  unfold FrameFilter.sequenceOf? FrameFilter.sequence?
  rw [hcontrol, ht.isReserved_eq_false, if_neg hbeacon]
  rfl

end Header

namespace Chip

variable {G : Type} {c : Chip G}

/-- A frame is let in by the node it is addressed to and by a coordinator. -/
theorem takes_of_accepted {h : Header} {payload image : List UInt8}
    (hi : h.image? payload = some image)
    (haccepted : c.registers.isCoordinator = true ∨ h.AddressedTo c.localAddress) :
    ∀ k ∈ checkOffsets, k < image.length → c.Takes image k := by
  intro k hk hlt hf
  have hn : c.registers.isCoordinator = false := by
    simp only [filters, Bool.and_eq_true, Bool.not_eq_true'] at hf
    exact hf.2
  rcases haccepted with hcoordinator | haddressed
  · rw [hn] at hcoordinator
    cases hcoordinator
  · exact (h.passes_image_iff hi hn).2 haddressed k hk hlt

/-- A data or command frame in the buffer that asks for an acknowledgement calls for one. -/
theorem acknowledgement?_of_request {h : Header} (ht : h.IsExchange) (hack : h.ackRequest = true)
    {l : UInt8} {payload r : List UInt8} (hb : c.buffer.octets = l :: (h.octets ++ payload) ++ r)
    (hs : c.state = .rxAackOn) (hd : c.registers.ackDisabled = false) :
    c.acknowledgement? =
      some (if c.dataWaiting || c.registers.ackPending then .pending else .plain) := by
  have hcontrol : FrameControl.ofFrame c.buffer.octets = h.control := by
    rw [hb]
    rfl
  have htype : h.control.frameType ≠ .ack := by
    rw [h.frameType_control]
    rcases ht with ht | ht <;> simp [ht]
  unfold acknowledgement?
  simp only [hcontrol]
  exact if_pos ⟨hs, h.flags_control.2.1.trans hack, htype, by simp [hd]⟩

/-- An acknowledgement leaves the frame that it answers in the buffer. -/
theorem beginTransmission_of_owed (ht : c.transmitter = none) {k : Acknowledgement}
    (ho : c.owed = some k) : c.beginTransmission = { c with
      transmitter := some .start
      surroundings := c.beginTransmission.surroundings } := by
  simp only [beginTransmission, ht, ho, Option.isNone_some, Bool.false_eq_true, if_false]
  rw [← ho]
  rfl

theorem turnAround_of_owed {f : ReceiveFramer} (hf : c.receiver = some f)
    (ht : c.transmitter = none) {k : Acknowledgement} (ho : c.owed = some k)
    (hv : c.lastValid = true) : c.turnAround = { c with
      receiver := none
      transmitter := some .start
      registers := c.registers.setRssi 0
      rssiTimer := .idle
      surroundings := c.turnAround.surroundings } := by
  have hturn : c.turnAround = c.endReception.beginTransmission := if_pos ⟨by simp [ho], hv⟩
  let ended : Chip G := { c.give .endReception with
    receiver := none
    registers := c.registers.setRssi 0
    rssiTimer := .idle }
  have hended : c.endReception = ended := by simp only [endReception, hf, ended]
  have hbegun := beginTransmission_of_owed (c := ended) ht ho
  rw [hturn, hended, hbegun]
  rfl

variable [RandomWords G]

/-- The octet behind a complete frame only ends it. -/
theorem hear_of_done {f : ReceiveFramer} (hf : c.receiver = some f) (hp : f.phase = .done)
    (carrier : Bool) (b : UInt8) :
    c.hear carrier b = turnAround { c with receiver := some { f with phase := .scanning } } := by
  have hstep := ReceiveFramer.step_of_done (i := ⟨b, carrier, c.registers.autoFcs⟩) hp
  simp only [hear_of_some hf, hstep, carryOut_singleton, apply]

/-- The octet behind a frame that is to be acknowledged turns the chip around, at any instant. -/
theorem receive_turns_around {f : ReceiveFramer} (hf : c.receiver = some f) (hp : f.phase = .done)
    (ht : c.transmitter = none) {k : Acknowledgement} (ho : c.owed = some k)
    (hv : c.lastValid = true) (t : Instant) (carrier : Bool) (b : UInt8) :
    let d := ((c.setTime t).receive carrier b).2
    d.receiver = none ∧ d.transmitter = some .start ∧ d.owed = some k ∧ d.buffer = c.buffer ∧
      d.sequence = c.sequence ∧ d.registers.autoFcs = c.registers.autoFcs := by
  intro d
  let g : Chip G := { c.timeless with receiver := some { f with phase := .scanning } }
  have hfcs : (g.registers.setRssi 0).autoFcs = c.registers.autoFcs := by
    refine Eq.trans ?_ c.sameSettings_timeless.autoFcs
    unfold RegisterFile.autoFcs RegisterFile.setRssi RegisterFile.modify
    rw [RegisterFile.get_set_of_ne _ _ (by decide)]
  have hd : d.timeless = g.turnAround := by
    have hheard := hear_of_done (c := c.timeless) hf hp carrier b
    rw [← c.timeless_receive t] at hheard
    exact hheard
  have hturned := turnAround_of_owed (c := g) rfl ht ho hv
  rw [← hd] at hturned
  have hregisters : d.timeless.registers = g.registers.setRssi 0 := by rw [hturned]
  have hautoFcs : d.registers.autoFcs = c.registers.autoFcs := by
    rw [← d.sameSettings_timeless.autoFcs, hregisters, hfcs]
  have hreceiver : d.timeless.receiver = none := by rw [hturned]
  have htransmitter : d.timeless.transmitter = some .start := by rw [hturned]
  have howed : d.timeless.owed = some k := by rw [hturned]; exact ho
  have hbuffer : d.timeless.buffer = c.buffer := by rw [hturned]; rfl
  have hsequence : d.timeless.sequence = c.sequence := by rw [hturned]; rfl
  exact ⟨hreceiver, htransmitter, howed, hbuffer, hsequence, hautoFcs⟩

/-- If nothing is owed, the octet behind a frame makes the framer look for the next one. -/
theorem receive_goes_on {f : ReceiveFramer} (hf : c.receiver = some f) (hp : f.phase = .done)
    (ho : c.owed = none) (t : Instant) (carrier : Bool) (b : UInt8) :
    let d := ((c.setTime t).receive carrier b).2
    d.owed = none ∧ d.receiver = some { f with phase := .scanning } := by
  intro d
  let g : Chip G := { c.timeless with receiver := some { f with phase := .scanning } }
  have hheard := hear_of_done (c := c.timeless) hf hp carrier b
  have hstays : g.turnAround = g := if_neg (by simp [g, timeless, ho])
  have hd : d.timeless = g := by
    rw [← c.timeless_receive t] at hheard
    exact hheard.trans hstays
  exact ⟨(congrArg Chip.owed hd).trans ho, congrArg Chip.receiver hd⟩

/-- A data or command frame that asks for an acknowledgement, and that the chip lets in, is
acknowledged if its check octets are right. The octet behind it, whatever it is and whenever it
comes, turns the chip from receiving to sending. The next eleven octets are the acknowledgement:
its frame control, which announces pending data if the node or the register asked for that when the
frame was complete, and the sequence number of the frame, with their check octets. Then the
transmitter is off, nothing is owed any more, the outcome is success, and the frame is still in the
buffer. With any other check octets nothing is ever owed for the frame, and the chip goes on
receiving. -/
theorem acknowledges (hc : c.Reachable) (hs : c.state = .rxAackOn)
    (ha : c.registers.autoFcs = true) (hdisabled : c.registers.ackDisabled = false)
    (hr : ∃ f, c.receiver = some f ∧ (f.phase = .scanning ∨ f.phase = .matched1))
    (h : Header) (htype : h.frameType.onAir = .data ∨ h.frameType.onAir = .command)
    (hack : h.ackRequest = true) {payload image : List UInt8}
    (hi : h.image? payload = some image)
    (haccepted : c.registers.isCoordinator = true ∨ h.AddressedTo c.localAddress)
    (a b : UInt8) {heard : List (Instant × UInt8)}
    (hheard : heard.map Prod.snd = [0, 0, 0, 0, 0x7A] ++ image ++ [a, b])
    (t : Instant) (carrier : Bool) (x : UInt8) :
    let d := c.listen heard
    let e := ((d.setTime t).receive carrier x).2
    ([a, b] = Crc.octets (Crc.ofList image.tail) →
      let control : UInt8 := if d.dataWaiting || d.registers.ackPending then 0x12 else 0x02
      d.isReceiving = true ∧ e.isReceiving = false ∧
      ∃ k, e.Sends ([0, 0, 0, 0, 0x7A, 5, control, 0, h.sequence] ++
          Crc.octets (Crc.ofList [control, 0, h.sequence])) k ∧
        k.transmitter = none ∧ k.state = .pllOn ∧ k.owed = none ∧
        k.registers.get .trxState &&& 0xE0 = 0 ∧ k.buffer = d.buffer) ∧
    ([a, b] ≠ Crc.octets (Crc.ofList image.tail) →
      (∀ m, m <+: heard → (c.listen m).owed = none) ∧ e.owed = none ∧
        d.isReceiving = true ∧ e.isReceiving = true) := by
  have htakes := takes_of_accepted hi haccepted
  obtain ⟨l, rfl, hl, hl'⟩ := h.image?_eq_some hi
  intro d e
  have hd := listen_received hr ha (owed_of_listening hc hr) hl hl' htakes hheard
  obtain ⟨f, hf, hp⟩ := hd.receiver_done
  have hreceiving : d.isReceiving = true := Option.isSome_iff_exists.2 ⟨f, hf⟩
  constructor
  · intro hfcs control
    have hright : Crc.accepts (Crc.ofList (h.octets ++ payload)) a b = true :=
      (Crc.accepts_iff _ _ _).2 hfcs.symm
    rw [hright] at hd
    obtain ⟨q, -, hbuffer⟩ := hd.buffer_eq
    have hstate : d.state = .rxAackOn := hd.state_eq.trans hs
    have hcalled := acknowledgement?_of_request (c := d) htype hack
      (congrArg FrameBuffer.octets hbuffer) hstate (hd.settings.ackDisabled.trans hdisabled)
    have howed : d.owed = _ := hd.owed_eq.trans hcalled
    have hsequence : d.sequence = h.sequence := by
      rw [hd.sequence_eq, Header.IsExchange.sequenceOf?_image htype]
      rfl
    have htransmitter : d.transmitter = none := by
      obtain ⟨g, hg, -⟩ := hr
      exact hd.transmitter_eq.trans (hc.orderly.transmitter_eq_none hg)
    obtain ⟨her, het, heo, heb, hes, hea⟩ :=
      receive_turns_around hf hp htransmitter howed hd.lastValid_eq t carrier x
    have hefcs : e.registers.autoFcs = true := hea.trans (hd.settings.autoFcs.trans ha)
    obtain ⟨k, hsent, hk⟩ := sends_acknowledgement het heo hefcs
    have hoctets : Acknowledgement.octets
        (if d.dataWaiting || d.registers.ackPending then .pending else .plain) e.sequence =
          [control, 0, h.sequence] := by
      rw [hes, hsequence]
      simp only [Acknowledgement.octets, control]
      split <;> rfl
    rw [hoctets] at hsent
    refine ⟨hreceiving, ?_, k, hsent, hk.transmitter_eq, hk.state_eq, hk.owed_eq, hk.outcome_eq,
      hk.buffer_eq.trans heb⟩
    change e.receiver.isSome = false
    rw [her]
    rfl
  · intro hfcs
    have hwrong : Crc.accepts (Crc.ofList (h.octets ++ payload)) a b = false :=
      eq_false_of_ne_true fun hright => hfcs ((Crc.accepts_iff _ _ _).1 hright).symm
    rw [hwrong] at hd
    have howed : d.owed = none := hd.owed_eq
    obtain ⟨heo, her⟩ := receive_goes_on hf hp howed t carrier x
    refine ⟨fun m hm => owed_of_prefix hc hm ?_ howed, heo, hreceiving, ?_⟩
    · rw [hf]
      exact Option.some_ne_none f
    · exact Option.isSome_iff_exists.2 ⟨_, her⟩

/-- A broadcast that asks for an acknowledgement gets one, behind whatever octet follows it. -/
theorem acknowledges_broadcast :
    let config : Configuration := ⟨.at86rf231, Vector.replicate 8 0, none, 0⟩
    let c := Chip.run (.build config (Instant.mk 0) (Mixer.mk 0)) [.command Command.rxAackOn.code]
    let h := (Header.data 0x2A 0xFFFF (.short 0xFFFF) .absent).withAckRequest true
    let body : List UInt8 := [0x21, 0x08, 0x2A, 0xFF, 0xFF, 0xFF, 0xFF]
    (c.Reachable ∧ c.state = .rxAackOn ∧ c.registers.autoFcs = true ∧
      c.registers.ackDisabled = false ∧ c.receiver = some .start ∧ h.frameType.onAir = .data ∧
      h.ackRequest = true ∧ h.image? [] = some (9 :: body) ∧ h.AddressedTo c.localAddress) ∧
    ∀ heard : List (Instant × UInt8), heard.map Prod.snd =
        [0, 0, 0, 0, 0x7A] ++ 9 :: body ++ Crc.octets (Crc.ofList body) →
      let d := c.listen heard
      let e := ((d.setTime (Instant.mk 0)).receive false 0xFF).2
      let control : UInt8 := if d.dataWaiting || d.registers.ackPending then 0x12 else 0x02
      ∃ k, e.Sends ([0, 0, 0, 0, 0x7A, 5, control, 0, 0x2A] ++
        Crc.octets (Crc.ofList [control, 0, 0x2A])) k ∧ k.transmitter = none := by
  intro config c h body
  have hc : c.Reachable := (reachable_build config _ _).run _
  have ha : c.registers.autoFcs = true := by decide
  have hdisabled : c.registers.ackDisabled = false := by decide
  have htype : h.frameType.onAir = .data := by decide
  have hi : h.image? [] = some (9 :: body) := by decide
  have haddressed : h.AddressedTo c.localAddress := ⟨by decide, .inr rfl, .inr rfl⟩
  refine ⟨⟨hc, rfl, ha, hdisabled, rfl, htype, rfl, hi, haddressed⟩, fun heard hheard => ?_⟩
  have hd := acknowledges hc rfl ha hdisabled ⟨_, rfl, .inl rfl⟩ h (.inl htype) rfl hi
    (.inr haddressed) _ _ hheard (Instant.mk 0) false 0xFF
  obtain ⟨-, -, k, hsent, hoff, -⟩ := hd.1 rfl
  exact ⟨k, hsent, hoff⟩

end Chip

end Transceiver
