import Transceiver.Proofs.FrameTransmission
import Transceiver.Proofs.ReceivedFrame

/-!
# From one chip to another

A frame that the node of one chip loads after starting the transmitter goes on air octet by octet,
and another chip that hears these octets has the same frame in its buffer: `round_trip`.
-/

namespace Transceiver.Chip

variable {G : Type} {c : Chip G}

/-! ### Loading a frame -/

theorem beginTransmission_of_idle (ht : c.transmitter = none) (ho : c.owed = none) :
    c.beginTransmission.buffer = .empty ∧ c.beginTransmission.registers = c.registers := by
  simp only [beginTransmission, ht, ho, Option.isNone_none, if_true]
  exact ⟨rfl, rfl⟩

theorem begins_of_idle (ht : c.transmitter = none) :
    let d := c.abandonReception.beginTransmission
    d.transmitter = some .start ∧ d.owed = none ∧ d.buffer = .empty ∧
      d.registers.autoFcs = c.registers.autoFcs := by
  intro d
  let e := c.abandonReception
  have he : e.activity = c.activity.forget.closeReception := c.activity_abandonReception
  have het : e.transmitter = none := (congrArg Activity.transmitter he).trans ht
  have heo : e.owed = none := congrArg Activity.owed he
  have hfcs : e.registers.get .trxCtrl1 = c.registers.get .trxCtrl1 :=
    c.get_abandonReception (by decide)
  obtain ⟨hbuffer, hregisters⟩ := beginTransmission_of_idle het heo
  have hactivity : d.activity = e.activity.openTransmission := e.activity_beginTransmission
  rw [Activity.openTransmission_of_none (a := e.activity) het] at hactivity
  refine ⟨congrArg Activity.transmitter hactivity,
    (congrArg Activity.owed hactivity).trans heo, hbuffer, ?_⟩
  rw [hregisters]
  unfold RegisterFile.autoFcs
  rw [hfcs]

/-- A chip that was told to transmit waits for its frame. -/
theorem command_starts (ht : c.transmitter = none) {k : Command}
    (hk : k = .txStart ∨ k = .txAretOn) :
    let d := c.command k.code
    d.transmitter = some .start ∧ d.owed = none ∧ d.buffer = .empty ∧
      d.registers.autoFcs = c.registers.autoFcs := by
  have hentered (e : Chip G) (s : OperatingState) :
      (e.enter s).registers.get .trxCtrl1 = e.registers.get .trxCtrl1 :=
    e.registers.get_set_of_ne _ (by decide)
  rcases hk with rfl | rfl
  · obtain ⟨htransmitter, howed, hbuffer, hfcs⟩ := begins_of_idle (c := c.enter .busyTx) ht
    refine ⟨htransmitter, howed, hbuffer, hfcs.trans ?_⟩
    unfold RegisterFile.autoFcs
    rw [hentered]
  · let invalid : Chip G := { c with registers := c.registers.setOutcome 0xE0 }
    obtain ⟨htransmitter, howed, hbuffer, hfcs⟩ :=
      begins_of_idle (c := invalid.enter .busyTxAret) ht
    refine ⟨htransmitter, howed, hbuffer, hfcs.trans ?_⟩
    have hinvalid : invalid.registers.get .trxCtrl1 = c.registers.get .trxCtrl1 :=
      c.registers.get_set_of_ne _ (by decide)
    unfold RegisterFile.autoFcs
    rw [hentered, hinvalid]

variable [RandomWords G]

theorem run_pushFrame {image : List UInt8}
    (h : c.buffer.octets.length + image.length ≤ FrameBuffer.capacity) :
    c.run (image.map .pushFrame) =
      { c with buffer := { c.buffer with octets := c.buffer.octets ++ image } } := by
  induction image generalizing c with
  | nil =>
    rw [List.append_nil]
    rfl
  | cons b r ih =>
    rw [List.length_cons] at h
    have hroom : c.buffer.octets.length < FrameBuffer.capacity := by omega
    let pushed : Chip G :=
      { c with buffer := { c.buffer with octets := c.buffer.octets ++ [b] } }
    have hpush : c.after (.pushFrame b) = pushed := by
      simp only [after, pushFrame, FrameBuffer.push, if_pos hroom]
      rfl
    have hrest := ih (c := pushed) (by
      change (c.buffer.octets ++ [b]).length + r.length ≤ _
      rw [List.length_append, List.length_singleton]
      omega)
    rw [List.map_cons, run_cons, hpush, hrest]
    simp [pushed]

def load (c : Chip G) (image : List UInt8) : Chip G :=
  c.run (.command Command.txStart.code :: image.map .pushFrame)

/-- A loaded frame goes on air, and with it its check octets. -/
theorem load_sends (ht : c.transmitter = none) (ha : c.registers.autoFcs = true) {l : UInt8}
    {p : List UInt8} (hl : p.length + 2 = l.toNat) (hl' : l.toNat ≤ 127) :
    ∃ d, (c.load (l :: p)).Sends
        (onAir l p (Crc.first (Crc.ofList p)) (Crc.second (Crc.ofList p))) d ∧
      d.transmitter = none := by
  obtain ⟨htransmitter, howed, hbuffer, hauto⟩ := command_starts ht (.inl rfl)
  let d := c.command Command.txStart.code
  have hroom : d.buffer.octets.length + (l :: p).length ≤ FrameBuffer.capacity := by
    rw [hbuffer, List.length_cons]
    change 0 + (p.length + 1) ≤ 128
    omega
  have hloaded : c.load (l :: p) = _ := run_pushFrame (c := d) hroom
  rw [hloaded]
  refine sends_frame htransmitter howed (hauto.trans ha) ?_ ?_ hl
  · change d.buffer.octets ++ l :: p = l :: p
    rw [hbuffer]
    rfl
  · change d.buffer.readPosition = 0
    rw [hbuffer]
    rfl

/-! ### The round trip -/

theorem takes_of_state {G : Type} {c : Chip G} (h : c.state ≠ .rxAackOn) (frame : List UInt8)
    (k : Nat) : c.Takes frame k := by
  intro hf
  simp [filters, h] at hf

/-- A frame that one chip sends is the frame that another one receives. The octets go on air without
an underrun until the transmitter is off: preamble, start delimiter, the frame as loaded, and its
check octets. The chip that hears them, whenever it does, holds the frame with the first of the
check octets and the link quality with the mark of a right frame, goes on receiving, and owes no
acknowledgement. It notes the sequence number where the frame has one to be noted. -/
theorem round_trip {G H : Type} [RandomWords G] [RandomWords H] {a : Chip G} {b : Chip H}
    (ha : a.transmitter = none) (hafcs : a.registers.autoFcs = true)
    (hb : b.Reachable) (hbs : b.state = .rxOn) (hbfcs : b.registers.autoFcs = true)
    (hbr : ∃ f, b.receiver = some f ∧ (f.phase = .scanning ∨ f.phase = .matched1))
    {l : UInt8} {body : List UInt8} (hl : 2 ≤ l) (hl' : l ≤ 127)
    (hbody : body.length = l.toNat - 2) :
    let image := l :: body
    let wire := [0, 0, 0, 0, 0x7A] ++ image ++ Crc.octets (Crc.ofList body)
    (∃ d, (a.run (.command Command.txStart.code :: image.map .pushFrame)).Sends wire d ∧
      d.transmitter = none) ∧
    ∀ heard : List (Instant × UInt8), heard.map Prod.snd = wire →
      let d := b.listen heard
      (∃ q < 0x80, d.buffer = {
        octets := image ++ [Crc.first (Crc.ofList body), 0x80 ||| q]
        readPosition := 0
        received := true }) ∧
      d.registers.get .tstRxLength = l ∧ d.state = .rxOn ∧ d.isReceiving = true ∧
      d.owed = none ∧
      d.sequence =
        let fc := FrameControl.ofFrame image
        if 3 ≤ body.length ∧ fc.frameType ≠ .beacon ∧ fc.isReserved = false then body.getD 2 0
        else b.sequence := by
  intro image wire
  have hfits : body.length + 2 = l.toNat := by
    have h2 : 2 ≤ l.toNat := UInt8.le_iff_toNat_le.1 hl
    omega
  have hmax : l.toNat ≤ 127 := UInt8.le_iff_toNat_le.1 hl'
  refine ⟨load_sends ha hafcs hfits hmax, fun heard hheard => ?_⟩
  intro d
  have htakes (k : Nat) : b.Takes image k := takes_of_state (by rw [hbs]; decide) image k
  have hd := listen_received hbr hbfcs (owed_of_listening hb hbr) hfits hmax
    (fun k _ _ => htakes k) hheard
  rw [Crc.accepts_first_second] at hd
  have hstate : d.state = .rxOn := hd.state_eq.trans hbs
  obtain ⟨f, hf, -⟩ := hd.receiver_done
  refine ⟨hd.buffer_eq, hd.length_eq, hstate, ?_, ?_, ?_⟩
  · exact Option.isSome_iff_exists.2 ⟨f, hf⟩
  · -- An acknowledgement is called for in another state only.
    refine hd.owed_eq.trans ?_
    rw [if_pos rfl]
    by_contra hk
    obtain ⟨k, hk⟩ := Option.ne_none_iff_exists'.1 hk
    cases (state_of_acknowledgement hk).symm.trans hstate
  · exact hd.sequence_eq.trans (FrameFilter.getD_sequenceOf? l body b.sequence)

/-- A data frame of three octets from one chip to another of the same make. -/
theorem round_trip_of_data_frame :
    let config : Configuration := ⟨.at86rf231, Vector.replicate 8 0, none, 0⟩
    let a : Chip Mixer := .build config (Instant.mk 0) (Mixer.mk 0)
    let b := a.run [.command Command.rxOn.code]
    let body : List UInt8 := [0x01, 0x00, 0x2A]
    let wire := [0, 0, 0, 0, 0x7A] ++ 5 :: body ++ Crc.octets (Crc.ofList body)
    (a.transmitter = none ∧ a.registers.autoFcs = true ∧ b.Reachable ∧ b.state = .rxOn ∧
      b.registers.autoFcs = true ∧ b.receiver = some .start) ∧
    (∃ d, (a.run (.command Command.txStart.code :: (5 :: body).map .pushFrame)).Sends wire d ∧
      d.transmitter = none) ∧
    ∀ heard : List (Instant × UInt8), heard.map Prod.snd = wire →
      (b.listen heard).sequence = 0x2A := by
  intro config a b body wire
  have ha : a.registers.autoFcs = true := by decide
  have hb : b.Reachable := (reachable_build config _ _).run _
  have hbfcs : b.registers.autoFcs = true := by decide
  have hreceiver : b.receiver = some .start := rfl
  have hbody : body.length = (5 : UInt8).toNat - 2 := rfl
  have h := round_trip (a := a) (b := b) rfl ha hb rfl hbfcs ⟨_, hreceiver, .inl rfl⟩
    (by decide) (by decide) hbody
  refine ⟨⟨rfl, ha, hb, rfl, hbfcs, hreceiver⟩, h.1, fun heard hheard => ?_⟩
  obtain ⟨-, -, -, -, -, hsequence⟩ := h.2 heard hheard
  exact hsequence.trans (if_pos (by decide))

end Transceiver.Chip
