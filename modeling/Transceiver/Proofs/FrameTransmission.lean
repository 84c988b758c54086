import Transceiver.Proofs.FrameReception
import Transceiver.Proofs.TransmitFraming

/-!
# The transmission of a frame

What a chip puts on air between the start of its transmitter and the last octet of a frame. The
framer inside a frame is that of `sending`, computed from the octets sent so far, and the check
octets it appends are those of the octets it sent. The octets come out of the frame buffer
(`sends_frame`) or, for an acknowledgement, out of the framer itself (`sends_acknowledgement`).
-/

namespace Transceiver

def Acknowledgement.octets (k : Acknowledgement) (sequence : UInt8) : List UInt8 :=
  [if k = .pending then 0x12 else 0x02, 0, sequence]

namespace TransmitFramer

def sending (isAck : Bool) (length : UInt8) (octets : List UInt8) : TransmitFramer where
  phase := if octets.length + 2 < length.toNat then .inPacket else .check1
  counter := UInt8.ofNat octets.length
  length := length
  payload := withoutFcs length
  crc := Crc.ofList octets
  isAck := isAck

def offered (isAck : Bool) (octets : List UInt8) (i : TransmitInput) : TransmitOutput :=
  if isAck then ackOctet (UInt8.ofNat octets.length) i else .relay i.next

variable {isAck : Bool} {l : UInt8} {p : List UInt8} {i : TransmitInput}

theorem finished_relay (b : Option UInt8) : (TransmitOutput.relay b).finished = false := by
  cases b <;> rfl

theorem finished_offered : (offered isAck p i).finished = false := by
  unfold offered
  split
  · unfold ackOctet
    split <;> rfl
  · exact finished_relay _

/-- A step that does not lead to the end gives its octet as it is. -/
theorem step_of_advance {f g : TransmitFramer} {out : TransmitOutput} (hf : f.phase ≠ .done)
    (h : f.advance i = (g, out)) (hg : g.phase ≠ .done) (hout : out.finished = false) :
    f.step i = (g, out) := by
  have hmark : decide (g.phase = .done) = out.finished := by simp [hg, hout]
  rw [step_of_ne_done i hf, h]
  simp only [hmark]

theorem phase_sending_ne_done : (sending isAck l p).phase ≠ .done := by
  unfold sending
  by_cases h : p.length + 2 < l.toNat <;> simp [h]

theorem step_sending (isAck : Bool) (ha : i.autoFcs = true) (hl : p.length + 2 < l.toNat) :
    (sending isAck l p).step i =
      (sending isAck l (p ++ [(offered isAck p i).octet]), offered isAck p i) := by
  have hlt := l.toNat_lt
  have hoffset : (UInt8.ofNat (p.length + 1)).toNat = p.length + 1 := by
    rw [UInt8.toNat_ofNat']
    omega
  have hend : withoutFcs l ≤ UInt8.ofNat (p.length + 1) ↔ ¬p.length + 1 + 2 < l.toNat := by
    rw [UInt8.le_iff_toNat_le, ReceiveFramer.toNat_withoutFcs, hoffset]
    omega
  have hphase : (sending isAck l p).phase = .inPacket := if_pos hl
  refine step_of_advance phase_sending_ne_done ?_ phase_sending_ne_done finished_offered
  unfold advance
  rw [hphase]
  simp only [stepInPacket, sending, ReceiveFramer.ofNat_succ, ha, if_true, hend, ite_not,
    List.length_append, List.length_singleton, Crc.ofList_concat]
  rfl

/-- The length octet opens the frame. -/
theorem step_length {f : TransmitFramer} (hf : f.phase = .length) (ha : i.autoFcs = true)
    (ho : i.owed = none) (hn : i.next = some l) :
    f.step i = (sending false l [], .relay (some l)) := by
  have hd : f.phase ≠ .done := by simp [hf]
  have hphase : withoutFcs l ≠ 0 ↔ 0 + 2 < l.toNat := by
    rw [ne_eq, ← UInt8.toNat_inj, ReceiveFramer.toNat_withoutFcs]
    change ¬l.toNat - 2 = 0 ↔ _
    omega
  refine step_of_advance hd ?_ phase_sending_ne_done rfl
  unfold advance
  rw [hf]
  simp only [stepLength, ho, hn, ha, Option.isSome_none, Bool.false_eq_true, if_false, if_true]
  simp only [TransmitOutput.relay, hphase]
  rfl

/-- The length octet of an acknowledgement is the framer's own. -/
theorem step_length_of_owed {f : TransmitFramer} (hf : f.phase = .length) (ha : i.autoFcs = true)
    (ho : i.owed.isSome) : f.step i = (sending true ackLength [], .send ackLength) := by
  have hd : f.phase ≠ .done := by simp [hf]
  refine step_of_advance hd ?_ phase_sending_ne_done rfl
  have hframer := stepLength_of_owed i ho
  rw [if_pos ha] at hframer
  unfold advance
  rw [hf]
  refine Prod.ext hframer ?_
  simp only [stepLength, if_pos ho]

theorem step_firstCheck (hl : ¬p.length + 2 < l.toNat) : (sending isAck l p).step i =
    ({ sending isAck l p with phase := .check2 }, .send (Crc.first (Crc.ofList p))) := by
  have hphase : (sending isAck l p).phase = .check1 := if_neg hl
  refine step_of_advance phase_sending_ne_done ?_ (by simp) rfl
  unfold advance
  rw [hphase]
  rfl

theorem step_secondCheck (f : TransmitFramer) (i : TransmitInput) :
    step { f with phase := .check2 } i = ({ f with phase := .done },
      { TransmitOutput.send (Crc.second f.crc) with finished := true }) := rfl

end TransmitFramer

namespace Chip

variable {G : Type} (c : Chip G)

def underruns : Bool := c.transmitter.any fun f => (f.step c.transmitInput).2.underrun

/-- `c.Sends octets d`: the transmitter of `c` is on and puts these octets on air, none of them for
want of another, and then the chip is `d`. -/
def Sends : Chip G → List UInt8 → Chip G → Prop
  | c, [], d => c = d
  | c, b :: r, d => c.isTransmitting = true ∧ c.underruns = false ∧ c.transmit.1 = b ∧
      Sends c.transmit.2 r d

structure Finished (c d : Chip G) : Prop where
  state_eq : d.state = .pllOn
  transmitter_eq : d.transmitter = none
  owed_eq : d.owed = none
  /-- The outcome of the transaction is success. -/
  outcome_eq : d.registers.get .trxState &&& 0xE0 = 0
  buffer_eq : d.buffer = c.buffer

variable {c} {d e : Chip G}

theorem Sends.append {l m : List UInt8} (h : c.Sends l d) (h' : d.Sends m e) :
    c.Sends (l ++ m) e := by
  induction l generalizing c with
  | nil =>
    cases h
    exact h'
  | cons b r ih =>
    obtain ⟨ht, hu, hb, hr⟩ := h
    exact ⟨ht, hu, hb, ih hr⟩

theorem sends_of_step {f g : TransmitFramer} {out : TransmitOutput} (hf : c.transmitter = some f)
    (h : f.step c.transmitInput = (g, out)) (hu : out.underrun = false) :
    c.Sends [out.octet] (afterOctet { c with transmitter := some g } out) := by
  refine ⟨?_, ?_, ?_, ?_⟩
  · simp [isTransmitting, hf]
  · simp [underruns, hf, h, hu]
  · simp only [transmit, hf, h]
  · simp only [transmit, hf, h, Sends]

/-- An octet of the framer's own changes nothing else about the chip. -/
theorem sends_of_send {f g : TransmitFramer} {b : UInt8} (hf : c.transmitter = some f)
    (h : f.step c.transmitInput = (g, .send b)) : c.Sends [b] { c with transmitter := some g } :=
  sends_of_step hf h rfl

/-- An octet of the frame comes out of the buffer. -/
theorem sends_of_relay {f g : TransmitFramer} {b : UInt8} (hf : c.transmitter = some f)
    (hb : c.buffer.front? = some b) (h : f.step c.transmitInput = (g, .relay (some b))) :
    c.Sends [b] { c with
      transmitter := some g
      buffer := { c.buffer with readPosition := c.buffer.readPosition + 1 } } := by
  have hsent := sends_of_step hf h rfl
  have hpop : c.buffer.pop.2 = { c.buffer with readPosition := c.buffer.readPosition + 1 } := by
    simp only [FrameBuffer.pop, hb]
  change c.Sends [b] { c with transmitter := some g, buffer := c.buffer.pop.2 } at hsent
  rw [hpop] at hsent
  exact hsent

/-! ### The opening of a frame -/

theorem sends_syncHeader (hf : c.transmitter = some .start) : c.Sends syncHeader { c with
    transmitter := some { TransmitFramer.start with phase := .length, counter := 4 } } := by
  let reached (phase : TransmitPhase) (n : UInt8) : Chip G :=
    { c with transmitter := some { TransmitFramer.start with phase, counter := n } }
  have h1 : c.Sends [0] (reached .preamble 1) := sends_of_send hf rfl
  have h2 : (reached .preamble 1).Sends [0] (reached .preamble 2) := sends_of_send rfl rfl
  have h3 : (reached .preamble 2).Sends [0] (reached .preamble 3) := sends_of_send rfl rfl
  have h4 : (reached .preamble 3).Sends [0] (reached .delimiter 4) := sends_of_send rfl rfl
  have h5 : (reached .delimiter 4).Sends [startDelimiter] (reached .length 4) :=
    sends_of_send rfl rfl
  exact h1.append (h2.append (h3.append (h4.append h5)))

/-! ### A frame out of the buffer -/

variable {l : UInt8} {p r : List UInt8}

def relaying (c : Chip G) (l : UInt8) (p : List UInt8) : Chip G :=
  { c with
    transmitter := some (.sending false l p)
    buffer := { c.buffer with readPosition := p.length + 1 } }

theorem sends_octet (ha : c.registers.autoFcs = true) (hl : p.length + 2 < l.toNat) {b : UInt8}
    (hb : c.buffer.octets[p.length + 1]? = some b) :
    (c.relaying l p).Sends [b] (c.relaying l (p ++ [b])) := by
  have hstep := TransmitFramer.step_sending (i := (c.relaying l p).transmitInput) false ha hl
  have hnext : TransmitFramer.offered false p (c.relaying l p).transmitInput = .relay (some b) :=
    congrArg TransmitOutput.relay hb
  rw [hnext] at hstep
  have hsent := sends_of_relay (c := c.relaying l p) rfl hb hstep
  have hlength : (p ++ [b]).length + 1 = p.length + 1 + 1 := by simp
  unfold relaying at hsent ⊢
  rw [hlength]
  exact hsent

theorem sends_octets (ha : c.registers.autoFcs = true) (hl : (p ++ r).length + 2 ≤ l.toNat)
    (hb : c.buffer.octets = l :: p ++ r) : (c.relaying l p).Sends r (c.relaying l (p ++ r)) := by
  induction r generalizing p with
  | nil =>
    rw [List.append_nil]
    rfl
  | cons b r ih =>
    have hassoc : p ++ b :: r = p ++ [b] ++ r := by simp
    have hlength : (p ++ b :: r).length = p.length + 1 + r.length := by
      rw [List.length_append, List.length_cons]
      omega
    have hfirst : c.buffer.octets[p.length + 1]? = some b := by simp [hb]
    have hsent := sends_octet (l := l) ha (by omega) hfirst
    rw [hassoc] at hl ⊢
    exact hsent.append (ih hl (by rw [hb, List.cons_append, hassoc]; rfl))

/-! ### The end of a frame -/

theorem finished_finishTransmission (c : Chip G) : c.Finished c.finishTransmission := by
  have hactivity := c.activity_finishTransmission
  let entered := c.enter .pllOn
  let d : Chip G := { entered with registers := entered.registers.setOutcome 0 }
  have habandon (k : Chip G) : k.abandonTransmission.registers = k.registers ∧
      k.abandonTransmission.buffer = k.buffer := by
    unfold abandonTransmission endTransmission
    simp only
    split
    · exact ⟨rfl, rfl⟩
    · exact ⟨rfl, rfl⟩
  have houtcome (v : UInt8) : (v &&& 0x1F ||| 0) &&& 0xE0 = 0 := by
    rw [UInt8.or_zero, UInt8.and_assoc]
    exact UInt8.and_zero
  constructor
  case state_eq => exact congrArg Activity.state hactivity
  case transmitter_eq => exact congrArg Activity.transmitter hactivity
  case owed_eq => exact congrArg Activity.owed hactivity
  case outcome_eq =>
    change (d.raise .txEnd).abandonTransmission.registers.get .trxState &&& 0xE0 = 0
    rw [(habandon _).1, d.get_raise .txEnd (by decide)]
    refine Eq.trans ?_ (houtcome (entered.registers.get .trxState))
    exact congrArg (· &&& 0xE0) (RegisterFile.get_set_self _ _ _)
  case buffer_eq =>
    change (d.raise .txEnd).abandonTransmission.buffer = c.buffer
    rw [(habandon _).2, raise_eq]
    rfl

/-- The check octets end the frame and with it the transmission. -/
theorem sends_checks {isAck : Bool} (hf : c.transmitter = some (.sending isAck l p))
    (hl : ¬p.length + 2 < l.toNat) : ∃ d, c.Sends (Crc.octets (Crc.ofList p)) d ∧ c.Finished d := by
  let f := TransmitFramer.sending isAck l p
  let second : Chip G := { c with transmitter := some { f with phase := .check2 } }
  let last : Chip G := { c with transmitter := some { f with phase := .done } }
  have hfirst : c.Sends [Crc.first (Crc.ofList p)] second :=
    sends_of_send hf (TransmitFramer.step_firstCheck hl)
  have hlast : second.Sends [Crc.second (Crc.ofList p)] last.finishTransmission :=
    sends_of_step rfl (TransmitFramer.step_secondCheck f second.transmitInput) rfl
  obtain ⟨hstate, htransmitter, howed, houtcome, hbuffer⟩ := last.finished_finishTransmission
  exact ⟨_, hfirst.append hlast, hstate, htransmitter, howed, houtcome, hbuffer⟩

/-- A frame in the buffer goes on air with the check octets that belong to it. -/
theorem sends_frame (hf : c.transmitter = some .start) (ho : c.owed = none)
    (ha : c.registers.autoFcs = true) (hb : c.buffer.octets = l :: p)
    (hr : c.buffer.readPosition = 0) (hl : p.length + 2 = l.toNat) :
    ∃ d, c.Sends (onAir l p (Crc.first (Crc.ofList p)) (Crc.second (Crc.ofList p))) d ∧
      d.transmitter = none := by
  let opened : Chip G :=
    { c with transmitter := some { TransmitFramer.start with phase := .length, counter := 4 } }
  have hnext : opened.buffer.front? = some l := by
    change c.buffer.octets[c.buffer.readPosition]? = some l
    rw [hb, hr]
    rfl
  have hlength : opened.Sends [l] (c.relaying l []) := by
    have hsent := sends_of_relay (c := opened) rfl hnext
      (TransmitFramer.step_length (i := opened.transmitInput) rfl ha ho hnext)
    have hposition : opened.buffer.readPosition + 1 = 1 := by
      change c.buffer.readPosition + 1 = 1
      rw [hr]
    rw [hposition] at hsent
    exact hsent
  have hoctets : (c.relaying l []).Sends p (c.relaying l p) :=
    sends_octets (p := []) ha (by simp; omega) hb
  obtain ⟨d, hchecks, hd⟩ := sends_checks (c := c.relaying l p) rfl (by omega)
  have hsent := (sends_syncHeader hf).append (hlength.append (hoctets.append hchecks))
  refine ⟨d, ?_, hd.transmitter_eq⟩
  have hair : onAir l p (Crc.first (Crc.ofList p)) (Crc.second (Crc.ofList p)) =
      syncHeader ++ ([l] ++ (p ++ Crc.octets (Crc.ofList p))) := by
    simp [onAir, Crc.octets]
  rw [hair]
  exact hsent

/-! ### An acknowledgement -/

def answering (c : Chip G) (p : List UInt8) : Chip G :=
  { c with transmitter := some (.sending true ackLength p) }

/-- What is owed is sent without a look at the frame buffer. -/
theorem sends_acknowledgement {k : Acknowledgement} (hf : c.transmitter = some .start)
    (ho : c.owed = some k) (ha : c.registers.autoFcs = true) :
    let crc := Crc.ofList (k.octets c.sequence)
    ∃ d, c.Sends (onAir ackLength (k.octets c.sequence) (Crc.first crc) (Crc.second crc)) d ∧
      c.Finished d := by
  intro crc
  let opened : Chip G :=
    { c with transmitter := some { TransmitFramer.start with phase := .length, counter := 4 } }
  have howed : c.owed.isSome := by simp [ho]
  let control : UInt8 := if k = .pending then 0x12 else 0x02
  have hlength : opened.Sends [ackLength] (c.answering []) :=
    sends_of_send (c := opened) rfl (TransmitFramer.step_length_of_owed rfl ha howed)
  have hstep (p : List UInt8) (hp : p.length + 2 < ackLength.toNat) :=
    TransmitFramer.step_sending (i := (c.answering p).transmitInput) true ha hp
  have hcontrol : (c.answering []).Sends [control] (c.answering [control]) := by
    have hoffered : TransmitFramer.offered true [] (c.answering []).transmitInput =
        .send control := by
      change TransmitOutput.send (if c.owed = some .pending then 0x12 else 0x02) = _
      simp only [ho, Option.some.injEq, control]
    have h := hstep [] (by decide)
    rw [hoffered] at h
    exact sends_of_send rfl h
  have hzero : (c.answering [control]).Sends [0] (c.answering [control, 0]) :=
    sends_of_send rfl (hstep [control] (by simp; decide))
  have hsequence : (c.answering [control, 0]).Sends [c.sequence]
      { c.answering [control, 0, c.sequence] with owed := none } :=
    sends_of_step rfl (hstep [control, 0] (by simp; decide)) rfl
  obtain ⟨d, hchecks, hd⟩ := sends_checks
    (c := { c.answering [control, 0, c.sequence] with owed := none }) rfl (by simp; decide)
  have hsent := (sends_syncHeader hf).append (hlength.append (hcontrol.append (hzero.append
    (hsequence.append hchecks))))
  obtain ⟨hstate, htransmitter, howed, houtcome, hbuffer⟩ := hd
  exact ⟨d, hsent, hstate, htransmitter, howed, houtcome, hbuffer⟩

end Chip

end Transceiver
