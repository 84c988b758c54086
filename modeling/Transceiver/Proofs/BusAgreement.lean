import Transceiver.Proofs.BusAccess

/-!
# Agreement of the two ways of attachment

A node that leaves the length register alone cannot tell which way its transceiver is attached, and
neither can the medium. `Alike` relates a serial radio at rest to the same chip in data memory,
which keeps of the pins only the sleep line. Every operation has the same answer for both and leaves
them alike, so that the two go through the same answers and the same chips in any run.
-/

namespace Transceiver

variable {G : Type}

inductive RadioOperation where
  | readRegister (address : UInt8)
  | writeRegister (address v : UInt8)
  | modifyRegister (address : UInt8) (g : UInt8 → UInt8)
  | command (command : Command)
  | readFrame (index : UInt8)
  | writeFrame (index v : UInt8)
  | setSleep (level : Bool)
  | pulseReset
  | upload (image : List UInt8)
  | download (limit : Nat)
  | transmit
  | receive (carrier : Bool) (b : UInt8)
  | advance (now : Instant)
  | setTime (now : Instant)

/-- The node leaves the length register alone and loads a frame only into an empty buffer, which has
room for it. -/
def RadioOperation.Admissible (c : Chip G) : RadioOperation → Prop
  | .writeRegister address _ | .modifyRegister address _ => Register.ofByte address ≠ .tstRxLength
  | .upload image => c.buffer.octets = [] ∧ image.length ≤ 128
  | _ => True

namespace Radio

variable {α : Type}

/-- A serial radio at rest and the same chip in data memory. -/
inductive Alike : Radio G → Radio G → Prop where
  | intro (s : SerialRadio G) (hidle : s.Idle) (hlength : s.chip.LengthShown) :
      Alike (serial s) (mapped ⟨s.chip, s.sleepPin⟩)

def Agree (x y : α × Radio G) : Prop := x.1 = y.1 ∧ Alike x.2 y.2

variable {r q : Radio G}

theorem alike_attach {c : Chip G} (h : c.LengthShown) :
    Alike (serial (.attach c)) (mapped (.attach c)) := .intro _ (SerialRadio.idle_attach c) h

theorem Alike.chip_eq (h : Alike r q) : r.chip = q.chip := by
  obtain ⟨s, hidle, hlength⟩ := h
  rfl

theorem Alike.lengthShown (h : Alike r q) : r.chip.LengthShown := by
  obtain ⟨s, hidle, hlength⟩ := h
  exact hlength

theorem Alike.withChip (h : Alike r q) {c : Chip G} (hc : c.LengthShown) :
    Alike (r.withChip c) (q.withChip c) := by
  obtain ⟨s, hidle, hlength⟩ := h
  exact .intro { s with chip := c } ⟨hidle.selectPin, hidle.resetPin⟩ hc

theorem Agree.map {β : Type} {x y : α × Radio G} (h : Agree x y) (f : α → β) :
    Agree (x.map f id) (y.map f id) := ⟨congrArg f h.1, h.2⟩

/-! ### The bus -/

theorem Alike.readRegister (h : Alike r q) (x : Register) :
    Agree (RegisterBus.readRegister r x) (RegisterBus.readRegister q x) := by
  obtain ⟨s, hidle, hlength⟩ := h
  change Agree ((RegisterBus.readRegister s x).map id serial)
    ((RegisterBus.readRegister (MappedRadio.mk s.chip s.sleepPin) x).map id mapped)
  rw [SerialRadio.readRegister_of_idle hidle, MappedRadio.readRegister_eq]
  refine ⟨rfl, .intro { s with
    transaction := s.transaction.restart
    chip := (s.chip.readRegister x).2 } ⟨hidle.selectPin, hidle.resetPin⟩ ?_⟩
  exact hlength.congr (s.chip.lengthPlaces_readRegister x)

theorem Alike.writeRegister (h : Alike r q) {x : Register} (hx : x ≠ .tstRxLength) (v : UInt8) :
    Alike (RegisterBus.writeRegister r x v) (RegisterBus.writeRegister q x v) := by
  obtain ⟨s, hidle, hlength⟩ := h
  change Alike (serial (RegisterBus.writeRegister s x v))
    (mapped (RegisterBus.writeRegister (MappedRadio.mk s.chip s.sleepPin) x v))
  rw [SerialRadio.writeRegister_of_idle hidle, MappedRadio.writeRegister_eq]
  refine .intro { s with
    transaction := s.transaction.restart
    chip := s.chip.writeRegister x v } ⟨hidle.selectPin, hidle.resetPin⟩ ?_
  exact hlength.writeRegister hx v

theorem Alike.readFrame (h : Alike r q) (index : UInt8) :
    Agree (RegisterBus.readFrame r index) (RegisterBus.readFrame q index) := by
  obtain ⟨s, hidle, hlength⟩ := h
  change Agree ((RegisterBus.readFrame s index).map id serial)
    ((RegisterBus.readFrame (MappedRadio.mk s.chip s.sleepPin) index).map id mapped)
  rw [SerialRadio.readFrame_of_idle hidle, MappedRadio.readFrame_eq _ hlength]
  exact ⟨rfl, .intro { s with transaction := ⟨.command, (FrameIndex.ofByte index).next⟩ }
    ⟨hidle.selectPin, hidle.resetPin⟩ hlength⟩

theorem Alike.writeFrame (h : Alike r q) (index v : UInt8) :
    Alike (RegisterBus.writeFrame r index v) (RegisterBus.writeFrame q index v) := by
  obtain ⟨s, hidle, hlength⟩ := h
  change Alike (serial (RegisterBus.writeFrame s index v))
    (mapped (RegisterBus.writeFrame (MappedRadio.mk s.chip s.sleepPin) index v))
  rw [SerialRadio.writeFrame_of_idle hidle, MappedRadio.writeFrame_eq]
  refine .intro { s with
    transaction := ⟨.command, (FrameIndex.ofByte index).next⟩
    chip := (s.chip.uploadFrame (FrameIndex.ofByte index) v).2 }
    ⟨hidle.selectPin, hidle.resetPin⟩ ?_
  exact Chip.lengthShown_of_not_received (FrameBuffer.received_poke ..)

theorem Alike.setSleep (h : Alike r q) (level : Bool) :
    Alike (RegisterBus.setSleep r level) (RegisterBus.setSleep q level) := by
  obtain ⟨s, hidle, hlength⟩ := h
  change Alike (serial (s.setSleepPin level))
    (mapped (RegisterBus.setSleep (MappedRadio.mk s.chip s.sleepPin) level))
  rw [MappedRadio.setSleep_eq]
  by_cases hs : s.sleepPin = level
  · rw [← hs]
    simp only [SerialRadio.setSleepPin, MappedRadio.setLines, if_true, Bool.false_eq_true, if_false]
    exact .intro s hidle hlength
  · simp only [SerialRadio.setSleepPin, MappedRadio.setLines, if_neg hs, Bool.false_eq_true,
      if_false]
    exact .intro { s with sleepPin := level, chip := s.chip.sleepPin level }
      ⟨hidle.selectPin, hidle.resetPin⟩ (hlength.congr (s.chip.lengthPlaces_sleepPin level))

theorem Alike.pulseReset (h : Alike r q) :
    Alike (RegisterBus.pulseReset r) (RegisterBus.pulseReset q) := by
  obtain ⟨s, hidle, hlength⟩ := h
  change Alike (serial (RegisterBus.pulseReset s))
    (mapped (RegisterBus.pulseReset (MappedRadio.mk s.chip s.sleepPin)))
  rw [SerialRadio.pulseReset_of_idle hidle, MappedRadio.pulseReset_eq]
  exact .intro { s with chip := s.chip.reset } ⟨hidle.selectPin, hidle.resetPin⟩
    Chip.lengthShown_reset

theorem Alike.upload (h : Alike r q) {image : List UInt8} (he : r.chip.buffer.octets = [])
    (hl : image.length ≤ 128) :
    Alike (RegisterBus.upload r image) (RegisterBus.upload q image) := by
  obtain ⟨s, hidle, hlength⟩ := h
  have hreceived : s.chip.buffer.received = false := by
    apply eq_false_of_ne_true
    exact fun hr => Chip.octets_ne_nil_of_received hlength hr he
  change Alike (serial (RegisterBus.upload s image))
    (mapped (RegisterBus.upload (MappedRadio.mk s.chip s.sleepPin) image))
  rw [SerialRadio.upload_of_idle hidle, MappedRadio.upload_of_empty _ hreceived he hl]
  exact .intro { s with
    transaction := s.transaction.restart
    chip := s.chip.pushAll image } ⟨hidle.selectPin, hidle.resetPin⟩ (hlength.pushAll image)

theorem Alike.modifyRegister (h : Alike r q) {x : Register} (hx : x ≠ .tstRxLength)
    (g : UInt8 → UInt8) :
    Alike (RegisterBus.modifyRegister r x g) (RegisterBus.modifyRegister q x g) := by
  obtain ⟨hv, hnext⟩ := h.readRegister x
  simp only [RegisterBus.modifyRegister, hv]
  exact hnext.writeRegister hx _

theorem Alike.readFrom (h : Alike r q) (index : UInt8) (n : Nat) :
    Agree (RegisterBus.readFrom r index n) (RegisterBus.readFrom q index n) := by
  induction n generalizing r q index with
  | zero => exact ⟨rfl, h⟩
  | succ n ih =>
    obtain ⟨hb, hnext⟩ := h.readFrame index
    obtain ⟨hrest, hlast⟩ := ih hnext (index + 1)
    refine ⟨?_, hlast⟩
    simp only [RegisterBus.readFrom, hb, hrest]

theorem Alike.download (h : Alike r q) (limit : Nat) :
    Agree (RegisterBus.download r limit) (RegisterBus.download q limit) := by
  obtain ⟨hlength, hnext⟩ := h.readFrame 0
  simp only [RegisterBus.download, hlength]
  exact hnext.readFrom 0 _

/-! ### Any operation -/

theorem Alike.onChip (h : Alike r q) {f : Chip G → α × Chip G}
    (hf : ∀ c : Chip G, c.LengthShown → (f c).2.LengthShown) : Agree (r.onChip f) (q.onChip f) := by
  unfold Radio.onChip
  rw [h.chip_eq]
  exact ⟨rfl, h.withChip (hf q.chip (h.chip_eq ▸ h.lengthShown))⟩

variable [RandomWords G]

def perform (r : Radio G) : RadioOperation → List UInt8 × Radio G
  | .readRegister address => (RegisterBus.readRegister r (.ofByte address)).map ([·]) id
  | .writeRegister address v => ([], RegisterBus.writeRegister r (.ofByte address) v)
  | .modifyRegister address g => ([], RegisterBus.modifyRegister r (.ofByte address) g)
  | .command command => ([], RegisterBus.command r command)
  | .readFrame index => (RegisterBus.readFrame r index).map ([·]) id
  | .writeFrame index v => ([], RegisterBus.writeFrame r index v)
  | .setSleep level => ([], RegisterBus.setSleep r level)
  | .pulseReset => ([], RegisterBus.pulseReset r)
  | .upload image => ([], RegisterBus.upload r image)
  | .download limit => RegisterBus.download r limit
  | .transmit => (r.onChip Chip.transmit).map ([·]) id
  | .receive carrier b => (r.onChip fun c => c.receive carrier b).map ([·]) id
  | .advance now => r.onChip fun c => ([], c.advance now)
  | .setTime now => r.onChip fun c => ([], c.setTime now)

def trace (r : Radio G) : List RadioOperation → List (List UInt8 × Chip G)
  | [] => []
  | op :: ops => ((r.perform op).1, (r.perform op).2.chip) :: (r.perform op).2.trace ops

def Admits (r : Radio G) : List RadioOperation → Prop
  | [] => True
  | op :: ops => op.Admissible r.chip ∧ (r.perform op).2.Admits ops

theorem Alike.perform (h : Alike r q) {op : RadioOperation} (hop : op.Admissible r.chip) :
    Agree (r.perform op) (q.perform op) := by
  cases op with
  | readRegister address => exact (h.readRegister _).map _
  | writeRegister address v => exact ⟨rfl, h.writeRegister hop v⟩
  | modifyRegister address g => exact ⟨rfl, h.modifyRegister hop g⟩
  | command command => exact ⟨rfl, h.writeRegister (by decide) command.code⟩
  | readFrame index => exact (h.readFrame index).map _
  | writeFrame index v => exact ⟨rfl, h.writeFrame index v⟩
  | setSleep level => exact ⟨rfl, h.setSleep level⟩
  | pulseReset => exact ⟨rfl, h.pulseReset⟩
  | upload image => exact ⟨rfl, h.upload hop.1 hop.2⟩
  | download limit => exact h.download limit
  | transmit => exact (h.onChip fun c hc => hc.congr c.lengthPlaces_transmit).map _
  | receive carrier b => exact (h.onChip fun c hc => hc.receive carrier b).map _
  | advance now => exact h.onChip fun c hc => hc.congr (c.lengthPlaces_advance now)
  | setTime now => exact h.onChip fun c hc => hc

theorem Alike.trace_eq (h : Alike r q) {ops : List RadioOperation} (hops : r.Admits ops) :
    r.trace ops = q.trace ops := by
  induction ops generalizing r q with
  | nil => rfl
  | cons op ops ih =>
    obtain ⟨hop, hrest⟩ := hops
    obtain ⟨hanswer, hnext⟩ := h.perform hop
    simp only [trace, hanswer, hnext.chip_eq, ih hnext hrest]

/-- Whatever the node, the medium and the clock do, as long as the node leaves the length register
alone and loads frames into an empty buffer, the serial radio and the one in data memory give the
same answers and have the same chip after each operation, with the same signals given. -/
theorem attachments_agree (config : Configuration) (now : Instant) (g : G)
    (ops : List RadioOperation)
    (h : (Radio.serial (.attach (.build config now g))).Admits ops) :
    (Radio.serial (.attach (.build config now g))).trace ops =
      (Radio.mapped (.attach (.build config now g))).trace ops :=
  (alike_attach (Chip.lengthShown_build config now g)).trace_eq h

/-- A frame is loaded and sent, another one is heard and read out. -/
theorem attachments_agree_both_ways :
    let config : Configuration := ⟨.at86rf231, Vector.replicate 8 0, some 5, 0⟩
    let c : Chip Mixer := .build config (Instant.mk 0) (Mixer.mk 0)
    let ops : List RadioOperation :=
      [.upload [3, 1, 2, 3], .command .txStart, .transmit, .command .rxOn, .receive true 0,
        .receive true startDelimiter, .receive true 2, .receive true 7, .readFrame 0,
        .writeRegister 0x0E 0xFF, .setSleep true, .pulseReset, .download 128]
    (Radio.serial (.attach c)).Admits ops ∧
      (Radio.serial (.attach c)).trace ops = (Radio.mapped (.attach c)).trace ops := by
  intro config c ops
  have h : (Radio.serial (.attach c)).Admits ops := by
    refine ⟨⟨rfl, by decide⟩, trivial, trivial, trivial, trivial, trivial, trivial, trivial,
      trivial, ?_, trivial, trivial, trivial, trivial⟩
    change Register.ofByte 0x0E ≠ .tstRxLength
    decide
  exact ⟨h, attachments_agree config (Instant.mk 0) (Mixer.mk 0) ops h⟩

end Radio

end Transceiver
