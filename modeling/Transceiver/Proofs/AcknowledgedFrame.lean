import Transceiver.Proofs.ReceivedFrame

/-!
# The sequence number of an acknowledged frame

An acknowledgement carries the sequence number that the chip noted last. Whether a frame is to be
acknowledged is decided when it is complete, whether its sequence number is noted was decided octets
before, and under other conditions. `acknowledged_sequence` says which number it is that a scheduled
acknowledgement will carry, for every frame and whatever else happens to the chip while the frame
comes in, as long as the node keeps its hands off the frame buffer.
-/

namespace Transceiver

def Operation.writesFrame : Operation → Bool
  | .pushFrame _ | .uploadFrame _ _ | .pokeFrame _ _ | .clearFrame | .prepareFrame => true
  | _ => false

@[simp] def ReceiveEffect.IsQuiet : ReceiveEffect → Prop
  | .frameStart _ | .push _ | .filterCheck _ => False
  | _ => True

namespace ReceiveFramer

def InFrame (f : ReceiveFramer) : Prop :=
  f.phase = .inPacket ∨ f.phase = .check1 ∨ f.phase = .check2

/-- The framer has these octets of a frame behind it, and these of its check octets. -/
def Past (f : ReceiveFramer) (p checks : List UInt8) : Prop :=
  checks = [] ∧ f.counter.toNat = p.length ∧ (f.phase = .inPacket ∨ f.phase = .check1) ∨
    (∃ a, checks = [a]) ∧ f.phase = .check2

instance (f : ReceiveFramer) : Decidable f.InFrame := inferInstanceAs (Decidable (_ ∨ _ ∨ _))

variable {f : ReceiveFramer} {i : ReceiveInput}

theorem InFrame.ne_done (h : f.InFrame) : f.phase ≠ .done := by
  rcases h with h | h | h <;> simp [h]

theorem Past.inFrame {p checks : List UInt8} (h : f.Past p checks) : f.InFrame := by
  rcases h with ⟨-, -, hp | hp⟩ | ⟨-, hp⟩
  · exact .inl hp
  · exact .inr (.inl hp)
  · exact .inr (.inr hp)

/-- The length opens a frame, unless it leaves no room for the check octets. -/
theorem openFrame_cases (f : ReceiveFramer) (b : UInt8) (autoFcs : Bool) :
    f.openFrame b autoFcs = ({ f with phase := .scanning }, []) ∨
      ∃ g, f.openFrame b autoFcs = (g, [.frameStart (b &&& 0x7F)]) ∧ g.Past [] [] := by
  unfold openFrame
  generalize (if autoFcs then 2 else 0 : UInt8) = fcsLength
  simp only
  split
  · exact .inl rfl
  · refine .inr ⟨_, rfl, .inl ⟨rfl, rfl, ?_⟩⟩
    by_cases hl : b &&& 0x7F = fcsLength <;> simp [hl]

theorem takeOctet_of_inFrame (hp : f.phase = .inPacket) {b : UInt8} {autoFcs : Bool}
    (h : (f.takeOctet b autoFcs).1.InFrame) :
    let offset := (f.counter + 1).toNat
    ((f.takeOctet b autoFcs).1.phase = .inPacket ∨ (f.takeOctet b autoFcs).1.phase = .check1) ∧
      (f.takeOctet b autoFcs).1.counter = f.counter + 1 ∧
      (f.takeOctet b autoFcs).2 =
        .push b :: if offset ∈ checkOffsets then [.filterCheck offset] else [] := by
  intro offset
  unfold takeOctet at h ⊢
  simp only at h ⊢
  by_cases ha : autoFcs = true
  · rw [if_pos ha]
    refine ⟨?_, rfl, rfl⟩
    by_cases hl : withoutFcs f.length ≤ f.counter + 1 <;> simp [hl]
  · rw [if_neg ha] at h ⊢
    by_cases hl : f.length ≤ f.counter + 1
    · rw [if_pos hl] at h
      rcases h with h | h | h <;> cases h
    · rw [if_neg hl]
      exact ⟨.inl hp, rfl, rfl⟩

/-- Without a carrier the frame is over. -/
theorem carrier_of_inFrame (hf : f.InFrame) (h : (f.step i).1.InFrame) : i.carrier = true := by
  refine eq_true_of_ne_false fun hc => ?_
  rw [step_of_silence hf.ne_done hc] at h
  unfold loseCarrier at h
  rcases hf with hf | hf | hf <;> simp [hf, InFrame] at h

/-- A step inside a frame takes an octet of it or the first of its check octets. -/
theorem step_of_inFrame (hf : f.InFrame) (h : (f.step i).1.InFrame) :
    let offset := (f.counter + 1).toNat
    f.phase = .inPacket ∧
        ((f.step i).1.phase = .inPacket ∨ (f.step i).1.phase = .check1) ∧
        (f.step i).1.counter = f.counter + 1 ∧
        (f.step i).2.effects =
          .push i.octet :: (if offset ∈ checkOffsets then [.filterCheck offset] else []) ∨
      f.phase = .check1 ∧ (f.step i).1.phase = .check2 ∧
        (f.step i).2.effects = [.push i.octet] := by
  intro offset
  have hc := carrier_of_inFrame hf h
  rw [step_of_carrier hf.ne_done hc] at h ⊢
  rcases hf with hp | hp | hp
  · have hheard : f.hear i.octet i.autoFcs = f.takeOctet i.octet i.autoFcs := by
      unfold hear
      rw [hp]
    rw [hheard] at h ⊢
    exact .inl ⟨hp, takeOctet_of_inFrame hp h⟩
  · have hheard : f.hear i.octet i.autoFcs =
        ({ f with phase := .check2, firstCheck := i.octet }, [.push i.octet]) := by
      unfold hear
      rw [hp]
    rw [hheard]
    exact .inr ⟨hp, rfl, rfl⟩
  · have hheard : (f.hear i.octet i.autoFcs).1.phase = .done := by
      unfold hear
      rw [hp]
    rcases h with h | h | h <;> cases hheard.symm.trans h

end ReceiveFramer

namespace Chip

variable {G : Type} {c d e : Chip G}

def InFrame (c : Chip G) : Prop := ∃ f, c.receiver = some f ∧ f.InFrame

theorem inFrame_iff : c.InFrame ↔ c.receiver.any (fun f => decide f.InFrame) = true := by
  simp [InFrame, Option.any_eq_true]

instance (c : Chip G) : Decidable c.InFrame := decidable_of_iff _ inFrame_iff.symm

/-! ### What the node can do meanwhile -/

structure SameFrame (c d : Chip G) : Prop where
  receiver_eq : d.receiver = c.receiver
  octets_eq : d.buffer.octets = c.buffer.octets
  sequence_eq : d.sequence = c.sequence

theorem sameFrame_refl (c : Chip G) : c.SameFrame c := ⟨rfl, rfl, rfl⟩

theorem SameFrame.trans (h : c.SameFrame d) (h' : d.SameFrame e) : c.SameFrame e :=
  ⟨h'.receiver_eq.trans h.receiver_eq, h'.octets_eq.trans h.octets_eq,
    h'.sequence_eq.trans h.sequence_eq⟩

theorem sameFrame_abandonTransmission (c : Chip G) : c.SameFrame c.abandonTransmission := by
  unfold abandonTransmission endTransmission
  simp only
  split
  · exact ⟨rfl, rfl, rfl⟩
  · exact ⟨rfl, rfl, rfl⟩

theorem sameFrame_advance (c : Chip G) (now : Instant) : c.SameFrame (c.advance now) := by
  rw [advance_eq]
  exact ⟨rfl, rfl, rfl⟩

theorem sameFrame_sleepPin (c : Chip G) (level : Bool) : c.SameFrame (c.sleepPin level) := by
  unfold sleepPin
  split
  · exact ⟨rfl, rfl, rfl⟩
  · exact ⟨rfl, rfl, rfl⟩
  · exact sameFrame_refl c

/-- A command that leaves the receiver on leaves the frame alone. -/
theorem sameFrame_execute {f : ReceiveFramer} (hf : c.receiver = some f) {command : Command}
    (h : (c.execute command).receiver ≠ none) : c.SameFrame (c.execute command) := by
  have hstopped (hs : (c.activity.execute command).receiver = none) :
      c.SameFrame (c.execute command) :=
    absurd ((congrArg Activity.receiver (c.activity_execute command)).trans hs) h
  have hrestarted (b : Chip G) (hb : c.SameFrame b) :
      c.SameFrame b.abandonTransmission.beginReception := by
    have hab := hb.trans b.sameFrame_abandonTransmission
    have hreceiver := hab.receiver_eq.trans hf
    unfold beginReception
    rw [hreceiver]
    exact hab
  cases command with
  | nop | forcePllOn | txOn => exact ⟨rfl, rfl, rfl⟩
  | txStart | forceTrxOff | trxOff | txAretOn => exact hstopped rfl
  | rxOn => exact hrestarted (c.enter .rxOn) ⟨rfl, rfl, rfl⟩
  | rxAackOn => exact hrestarted (Chip.enter _ .rxAackOn) ⟨rfl, rfl, rfl⟩

theorem sameFrame_writeRegister {f : ReceiveFramer} (hf : c.receiver = some f) {r : Register}
    {v : UInt8} (h : (c.writeRegister r v).receiver ≠ none) :
    c.SameFrame (c.writeRegister r v) := by
  unfold writeRegister at h ⊢
  split
  · exact sameFrame_refl c
  · rename_i hr
    rw [if_neg hr] at h
    simp only at h ⊢
    split
    · rename_i hstate
      rw [if_pos hstate] at h
      let written : Chip G := { c with registers := c.registers.set r v }
      have hexecuted := sameFrame_execute (c := written) hf h
      exact ⟨hexecuted.receiver_eq, hexecuted.octets_eq, hexecuted.sequence_eq⟩
    · exact ⟨rfl, rfl, rfl⟩

/-! ### What an octet on the medium can do meanwhile -/

theorem receiver_of_storeOctet {b : UInt8} (h : (c.storeOctet b).2.InFrame) :
    c.buffer.octets.length < FrameBuffer.capacity ∧ (c.storeOctet b).2.receiver = c.receiver := by
  by_cases hroom : c.buffer.octets.length < FrameBuffer.capacity
  · rw [storeOctet_of_room hroom]
    exact ⟨hroom, rfl⟩
  · -- Without room the framer gives the frame up.
    rw [storeOctet_of_full hroom] at h
    obtain ⟨f, hf, hp⟩ := h
    obtain ⟨g, -, rfl⟩ := Option.map_eq_some_iff.1 hf
    rcases hp with hp | hp | hp <;> cases hp

/-- A frame that goes on behind a question to the filter was not refused. -/
theorem takes_of_filter {offset : Nat} (h : (c.filter offset).2.InFrame) :
    c.Takes c.buffer.octets offset := by
  by_contra ht
  rw [c.filter_of_refuses ht] at h
  obtain ⟨f, hf, hp⟩ := h
  obtain ⟨g, -, rfl⟩ := Option.map_eq_some_iff.1 hf
  rcases hp with hp | hp | hp <;> cases hp

theorem receiver_of_filter {offset : Nat} (h : (c.filter offset).2.InFrame) :
    (c.filter offset).2.receiver = c.receiver ∧ (c.filter offset).2.buffer = c.buffer ∧
      (c.filter offset).2.sequence =
        (FrameFilter.check c.buffer.octets offset c.localAddress).sequence.getD c.sequence := by
  rw [c.filter_of_takes (takes_of_filter h)]
  simp only
  split
  · rw [raise_eq, noteSequence_eq]
    exact ⟨rfl, rfl, rfl⟩
  · rw [noteSequence_eq]
    exact ⟨rfl, rfl, rfl⟩

variable [RandomWords G]

/-- A framer behind an effect was there before it, unless the effect has made it give the frame up
or pass over it. -/
theorem receiver_of_apply {x : ReceiveEffect} {g : ReceiveFramer}
    (h : (c.apply x).2.receiver = some g) :
    c.receiver = some g ∨ ¬x.IsQuiet ∧ (g.phase = .waiting ∨ g.phase = .overflow) := by
  have hstore {d : Chip G} {b : UInt8} (h : (d.storeOctet b).2.receiver = some g) :
      d.receiver = some g ∨ g.phase = .waiting ∨ g.phase = .overflow := by
    by_cases hroom : d.buffer.octets.length < FrameBuffer.capacity
    · rw [storeOctet_of_room hroom] at h
      exact .inl h
    · rw [storeOctet_of_full hroom] at h
      obtain ⟨f, -, rfl⟩ := Option.map_eq_some_iff.1 h
      exact .inr (.inr rfl)
  cases x with
  | raise event =>
    change (c.raise event).receiver = some g at h
    rw [raise_eq] at h
    exact .inl h
  | frameStart length =>
    have hopened := hstore (d := { c with
      buffer := .forReception
      registers := c.registers.set .tstRxLength length }) h
    exact hopened.imp_right (⟨id, ·⟩)
  | push b => exact (hstore h).imp_right (⟨id, ·⟩)
  | filterCheck offset =>
    change (c.filter offset).2.receiver = some g at h
    by_cases htakes : c.Takes c.buffer.octets offset
    · left
      rw [c.filter_of_takes htakes, noteSequence_eq] at h
      simp only at h
      split at h
      · rw [raise_eq] at h
        exact h
      · exact h
    · rw [c.filter_of_refuses htakes] at h
      obtain ⟨f, -, rfl⟩ := Option.map_eq_some_iff.1 h
      exact .inr ⟨id, .inl rfl⟩
  | frameComplete valid =>
    left
    cases valid with
    | none =>
      change (raise { c with bitErrors := .empty, lastValid := false } .rxEnd).receiver = _ at h
      rw [raise_eq] at h
      exact h
    | some valid =>
      change (c.completeChecked valid).receiver = some g at h
      rw [completeChecked_eq, raise_eq] at h
      exact h
  | endOfFrame carrier =>
    have hturned := congrArg Activity.receiver c.activity_turnAround
    split at hturned
    · cases h.symm.trans hturned
    · exact .inl (hturned.symm.trans h)
  | discarded => exact .inl h

theorem receiver_of_carryOut {effects : List ReceiveEffect} {g : ReceiveFramer}
    (h : (c.carryOut effects).receiver = some g) : c.receiver = some g ∨
      (∃ x ∈ effects, ¬x.IsQuiet) ∧ (g.phase = .waiting ∨ g.phase = .overflow) := by
  refine carryOut_induction (P := fun d => d.receiver = some g → c.receiver = some g ∨
    (∃ x ∈ effects, ¬x.IsQuiet) ∧ (g.phase = .waiting ∨ g.phase = .overflow)) .inl ?_ h
  intro x hx d hd happlied
  rcases receiver_of_apply happlied with hkept | ⟨hquiet, hphase⟩
  · exact hd hkept
  · exact .inr ⟨⟨x, hx, hquiet⟩, hphase⟩

/-- A frame goes on as the framer has it, whatever becomes of the octet. -/
theorem inFrame_step {f : ReceiveFramer} (hf : c.receiver = some f) {carrier : Bool} {b : UInt8}
    (hd : (c.hear carrier b).InFrame) :
    let r := f.step ⟨b, carrier, c.registers.autoFcs⟩
    r.1.InFrame ∧ (c.hear carrier b).receiver = some r.1 := by
  have hheard := hear_of_some hf b carrier
  rw [hheard] at hd ⊢
  obtain ⟨g, hg, hin⟩ := hd
  rcases receiver_of_carryOut hg with hr | ⟨-, hphase⟩
  · cases hr
    exact ⟨hin, hg⟩
  · rcases hin with hin | hin | hin <;> simp [hin] at hphase

theorem sameFrame_after (hc : c.Reachable) {f : ReceiveFramer} (hf : c.receiver = some f)
    {op : Operation} (hop : op.heard? = none) (hw : op.writesFrame = false)
    (h : (c.after op).receiver ≠ none) : c.SameFrame (c.after op) := by
  cases op with
  | writeRegister r v => exact sameFrame_writeRegister hf h
  | command code => exact sameFrame_execute hf h
  | sleepPin level => exact c.sameFrame_sleepPin level
  | advance now => exact c.sameFrame_advance now
  | reset => exact absurd c.receiver_reset h
  | transmit =>
    have ht : c.transmitter = none := hc.orderly.transmitter_eq_none hf
    have hsilent : c.transmit.2 = c := by simp only [transmit, ht]
    change c.SameFrame c.transmit.2
    rw [hsilent]
    exact sameFrame_refl c
  | popFrame =>
    change c.SameFrame { c with buffer := c.buffer.pop.2 }
    unfold FrameBuffer.pop
    split
    · exact ⟨rfl, rfl, rfl⟩
    · exact ⟨rfl, rfl, rfl⟩
  | readRegister | setDataWaiting | setRssi | recordBitErrors | takePacketErrorRate | setTime =>
    exact ⟨rfl, rfl, rfl⟩
  | pushFrame | uploadFrame | pokeFrame | clearFrame | prepareFrame => cases hw
  | receive carrier b => cases hop

/-! ### The frame so far -/

/-- Of a frame the chip holds the length, the octets that the filter has seen, and the first of the
check octets if that is there too. The sequence number was `s` before the frame. -/
structure Inside (c : Chip G) (s l : UInt8) (p checks : List UInt8) : Prop where
  octets_eq : c.buffer.octets = l :: p ++ checks
  sequence_eq : c.sequence = (FrameFilter.sequenceOf? (l :: p)).getD s
  framer : ∃ f, c.receiver = some f ∧ f.Past p checks

variable {s l : UInt8} {p checks : List UInt8}

omit [RandomWords G] in
theorem Inside.congr (h : c.Inside s l p checks) (hd : c.SameFrame d) : d.Inside s l p checks where
  octets_eq := hd.octets_eq.trans h.octets_eq
  sequence_eq := hd.sequence_eq.trans h.sequence_eq
  framer := hd.receiver_eq ▸ h.framer

theorem carryOut_push_of_inFrame {b : UInt8} {r : List ReceiveEffect}
    (h : (c.carryOut (.push b :: r)).InFrame) :
    c.buffer.octets.length < FrameBuffer.capacity ∧ c.carryOut (.push b :: r) =
      carryOut { c with buffer := { c.buffer with octets := c.buffer.octets ++ [b] } } r := by
  by_cases hroom : c.buffer.octets.length < FrameBuffer.capacity
  · exact ⟨hroom, by simp only [carryOut, apply, storeOctet_of_room hroom]⟩
  · have hfull : c.carryOut (.push b :: r) = (c.storeOctet b).2 := by
      simp only [carryOut, apply, storeOctet_of_full hroom]
    rw [hfull] at h
    exact absurd (receiver_of_storeOctet h).1 hroom

/-- One more octet of the frame is stored and filtered. -/
theorem inside_take {n : UInt8} {g : ReceiveFramer} {b : UInt8} (hb : c.buffer.octets = l :: p)
    (hs : c.sequence = (FrameFilter.sequenceOf? (l :: p)).getD s) (hn : n.toNat = p.length)
    (hf : c.receiver = some g) (hcounter : g.counter = n + 1)
    (hg : g.phase = .inPacket ∨ g.phase = .check1) :
    let offset := (n + 1).toNat
    let d := c.carryOut (.push b :: if offset ∈ checkOffsets then [.filterCheck offset] else [])
    d.InFrame → d.Inside s l (p ++ [b]) [] := by
  intro offset d hd
  obtain ⟨hroom, hstored⟩ := carryOut_push_of_inFrame hd
  let stored : Chip G := { c with buffer := { c.buffer with octets := c.buffer.octets ++ [b] } }
  have hrest : d = stored.carryOut
      (if offset ∈ checkOffsets then [.filterCheck offset] else []) := hstored
  have hoctets : stored.buffer.octets = l :: p ++ [b] := by
    simp only [stored, hb]
  have hoffset : offset = (l :: p).length := by
    rw [hb] at hroom
    have hlt : p.length + 1 < 128 := hroom
    change (n + 1).toNat = p.length + 1
    rw [UInt8.toNat_add, hn]
    exact Nat.mod_eq_of_lt (Nat.lt_trans hlt (by decide))
  have hpast : g.Past (p ++ [b]) [] := by
    refine .inl ⟨rfl, ?_, hg⟩
    rw [hcounter, List.length_append]
    exact hoffset
  by_cases hk : offset ∈ checkOffsets
  · have hfiltered : d = (stored.filter offset).2 := by
      rw [hrest, if_pos hk, carryOut_singleton]
      rfl
    rw [hfiltered] at hd ⊢
    obtain ⟨hreceiver, hbuffer, hsequence⟩ := receiver_of_filter hd
    have hnoted := FrameFilter.sequence_check_concat stored.localAddress (l :: p) b
    refine ⟨?_, hsequence.trans ?_, g, hreceiver.trans hf, hpast⟩
    · rw [hbuffer, hoctets, List.append_nil]
      rfl
    · have hold : stored.sequence = (FrameFilter.sequenceOf? (l :: p)).getD s := hs
      rw [hoctets, hoffset, hold, ← Option.getD_or, hnoted]
      rfl
  · have hunfiltered : d = stored := by
      rw [hrest, if_neg hk]
      rfl
    rw [hunfiltered]
    have h3 : (l :: p).length ≠ 3 := fun h3 => hk (hoffset.trans h3 ▸ by decide)
    refine ⟨?_, ?_, g, hf, hpast⟩
    · rw [hoctets, List.append_nil]
      rfl
    · exact hs.trans (congrArg (·.getD s) (FrameFilter.sequenceOf?_concat h3 b).symm)

theorem Inside.hear (h : c.Inside s l p checks) {carrier : Bool} {b : UInt8}
    (hd : (c.hear carrier b).InFrame) : ∃ p' checks', (c.hear carrier b).Inside s l p' checks' := by
  obtain ⟨f, hf, hpast⟩ := h.framer
  let r := f.step ⟨b, carrier, c.registers.autoFcs⟩
  have hheard : c.hear carrier b = carryOut { c with receiver := some r.1 } r.2.effects :=
    hear_of_some hf b carrier
  have hr : r.1.InFrame := (inFrame_step hf hd).1
  rw [hheard] at hd ⊢
  rcases ReceiveFramer.step_of_inFrame hpast.inFrame hr with
    ⟨hphase, hg, hcounter, heffects⟩ | ⟨hphase, hg, heffects⟩
  · rcases hpast with ⟨rfl, hn, -⟩ | ⟨-, hp⟩
    · have hoctets := h.octets_eq
      rw [List.append_nil] at hoctets
      rw [heffects] at hd ⊢
      exact ⟨_, _, inside_take hoctets h.sequence_eq hn rfl hcounter hg hd⟩
    · cases hphase.symm.trans hp
  · rcases hpast with ⟨rfl, hn, -⟩ | ⟨-, hp⟩
    · rw [heffects] at hd ⊢
      rw [(carryOut_push_of_inFrame hd).2]
      refine ⟨p, [b], ?_, h.sequence_eq, r.1, rfl, .inr ⟨⟨b, rfl⟩, hg⟩⟩
      have hoctets := h.octets_eq
      rw [List.append_nil] at hoctets
      exact congrArg (· ++ [b]) hoctets
    · cases hphase.symm.trans hp

theorem Inside.receive (h : c.Inside s l p checks) {carrier : Bool} {b : UInt8}
    (hd : (c.receive carrier b).2.InFrame) :
    ∃ p' checks', (c.receive carrier b).2.Inside s l p' checks' := by
  rw [snd_receive] at hd ⊢
  exact (h.congr (c.sameFrame_advance c.surroundings.now)).hear hd

theorem inside_opening {f : ReceiveFramer} (hf : c.receiver = some f) (hp : f.phase = .matched2)
    {l : UInt8} (hd : (c.receive true l).2.InFrame) :
    (c.receive true l).2.Inside c.sequence (l &&& 0x7F) [] [] := by
  let now := c.advance c.surroundings.now
  have hnow := c.sameFrame_advance c.surroundings.now
  have hnf : now.receiver = some f := hnow.receiver_eq.trans hf
  have hstep : f.hear l now.registers.autoFcs = f.openFrame l now.registers.autoFcs := by
    unfold ReceiveFramer.hear
    rw [hp]
  have hheard : (c.receive true l).2 = _ :=
    (c.snd_receive true l).trans (hear_of_carrier hnf (by simp [hp]) l)
  rw [hstep] at hheard
  rw [hheard] at hd ⊢
  rcases f.openFrame_cases l now.registers.autoFcs with hnone | ⟨g, hopen, hpast⟩
  · rw [hnone] at hd
    obtain ⟨g, hg, hin⟩ := hd
    cases hg
    rcases hin with hin | hin | hin <;> cases hin
  · let opened : Chip G := { now with
      receiver := some g
      buffer := .forReception
      registers := now.registers.set .tstRxLength (l &&& 0x7F) }
    have hroom : opened.buffer.octets.length < FrameBuffer.capacity := Nat.zero_lt_succ _
    have hstored : carryOut { now with receiver := some g } [.frameStart (l &&& 0x7F)] =
        { opened with buffer := { opened.buffer with octets := [l &&& 0x7F] } } := by
      rw [carryOut_singleton]
      exact congrArg Prod.snd (storeOctet_of_room (c := opened) hroom)
    have hold : (FrameFilter.sequenceOf? [l &&& 0x7F]).getD c.sequence = c.sequence := by
      rw [FrameFilter.sequenceOf?_of_short (by simp)]
      rfl
    rw [hopen, hstored]
    exact ⟨rfl, hnow.sequence_eq.trans hold.symm, g, rfl, hpast⟩

/-- What the chip holds of the frame is what has come in, as long as the frame lasts. -/
theorem Inside.run (h : c.Inside s l p checks) (hc : c.Reachable) {ops : List Operation}
    (hops : ∀ op ∈ ops, op.writesFrame = false) (hin : c.Throughout InFrame ops) :
    ∃ p' checks', (c.run ops).Inside s l p' checks' := by
  induction ops generalizing c p checks with
  | nil => exact ⟨p, checks, h⟩
  | cons op ops ih =>
    have hnext : ∃ p' checks', (c.after op).Inside s l p' checks' := by
      have hd := hin.next.now
      cases hop : op.heard? with
      | none =>
        obtain ⟨f, hf, -⟩ := hin.now
        obtain ⟨g, hg, -⟩ := hd
        have hon : (c.after op).receiver ≠ none := by
          rw [hg]
          exact Option.some_ne_none g
        exact ⟨p, checks, h.congr (sameFrame_after hc hf hop (hops op List.mem_cons_self) hon)⟩
      | some heard =>
        cases op with
        | receive carrier b => exact h.receive hd
        | _ => cases hop
    obtain ⟨p', checks', h'⟩ := hnext
    exact ih h' (hc.after op) (fun x hx => hops x (List.mem_cons_of_mem op hx)) hin.next

/-! ### The acknowledgement -/

theorem owed_of_inFrame (hc : c.Reachable) (h : c.InFrame) : c.owed = none := by
  obtain ⟨f, hf, hp⟩ := h
  exact owed_of_receiving hc hf hp.ne_done

/-- The link quality takes the place of the last octet, below the verdict. -/
theorem buffer_storeLinkQuality {frame : List UInt8} {b : UInt8}
    (hb : c.buffer.octets = frame ++ [b]) (hroom : frame.length < 128) (valid : Bool) :
    ∃ q < 0x80, (c.storeLinkQuality valid).buffer =
      { c.buffer with octets := frame ++ [(if valid then 0x80 else 0) ||| q] } := by
  let drawn := drawCorrelation c.bitErrors.packetErrorRate c.generator
  obtain ⟨q, hq, hquality⟩ := qualityOctet_eq drawn.1 valid
  refine ⟨q, hq, ?_⟩
  rw [← hquality, storeLinkQuality_eq c hb hroom]

/-- The link quality takes the place of the octet that completes a frame. -/
theorem octets_carryOut_frameComplete {frame : List UInt8} (hb : c.buffer.octets = frame)
    (hroom : frame.length < 128) (b : UInt8) (valid : Bool) :
    let d := c.carryOut [.push b, .frameComplete (some valid)]
    (∃ q, d.buffer.octets = frame ++ [q]) ∧ d.sequence = c.sequence := by
  intro d
  let stored : Chip G := { c with buffer := { c.buffer with octets := c.buffer.octets ++ [b] } }
  have hcell : c.buffer.octets.length < FrameBuffer.capacity := by
    rw [hb]
    exact hroom
  have hd : d = stored.completeChecked valid := by
    simp only [d, carryOut, apply, storeOctet_of_room hcell, stored]
  have hoctets : stored.buffer.octets = frame ++ [b] := congrArg (· ++ [b]) hb
  obtain ⟨q, -, hq⟩ := buffer_storeLinkQuality hoctets hroom valid
  rw [hd, completeChecked_eq, raise_eq]
  exact ⟨⟨_, congrArg FrameBuffer.octets hq⟩, rfl⟩

/-- Something comes to be owed inside a frame with the second of its check octets only. -/
theorem Inside.schedules (h : c.Inside s l p checks) (hc : c.Reachable) {carrier : Bool}
    {b : UInt8} (ho : (c.receive carrier b).2.owed ≠ none) :
    ∃ a q, (c.receive carrier b).2.buffer.octets = l :: p ++ [a, q] ∧
      (c.receive carrier b).2.sequence = c.sequence := by
  obtain ⟨f, hf, hpast⟩ := h.framer
  have hnone : c.owed = none := owed_of_inFrame hc ⟨f, hf, hpast.inFrame⟩
  have hnow := c.sameFrame_advance c.surroundings.now
  rcases receive_cases c carrier b with ⟨hr, -⟩ | ⟨g, hg, ⟨hp, -⟩ | ⟨hp, valid, he⟩ |
    ⟨-, g', effects, hroutine, he⟩⟩
  · cases hf.symm.trans hr
  · cases hf.symm.trans hg
    exact absurd hp hpast.inFrame.ne_done
  · cases hf.symm.trans hg
    rcases hpast with ⟨-, -, hp' | hp'⟩ | ⟨⟨a, rfl⟩, -⟩
    · cases hp.symm.trans hp'
    · cases hp.symm.trans hp'
    let done : Chip G := { c.advance c.surroundings.now with
      receiver := some { f with phase := .done } }
    have hdone : done.owed = none :=
      (congrArg Activity.owed (activity_stepped { f with phase := .done })).trans hnone
    have hbuffer : done.buffer.octets = l :: p ++ [a] := hnow.octets_eq.trans h.octets_eq
    rw [he] at ho ⊢
    by_cases hroom : done.buffer.octets.length < FrameBuffer.capacity
    · rw [hbuffer] at hroom
      obtain ⟨⟨q, hq⟩, hsequence⟩ := octets_carryOut_frameComplete hbuffer hroom b valid
      refine ⟨a, q, hq.trans ?_, hsequence.trans hnow.sequence_eq⟩
      simp
    · have hfull : (done.carryOut [.push b, .frameComplete (some valid)]).owed = done.owed := by
        simp only [carryOut, apply, storeOctet_of_full hroom]
      exact absurd (hfull.trans hdone) ho
  · -- Without a verdict nothing new is owed.
    let stepped : Chip G := { c.advance c.surroundings.now with receiver := some g' }
    have hstepped : stepped.owed = none :=
      (congrArg Activity.owed (activity_stepped g')).trans hnone
    obtain ⟨f', o, v, howed, hactivity⟩ := hears_carryOut (c := stepped) (f := g') rfl hroutine
    have hfinal : (stepped.carryOut effects).owed = o := congrArg Activity.owed hactivity
    rw [he] at ho
    rcases howed with howed | howed
    · exact absurd (hfinal.trans howed) ho
    · exact absurd (hfinal.trans (howed.trans hstepped)) ho

theorem getD_sequenceOf?_of_prefix (l : UInt8) (p r : List UInt8) (old : UInt8) :
    (FrameFilter.sequenceOf? (l :: p)).getD old =
      if 3 ≤ p.length ∧ (FrameControl.ofFrame (l :: p ++ r)).frameType ≠ .beacon ∧
        (FrameControl.ofFrame (l :: p ++ r)).isReserved = false then p.getD 2 0
      else old := by
  rw [FrameFilter.getD_sequenceOf?]
  by_cases h : 3 ≤ p.length
  · have hlength : 3 ≤ (l :: p).length := Nat.le_succ_of_le h
    rw [FrameControl.ofFrame_append hlength]
  · rw [if_neg fun hc => h hc.1, if_neg fun hc => h hc.1]

/-- The sequence number with which a scheduled acknowledgement goes out. A frame has come in whose
node did not write to the frame buffer meanwhile, and with its last octet an acknowledgement comes
to be owed. The number is the frame's own if the frame has three octets before its check octets and
is neither a beacon nor of a reserved type. Otherwise it is still the one from before the frame. -/
theorem acknowledged_sequence (hc : c.Reachable) {f : ReceiveFramer} (hf : c.receiver = some f)
    (hp : f.phase = .matched2) (l : UInt8) {ops : List Operation}
    (hops : ∀ op ∈ ops, op.writesFrame = false)
    (hin : (c.receive true l).2.Throughout InFrame ops) (carrier : Bool) (b : UInt8) :
    let d := (((c.receive true l).2.run ops).receive carrier b).2
    d.owed ≠ none → ∃ octets check quality,
      d.buffer.octets = (l &&& 0x7F) :: octets ++ [check, quality] ∧
      d.sequence =
        let fc := FrameControl.ofFrame d.buffer.octets
        if 3 ≤ octets.length ∧ fc.frameType ≠ .beacon ∧ fc.isReserved = false then
          octets.getD 2 0
        else c.sequence := by
  intro d ho
  have hopened := hc.after (.receive true l)
  obtain ⟨p, checks, hinside⟩ :=
    (inside_opening hf hp hin.now).run hopened hops hin
  obtain ⟨a, q, hbuffer, hsequence⟩ := hinside.schedules (hopened.run ops) ho
  refine ⟨p, a, q, hbuffer, ?_⟩
  rw [hsequence, hinside.sequence_eq, getD_sequenceOf?_of_prefix (l &&& 0x7F) p [a, q], hbuffer]

/-- A data frame without addresses is acknowledged under its own number. -/
theorem acknowledged_sequence_of_data_frame :
    let config : Configuration := ⟨.at86rf231, Vector.replicate 8 0, none, 0⟩
    let c := Chip.run (.build config (Instant.mk 0) (Mixer.mk 0))
      (.command Command.rxAackOn.code :: [0, 0, 0, 0, 0x7A].map (.receive true))
    let ops : List Operation := [0x21, 0x00, 0x2A, 0xBF].map (.receive true)
    let d := (((c.receive true 5).2.run ops).receive true 0xD7).2
    d.owed = some .plain ∧ ∃ octets check quality,
      d.buffer.octets = 5 :: octets ++ [check, quality] ∧
      d.sequence =
        let fc := FrameControl.ofFrame d.buffer.octets
        if 3 ≤ octets.length ∧ fc.frameType ≠ .beacon ∧ fc.isReserved = false then
          octets.getD 2 0
        else c.sequence := by
  intro config c ops d
  have hc : c.Reachable := (reachable_build config _ _).run _
  have hf : c.receiver = some ⟨.matched2, 0, 0, 0, 0⟩ := by decide +kernel
  have hin : (c.receive true 5).2.Throughout InFrame ops :=
    throughout_cons (by decide +kernel) (throughout_cons (by decide +kernel)
      (throughout_cons (by decide +kernel) (throughout_cons (by decide +kernel)
        (throughout_nil (by decide +kernel)))))
  have hops : ∀ op ∈ ops, op.writesFrame = false := by
    intro op hop
    obtain ⟨b, -, rfl⟩ := List.mem_map.1 hop
    rfl
  have ho : d.owed = some .plain := by decide +kernel
  have howed : d.owed ≠ none := ho ▸ Option.some_ne_none _
  obtain ⟨octets, check, quality, hbuffer, hsequence⟩ :=
    acknowledged_sequence hc hf rfl 5 hops hin true 0xD7 howed
  have hlength : (5 : UInt8) &&& 0x7F = 5 := by decide
  have hd : (((c.receive true 5).2.run ops).receive true 0xD7).2 = d := rfl
  rw [hlength, hd] at hbuffer
  rw [hd] at hsequence
  exact ⟨ho, octets, check, quality, hbuffer, hsequence⟩

/-- Not every acknowledgement names the frame that it answers. A chip that acknowledges on its own
owes one for a beacon that asks for it, and one for a frame too short to have a sequence number. In
both cases it would go out with the number from before. -/
theorem acknowledgements_under_a_stale_number :
    let config : Configuration := ⟨.at86rf231, Vector.replicate 8 0, none, 0⟩
    let c := Chip.run (.build config (Instant.mk 0) (Mixer.mk 0))
      (.command Command.rxAackOn.code :: [0, 0, 0, 0, 0x7A].map (.receive true))
    let hears (frame : List UInt8) : Chip Mixer := c.run (frame.map (.receive true))
    let beacon := hears (5 :: [0x20, 0x00, 0x07] ++ Crc.octets (Crc.ofList [0x20, 0x00, 0x07]))
    let short := hears (4 :: [0x21, 0x00] ++ Crc.octets (Crc.ofList [0x21, 0x00]))
    c.Reachable ∧ c.owed = none ∧ c.sequence = 0 ∧
      (beacon.owed = some .plain ∧ beacon.buffer.octets[3]? = some 0x07 ∧ beacon.sequence = 0) ∧
      (short.owed = some .plain ∧ short.buffer.octets.length = 1 + 2 + 2 ∧ short.sequence = 0) := by
  intro config c hears beacon short
  refine ⟨(reachable_build config _ _).run _, ?_, ?_, ?_, ?_⟩ <;> decide +kernel

end Chip

end Transceiver
