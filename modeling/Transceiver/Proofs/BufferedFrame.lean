import Transceiver.Proofs.FramerProgress
import Transceiver.Proofs.ReceivedLength
import Transceiver.Proofs.WrittenSettings

/-!
# The frame buffer during reception

While a frame comes in the buffer mirrors it: the length, and behind it the octets so far. When the
frame is complete the link quality may have taken the place of the last one. The framer counts
octets by itself and the buffer by its length, and the two agree, so that a frame always finds room:
the longest one fills the buffer to its last cell. `Mirrors.receive` is the step for one octet, and
`Buffers.run` what it comes to over all that happens during a frame.
-/

namespace Transceiver

def octetsHeard (ops : List Operation) : List UInt8 :=
  ops.filterMap fun op => op.heard?.map Prod.snd

namespace Chip

variable {G : Type}

/-- The buffer holds the length of a frame and the octets of it so far, and there are more to come.
-/
structure Mirrors (c : Chip G) (autoFcs : Bool) (l : UInt8) (p : List UInt8) : Prop where
  received_eq : c.buffer.received = true
  octets_eq : c.buffer.octets = l :: p
  framer : ∃ f, c.receiver = some f ∧ f.Within autoFcs l.toNat p
  length_le : l.toNat ≤ 127

/-- The buffer holds a complete frame. If its check octets were looked at, the link quality stands
in place of the last one, below the verdict. -/
structure Delivered (c : Chip G) (autoFcs : Bool) (l : UInt8) (p : List UInt8) : Prop where
  received_eq : c.buffer.received = true
  length_eq : p.length = l.toNat
  octets_eq : match OctetStream.verdict autoFcs l.toNat p with
    | none => c.buffer.octets = l :: p
    | some valid => ∃ q < 0x80,
        c.buffer.octets = l :: p.dropLast ++ [(if valid then 0x80 else 0) ||| q]
  framer : c.InPhase .done

variable {c d : Chip G} {autoFcs : Bool} {l : UInt8} {p : List UInt8}

theorem Mirrors.inFrame (h : c.Mirrors autoFcs l p) : c.InFrame := by
  obtain ⟨f, hf, hw⟩ := h.framer
  exact ⟨f, hf, ReceiveFramer.inFrame_of_within hw⟩

theorem Mirrors.room (h : c.Mirrors autoFcs l p) :
    c.buffer.octets.length < FrameBuffer.capacity ∧ (l :: p).length < 128 := by
  obtain ⟨f, hf, hw⟩ := h.framer
  have hlt := hw.length_lt
  have hle := h.length_le
  have hlength : (l :: p).length < 128 := by
    rw [List.length_cons]
    omega
  exact ⟨h.octets_eq ▸ hlength, hlength⟩

theorem Mirrors.congr (h : c.Mirrors autoFcs l p) (hd : c.SameFrame d)
    (hr : d.buffer.received = c.buffer.received) : d.Mirrors autoFcs l p where
  received_eq := hr.trans h.received_eq
  octets_eq := hd.octets_eq.trans h.octets_eq
  framer := hd.receiver_eq ▸ h.framer
  length_le := h.length_le

theorem Delivered.congr (h : c.Delivered autoFcs l p) (hd : c.SameFrame d)
    (hr : d.buffer.received = c.buffer.received) : d.Delivered autoFcs l p where
  received_eq := hr.trans h.received_eq
  length_eq := h.length_eq
  octets_eq := hd.octets_eq ▸ h.octets_eq
  framer := by
    obtain ⟨f, hf, hp⟩ := h.framer
    exact ⟨f, hd.receiver_eq.trans hf, hp⟩

/-! ### What the node can do meanwhile -/

theorem lengthPlaces_execute {f : ReceiveFramer} (hf : c.receiver = some f) {command : Command}
    (h : (c.execute command).receiver ≠ none) :
    (c.execute command).lengthPlaces = c.lengthPlaces := by
  have hstopped (hs : (c.activity.execute command).receiver = none) :
      (c.execute command).lengthPlaces = c.lengthPlaces :=
    absurd ((congrArg Activity.receiver (c.activity_execute command)).trans hs) h
  have hrestarted (b : Chip G) (hb : b.receiver = some f) :
      b.abandonTransmission.beginReception.lengthPlaces = b.lengthPlaces := by
    have hreceiver := b.sameFrame_abandonTransmission.receiver_eq.trans hb
    unfold beginReception
    rw [hreceiver]
    exact b.lengthPlaces_abandonTransmission
  cases command with
  | nop | forcePllOn | txOn => exact c.lengthPlaces_enter _
  | txStart | forceTrxOff | trxOff | txAretOn => exact hstopped rfl
  | rxOn => exact (hrestarted (c.enter .rxOn) hf).trans (c.lengthPlaces_enter _)
  | rxAackOn =>
    let invalid : Chip G := { c with registers := c.registers.setOutcome 0xE0 }
    refine (hrestarted (invalid.enter .rxAackOn) hf).trans ((invalid.lengthPlaces_enter _).trans ?_)
    exact c.lengthPlaces_setRegister _ (by decide)

variable [RandomWords G]

/-- A frame off the air stays one as long as the node neither writes to the buffer nor stops the
receiver. -/
theorem received_after {f : ReceiveFramer} (hf : c.receiver = some f) {op : Operation}
    (hop : op.heard? = none) (hw : op.writesFrame = false) (h : (c.after op).receiver ≠ none) :
    (c.after op).buffer.received = c.buffer.received := by
  cases op with
  | writeRegister r v =>
    change (c.writeRegister r v).receiver ≠ none at h
    change (c.writeRegister r v).buffer.received = _
    unfold writeRegister at h ⊢
    split
    · rfl
    · rename_i hr
      rw [if_neg hr] at h
      simp only at h ⊢
      split
      · rename_i hstate
        rw [if_pos hstate] at h
        let written : Chip G := { c with registers := c.registers.set r v }
        exact congrArg Prod.fst (lengthPlaces_execute (c := written) hf h)
      · rfl
  | command code => exact congrArg Prod.fst (lengthPlaces_execute hf h)
  | sleepPin level => exact congrArg Prod.fst (c.lengthPlaces_sleepPin level)
  | advance now => exact congrArg Prod.fst (c.lengthPlaces_advance now)
  | transmit => exact congrArg Prod.fst c.lengthPlaces_transmit
  | popFrame => exact congrArg Prod.fst c.lengthPlaces_pop
  | reset => exact absurd c.receiver_reset h
  | readRegister | setDataWaiting | setRssi | recordBitErrors | takePacketErrorRate | setTime => rfl
  | pushFrame | uploadFrame | pokeFrame | clearFrame | prepareFrame => cases hw
  | receive carrier b => cases hop

/-! ### One more octet -/

theorem hear_of_silence {f : ReceiveFramer} (hf : c.receiver = some f) (hin : f.InFrame)
    (b : UInt8) : (c.hear false b).InPhase .scanning := by
  let lost : ReceiveFramer := { f with phase := .scanning }
  have hlost : f.loseCarrier = (lost, [.raise .pllUnlock, .raise .rxStart]) := by
    unfold ReceiveFramer.loseCarrier
    rcases hin with hp | hp | hp <;> rw [hp]
  have hstep := ReceiveFramer.step_of_silence (i := ⟨b, false, c.registers.autoFcs⟩) hin.ne_done rfl
  rw [hlost] at hstep
  refine ⟨lost, ?_, rfl⟩
  rw [hear_of_some hf, hstep]
  simp only [carryOut, apply]
  rw [raise_eq, raise_eq]

/-- An octet of a frame is stored, and the filter may refuse the frame because of it. -/
theorem carryOut_stored {g : ReceiveFramer} (hg : c.receiver = some g)
    (hroom : c.buffer.octets.length < FrameBuffer.capacity) (n k : Nat) (b : UInt8)
    (effects : List ReceiveEffect) :
    (c.carryOut (OctetStream.stored n k [b] ++ effects)).InPhase .waiting ∨
      ∃ e : Chip G, e.receiver = some g ∧
        e.buffer = { c.buffer with octets := c.buffer.octets ++ [b] } ∧
        c.carryOut (OctetStream.stored n k [b] ++ effects) = e.carryOut effects := by
  let stored : Chip G := { c with buffer := { c.buffer with octets := c.buffer.octets ++ [b] } }
  have hpushed (effects : List ReceiveEffect) :
      c.carryOut (.push b :: effects) = stored.carryOut effects := by
    simp only [carryOut, apply, storeOctet_of_room hroom, stored]
  rw [OctetStream.stored_singleton, List.cons_append, hpushed]
  by_cases hk : k ≤ n ∧ k ∈ checkOffsets
  · rw [if_pos hk, List.singleton_append]
    by_cases htakes : stored.Takes stored.buffer.octets k
    · have hfilter := stored.filter_of_takes htakes
      right
      refine ⟨(stored.filter k).2, ?_, ?_, ?_⟩
      · rw [hfilter, noteSequence_eq]
        simp only
        split
        · rw [raise_eq]
          exact hg
        · exact hg
      · rw [hfilter, noteSequence_eq]
        simp only
        split
        · rw [raise_eq]
        · rfl
      · simp only [carryOut, apply, hfilter]
    · have hfilter := stored.filter_of_refuses htakes
      left
      refine ⟨g.reject, ?_, rfl⟩
      have hrefused : stored.carryOut (.filterCheck k :: effects) = (stored.filter k).2 := by
        simp only [carryOut, apply, hfilter]
      rw [hrefused, hfilter, noteSequence_eq]
      exact congrArg (Option.map ReceiveFramer.reject) hg
  · rw [if_neg hk, List.nil_append]
    exact .inr ⟨stored, hg, rfl, rfl⟩

/-- With its last octet a frame is complete. -/
theorem delivered_complete {b : UInt8} (hb : c.buffer.octets = l :: p ++ [b])
    (hr : c.buffer.received = true) (hroom : (l :: p).length < 128) (hl : p.length + 1 = l.toNat)
    (hf : c.InPhase .done) :
    (c.carryOut [.frameComplete (OctetStream.verdict autoFcs l.toNat (p ++ [b]))]).Delivered
      autoFcs l (p ++ [b]) := by
  have hlength : (p ++ [b]).length = l.toNat := by
    rw [List.length_append, List.length_singleton, hl]
  have hlast : (p ++ [b]).dropLast = p := List.dropLast_concat
  rw [carryOut_singleton]
  cases hv : OctetStream.verdict autoFcs l.toNat (p ++ [b]) with
  | none =>
    change (raise { c with bitErrors := .empty, lastValid := false } .rxEnd).Delivered _ _ _
    rw [raise_eq]
    refine ⟨hr, hlength, ?_, hf⟩
    rw [hv]
    exact hb
  | some valid =>
    obtain ⟨q, hq, hbuffer⟩ := buffer_storeLinkQuality hb hroom valid
    change (c.completeChecked valid).Delivered _ _ _
    rw [completeChecked_eq, raise_eq]
    refine ⟨(congrArg FrameBuffer.received hbuffer).trans hr, hlength, ?_, hf⟩
    rw [hv, hlast]
    exact ⟨q, hq, congrArg FrameBuffer.octets hbuffer⟩

/-- What becomes of a frame with an octet on the medium: there is one more octet of it, or it is
complete, or it is lost or refused. -/
theorem Mirrors.hear (h : c.Mirrors autoFcs l p) (ha : c.registers.autoFcs = autoFcs)
    (carrier : Bool) (b : UInt8) :
    let d := c.hear carrier b
    carrier = true ∧ d.Mirrors autoFcs l (p ++ [b]) ∨
      carrier = true ∧ d.Delivered autoFcs l (p ++ [b]) ∨
      d.InPhase .scanning ∨ d.InPhase .waiting := by
  intro d
  obtain ⟨f, hf, hw⟩ := h.framer
  have hin := ReceiveFramer.inFrame_of_within hw
  cases carrier with
  | false => exact .inr (.inr (.inl (hear_of_silence hf hin b)))
  | true =>
    have hheard : d = _ := hear_of_carrier hf hin.ne_done b
    have hproceeds := hw.hear b
    rw [ha] at hheard
    generalize f.hear b autoFcs = r at hheard hproceeds
    have hoctets : c.buffer.octets ++ [b] = l :: (p ++ [b]) := by rw [h.octets_eq, List.cons_append]
    cases hproceeds with
    | @more g _ hg =>
      have hstored := carryOut_stored (c := { c with receiver := some g }) rfl h.room.1
        (OctetStream.filtered autoFcs l.toNat) (p.length + 1) b []
      rw [List.append_nil, ← hheard] at hstored
      rcases hstored with hwaiting | ⟨e, hreceiver, hbuffer, he⟩
      · exact .inr (.inr (.inr hwaiting))
      · rw [he]
        refine .inl ⟨rfl, ?_, ?_, ⟨g, hreceiver, hg⟩, h.length_le⟩
        · exact (congrArg FrameBuffer.received hbuffer).trans h.received_eq
        · exact (congrArg FrameBuffer.octets hbuffer).trans hoctets
    | @last g hl hg =>
      have hstored := carryOut_stored (c := { c with receiver := some g }) rfl h.room.1
        (OctetStream.filtered autoFcs l.toNat) (p.length + 1) b
        [.frameComplete (OctetStream.verdict autoFcs l.toNat (p ++ [b]))]
      rw [← hheard] at hstored
      rcases hstored with hwaiting | ⟨e, hreceiver, hbuffer, he⟩
      · exact .inr (.inr (.inr hwaiting))
      · rw [he]
        refine .inr (.inl ⟨rfl, delivered_complete ?_ ?_ h.room.2 hl ⟨g, hreceiver, hg⟩⟩)
        · exact (congrArg FrameBuffer.octets hbuffer).trans hoctets
        · exact (congrArg FrameBuffer.received hbuffer).trans h.received_eq

theorem get_receive {r : Register} (hbits : r.settingBits = 0xFF) (hr : r ≠ .tstRxLength)
    (c : Chip G) (carrier : Bool) (b : UInt8) :
    (c.receive carrier b).2.registers.get r = c.registers.get r := by
  rw [← get_eq_of_bits hbits, ← get_eq_of_bits hbits, settings_receive]
  cases c.announced? carrier b with
  | none => rfl
  | some l => exact if_neg hr

theorem autoFcs_receive (c : Chip G) (carrier : Bool) (b : UInt8) :
    (c.receive carrier b).2.registers.autoFcs = c.registers.autoFcs := by
  unfold RegisterFile.autoFcs
  rw [get_receive (by decide) (by decide)]

theorem Mirrors.receive (h : c.Mirrors autoFcs l p) (ha : c.registers.autoFcs = autoFcs)
    (carrier : Bool) (b : UInt8) :
    let d := (c.receive carrier b).2
    carrier = true ∧ d.Mirrors autoFcs l (p ++ [b]) ∨
      carrier = true ∧ d.Delivered autoFcs l (p ++ [b]) ∨
      d.InPhase .scanning ∨ d.InPhase .waiting := by
  have hnow := c.sameFrame_advance c.surroundings.now
  have hreceived := congrArg Prod.fst (c.lengthPlaces_advance c.surroundings.now)
  have ha' : (c.advance c.surroundings.now).registers.autoFcs = autoFcs := by
    rw [← ha]
    unfold RegisterFile.autoFcs
    rw [get_advance (by decide)]
  rw [snd_receive]
  exact (h.congr hnow hreceived).hear ha' carrier b

/-- The octet that announces a frame is the first in the buffer. -/
theorem mirrors_announced {carrier : Bool} {b : UInt8} (h : c.announced? carrier b = some l) :
    (c.receive carrier b).2.Mirrors c.registers.autoFcs l [] := by
  obtain ⟨f, hf, hl⟩ := Option.bind_eq_some_iff.1 h
  obtain ⟨g, hg, hstep⟩ := ReceiveFramer.step_of_announced hl
  obtain ⟨-, -, -, rfl⟩ := ReceiveFramer.announced?_eq_some.1 hl
  let now := c.advance c.surroundings.now
  let opened : Chip G := { now with
    receiver := some g
    buffer := .forReception
    registers := now.registers.set .tstRxLength (b &&& 0x7F) }
  have hroom : opened.buffer.octets.length < FrameBuffer.capacity := Nat.zero_lt_succ _
  have hheard : (c.receive carrier b).2 = (opened.storeOctet (b &&& 0x7F)).2 := by
    rw [receive_of_some hf, hstep, carryOut_singleton]
    rfl
  rw [hheard, storeOctet_of_room hroom]
  refine ⟨rfl, rfl, ⟨g, rfl, hg⟩, ?_⟩
  rw [UInt8.toNat_and]
  exact Nat.and_le_right

/-! ### The whole frame -/

def Buffers (c : Chip G) (autoFcs : Bool) (l : UInt8) (p : List UInt8) : Prop :=
  c.Mirrors autoFcs l p ∨ c.Delivered autoFcs l p

omit [RandomWords G] in
theorem Buffers.congr (h : c.Buffers autoFcs l p) (hd : c.SameFrame d)
    (hr : d.buffer.received = c.buffer.received) : d.Buffers autoFcs l p :=
  h.imp (·.congr hd hr) (·.congr hd hr)

omit [RandomWords G] in
theorem not_hasFrame {phase : ReceivePhase} (h : c.InPhase phase)
    (hp : phase ∉ [ReceivePhase.inPacket, .check1, .check2, .done]) : ¬c.HasFrame := by
  obtain ⟨f, hf, rfl⟩ := h
  simp only [List.mem_cons, List.not_mem_nil, or_false, not_or] at hp
  rw [hasFrame_iff]
  rintro ⟨g, hg, hframe⟩
  cases hf.symm.trans hg
  rcases hframe with (h | h | h) | h <;> simp [h] at hp

/-- An octet behind a complete frame is no part of it. -/
theorem not_hasFrame_of_done (h : c.InPhase .done) (carrier : Bool) (b : UInt8) :
    ¬(c.receive carrier b).2.HasFrame := by
  obtain ⟨f, hf, hp⟩ := h
  intro hframe
  have hstep := hasFrame_receive hf hframe
  rw [ReceiveFramer.step_of_done hp] at hstep
  rcases hstep with (hstep | hstep | hstep) | hstep <;> cases hstep

/-- Whatever happens while the chip has a frame, the buffer keeps up with the octets on the medium,
unless the node writes to it or changes what the frame ends with. -/
theorem Buffers.run (h : c.Buffers autoFcs l p) (hc : c.Reachable) {ops : List Operation}
    (hw : ∀ op ∈ ops, op.writesFrame = false)
    (ha : c.Throughout (fun d => d.registers.autoFcs = autoFcs) ops)
    (hframe : c.Throughout HasFrame ops) :
    (c.run ops).Buffers autoFcs l (p ++ octetsHeard ops) := by
  induction ops generalizing c p with
  | nil =>
    rw [octetsHeard, List.filterMap_nil, List.append_nil]
    exact h
  | cons op ops ih =>
    have hrest := fun hnext => ih (c := c.after op) (p := p ++ octetsHeard [op]) hnext (hc.after op)
      (fun x hx => hw x (List.mem_cons_of_mem op hx)) ha.next hframe.next
    have happend : octetsHeard (op :: ops) = octetsHeard [op] ++ octetsHeard ops :=
      List.filterMap_append (l := [op])
    rw [List.append_assoc, ← happend] at hrest
    refine hrest ?_
    have hd := hframe.next.now
    cases hop : op.heard? with
    | none =>
      obtain ⟨f, hf, -⟩ := hasFrame_iff.1 hframe.now
      obtain ⟨g, hg, -⟩ := hasFrame_iff.1 hd
      have hon : (c.after op).receiver ≠ none := hg ▸ Option.some_ne_none g
      have hquiet := hw op List.mem_cons_self
      have hnone : octetsHeard [op] = [] := by simp [octetsHeard, hop]
      rw [hnone, List.append_nil]
      exact h.congr (sameFrame_after hc hf hop hquiet hon) (received_after hf hop hquiet hon)
    | some heard =>
      cases op with
      | receive carrier b =>
        change (c.receive carrier b).2.Buffers _ _ (p ++ [b])
        rcases h with h | h
        · rcases h.receive ha.now carrier b with ⟨-, hm⟩ | ⟨-, hm⟩ | hm | hm
          · exact .inl hm
          · exact .inr hm
          · exact absurd hd (not_hasFrame hm (by simp))
          · exact absurd hd (not_hasFrame hm (by simp))
        · exact absurd hd (not_hasFrame_of_done h.framer carrier b)
      | _ => cases hop

/-- The length of the frame stays in its register while the chip has the frame. -/
theorem length_run {ops : List Operation} (hw : ∀ op ∈ ops, op.written? .tstRxLength = none)
    (hframe : c.Throughout HasFrame ops) :
    (c.run ops).registers.get .tstRxLength = c.registers.get .tstRxLength := by
  induction ops generalizing c with
  | nil => rfl
  | cons op ops ih =>
    refine (ih (fun x hx => hw x (List.mem_cons_of_mem op hx)) hframe.next).trans ?_
    have hwritten := hw op List.mem_cons_self
    have hgiven : c.lengthGiven? op = none := by
      cases op with
      | writeRegister r v => exact hwritten
      | reset =>
        obtain ⟨g, hg, -⟩ := hasFrame_iff.1 hframe.next.now
        cases c.receiver_reset.symm.trans hg
      | receive carrier b =>
        obtain ⟨f, hf, hin⟩ := hasFrame_iff.1 hframe.now
        cases ha : c.announced? carrier b with
        | none => exact ha
        | some l =>
          obtain ⟨g, hg, hl⟩ := Option.bind_eq_some_iff.1 ha
          cases hf.symm.trans hg
          have hp := (ReceiveFramer.announced?_eq_some.1 hl).1
          rcases hin with (hin | hin | hin) | hin <;> cases hp.symm.trans hin
      | _ => rfl
    rw [length_after, hgiven]
    rfl

end Chip

end Transceiver
