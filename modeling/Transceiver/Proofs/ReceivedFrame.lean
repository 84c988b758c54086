import Mathlib.Tactic.ByContra
import Transceiver.Proofs.FrameReception
import Transceiver.Proofs.OwedAcknowledgement

/-!
# What a heard frame leaves behind

A frame is heard at any instants, octet by octet, by a chip whose framer looks for one. Either it
comes in whole, and the chip is as `Received` says, or the filter refuses it, and the chip is as
`Refused` says. The check octets that close the frame decide the verdict in the last octet of the
buffer and whether an acknowledgement is owed.
-/

namespace Transceiver.Chip

variable {G : Type} (c : Chip G)

def Listening : Prop :=
  ∃ f, c.receiver = some f ∧ (f.phase = .scanning ∨ f.phase = .matched1)

/-- What was raised by the time that a frame is there which the chip let in. -/
def receptionEvents (frame : List UInt8) : List Event :=
  [.rxStart] ++ (if c.filters ∧ FrameFilter.matchOffset < frame.length then [.addressMatch] else [])
    ++ [.rxEnd]

/-- From `c` to `d` a frame came in whole: its length, the octets before its check octets, the
first of these, and the verdict. -/
structure Received (c d : Chip G) (l : UInt8) (p : List UInt8) (a : UInt8) (valid : Bool) :
    Prop where
  state_eq : d.state = c.state
  transmitter_eq : d.transmitter = c.transmitter
  receiver_done : ∃ f, d.receiver = some f ∧ f.phase = .done
  settings : c.registers.SameSettings d.registers
  length_eq : d.registers.get .tstRxLength = l
  /-- The link quality stands below the verdict, in place of the second check octet. -/
  buffer_eq : ∃ q < 0x80, d.buffer = ⟨l :: p ++ [a, (if valid then 0x80 else 0) ||| q], 0, true⟩
  dataWaiting_eq : d.dataWaiting = c.dataWaiting
  sequence_eq : d.sequence = (FrameFilter.sequenceOf? (l :: p)).getD c.sequence
  lastValid_eq : d.lastValid = valid
  owed_eq : d.owed = if valid then d.acknowledgement? else none
  raised : c.Raised d (c.receptionEvents (l :: p))

structure Refused (c d : Chip G) : Prop where
  state_eq : d.state = c.state
  transmitter_eq : d.transmitter = c.transmitter
  receiver_scanning : ∃ f, d.receiver = some f ∧ f.phase = .scanning
  settings : c.registers.SameSettings d.registers
  owed_eq : d.owed = none
  raised : c.Raised d [.rxStart]

/-! ### Events and registers on the way -/

theorem announced_eq (l : UInt8) : c.announced l = { c with
    registers := (c.announced l).registers
    surroundings := (c.announced l).surroundings } := by
  unfold announced
  rw [raise_eq]

theorem alarms_announced (l : UInt8) : (c.announced l).alarms = c.alarms.raise .rxStart := by
  have hset := (c.raise .rxStart).alarms_setRegister (r := .tstRxLength) l (by decide)
  exact hset.trans (c.alarms_raise .rxStart)

theorem alarms_noteSequence (sequence : Option UInt8) :
    (c.noteSequence sequence).alarms = c.alarms := by
  cases sequence <;> rfl

theorem alarms_sifted (frame : List UInt8) : (c.sifted frame).alarms =
    if c.filters ∧ FrameFilter.matchOffset < frame.length then c.alarms.raise .addressMatch
    else c.alarms := by
  unfold sifted
  simp only
  split
  · rw [alarms_raise, alarms_noteSequence]
  · exact c.alarms_noteSequence _

theorem alarms_let_in (l : UInt8) (frame : List UInt8) :
    (((c.announced l).sifted frame).raise .rxEnd).alarms =
      (c.receptionEvents frame).foldl Alarms.raise c.alarms := by
  have hfilters : (c.announced l).filters = c.filters :=
    c.filters_congr (c.state_raise .rxStart) (c.sameSettings_announced l)
  rw [alarms_raise, alarms_sifted, alarms_announced, hfilters]
  unfold receptionEvents
  split <;> rfl

theorem owed_sifted (h : c.owed = none) (frame : List UInt8) : (c.sifted frame).owed = none := by
  have hnote (sequence : Option UInt8) : (c.noteSequence sequence).owed = none := by
    cases sequence with
    | some sequence => rfl
    | none => exact h
  unfold sifted
  simp only
  split
  · rw [raise_eq]
    exact hnote _
  · exact hnote _

/-! ### Leaving out the clock -/

section

variable {c} {l : UInt8} {p : List UInt8}

theorem receptionEvents_timeless (frame : List UInt8) :
    c.timeless.receptionEvents frame = c.receptionEvents frame := by
  have hfilters : c.timeless.filters = c.filters := c.filters_congr rfl c.sameSettings_timeless
  unfold receptionEvents
  rw [hfilters]

theorem sameSettings_of_timeless {d : Chip G}
    (h : c.timeless.registers.SameSettings d.timeless.registers) :
    c.registers.SameSettings d.registers :=
  (c.sameSettings_timeless.trans h).trans d.sameSettings_timeless.symm

theorem Received.of_timeless {d : Chip G} {a : UInt8} {valid : Bool}
    (h : c.timeless.Received d.timeless l p a valid) : c.Received d l p a valid where
  state_eq := h.state_eq
  transmitter_eq := h.transmitter_eq
  receiver_done := h.receiver_done
  settings := sameSettings_of_timeless h.settings
  length_eq := (d.get_timeless (by decide)).symm.trans h.length_eq
  buffer_eq := h.buffer_eq
  dataWaiting_eq := h.dataWaiting_eq
  sequence_eq := h.sequence_eq
  lastValid_eq := h.lastValid_eq
  owed_eq := by
    rw [← d.acknowledgement?_timeless]
    exact h.owed_eq
  raised := by
    have hraised := raised_iff.1 h.raised
    rw [alarms_timeless, alarms_timeless, receptionEvents_timeless] at hraised
    exact raised_iff.2 hraised

theorem Refused.of_timeless {d : Chip G} (h : c.timeless.Refused d.timeless) : c.Refused d where
  state_eq := h.state_eq
  transmitter_eq := h.transmitter_eq
  receiver_scanning := h.receiver_scanning
  settings := sameSettings_of_timeless h.settings
  owed_eq := h.owed_eq
  raised := by
    have hraised := raised_iff.1 h.raised
    rw [alarms_timeless, alarms_timeless] at hraised
    exact raised_iff.2 hraised

theorem takes_timeless {frame : List UInt8} {k : Nat} :
    c.timeless.Takes frame k ↔ c.Takes frame k :=
  takes_congr (d := c.timeless) c frame rfl c.sameSettings_timeless k

end

/-! ### The verdict -/

theorem poke_last {frame : List UInt8} (h : frame.length < 128) (b q : UInt8) (n : Nat)
    (received : Bool) :
    ((⟨frame ++ [b], n, received⟩ : FrameBuffer).poke ((frame ++ [b]).length - 1) q).2 =
      ⟨frame ++ [q], n, received⟩ := by
  have hcell : frame.length < FrameBuffer.capacity := h
  simp [FrameBuffer.poke, hcell]

theorem and_lt_verdict (b : UInt8) : b &&& 0x7F < 0x80 := by
  rw [UInt8.lt_iff_toNat_lt, UInt8.toNat_and]
  exact Nat.lt_of_le_of_lt Nat.and_le_right (by decide)

def qualityOctet (value : UInt8) (valid : Bool) : UInt8 :=
  (value &&& 0x7F) ||| (if valid then 0x80 else 0)

theorem qualityOctet_eq (value : UInt8) (valid : Bool) :
    ∃ q < 0x80, qualityOctet value valid = (if valid then 0x80 else 0) ||| q :=
  ⟨value &&& 0x7F, and_lt_verdict value, UInt8.or_comm _ _⟩

variable [RandomWords G]

theorem storeLinkQuality_eq {frame : List UInt8} {b : UInt8}
    (hb : c.buffer.octets = frame ++ [b]) (hroom : frame.length < 128) (valid : Bool) :
    c.storeLinkQuality valid =
      let (value, generator) := drawCorrelation c.bitErrors.packetErrorRate c.generator
      { c with
        buffer := { c.buffer with octets := frame ++ [qualityOctet value valid] }
        bitErrors := .empty
        generator } := by
  have hbuffer : c.buffer = ⟨frame ++ [b], c.buffer.readPosition, c.buffer.received⟩ := by
    rw [← hb]
  have hpoke (q : UInt8) : (c.buffer.poke (c.buffer.octets.length - 1) q).2 =
      { c.buffer with octets := frame ++ [q] } := by
    rw [hbuffer]
    exact poke_last hroom b q _ _
  unfold storeLinkQuality
  simp only [hpoke]
  rfl

theorem storeLinkQuality_holding (f : ReceiveFramer) {frame : List UInt8} (h : frame.length < 128)
    (b : UInt8) (valid : Bool) : ∃ q < 0x80, ∃ bitErrors generator,
      (c.holding f (frame ++ [b])).storeLinkQuality valid =
        { c.holding f (frame ++ [(if valid then 0x80 else 0) ||| q]) with
          bitErrors, generator } := by
  let drawn := drawCorrelation c.bitErrors.packetErrorRate c.generator
  obtain ⟨q, hq, hquality⟩ := qualityOctet_eq drawn.1 valid
  refine ⟨q, hq, .empty, drawn.2, ?_⟩
  rw [← hquality]
  exact storeLinkQuality_eq _ rfl h valid

theorem completeChecked_eq (valid : Bool) : c.completeChecked valid =
    let d := (c.storeLinkQuality valid).raise .rxEnd
    { d with
      lastValid := valid
      owed := if valid then d.acknowledgement?.or c.owed else none } := by
  have howed : ((c.storeLinkQuality valid).raise .rxEnd).owed = c.owed := by
    rw [raise_eq]
    rfl
  unfold completeChecked
  simp only [howed]
  cases valid <;> rfl

/-! ### A frame heard -/

variable {c} {l : UInt8} {p : List UInt8}

/-- What the second check octet makes of a frame that was let in. -/
theorem received_completeChecked {g : ReceiveFramer} (hg : g.phase = .done) (ho : c.owed = none)
    (hl : p.length + 2 = l.toNat) (hl' : l.toNat ≤ 127) (a b : UInt8) (valid : Bool) :
    c.Received ((((c.announced l).sifted (l :: p)).holding g
      (l :: p ++ [a, b])).completeChecked valid) l p a valid := by
  let e := (c.announced l).sifted (l :: p)
  have hroom : (l :: p ++ [a]).length < 128 := by
    rw [List.length_append, List.length_cons, List.length_singleton]
    omega
  have hassoc : l :: p ++ [a, b] = l :: p ++ [a] ++ [b] := by simp
  obtain ⟨q, hq, bitErrors, generator, hstored⟩ := e.storeLinkQuality_holding g hroom b valid
  rw [hassoc, completeChecked_eq, hstored]
  let s : Chip G := { e.holding g (l :: p ++ [a] ++ [(if valid then 0x80 else 0) ||| q]) with
    bitErrors, generator }
  have hs : s.raise .rxEnd = { s with
    registers := (s.raise .rxEnd).registers
    surroundings := (s.raise .rxEnd).surroundings } := s.raise_eq .rxEnd
  have he : e = { c with
      registers := e.registers
      surroundings := e.surroundings
      sequence := (FrameFilter.sequenceOf? (l :: p)).getD c.sequence
      lastValid := e.lastValid
      owed := e.owed } := by
    simp only [e]
    rw [sifted_eq, announced_eq]
  have hstate : e.state = c.state := by rw [he]
  have htransmitter : e.transmitter = c.transmitter := by rw [he]
  have hwaiting : e.dataWaiting = c.dataWaiting := by rw [he]
  have hsequence : e.sequence = (FrameFilter.sequenceOf? (l :: p)).getD c.sequence := by rw [he]
  have howed : e.owed = none := by
    refine owed_sifted _ ?_ _
    rw [announced_eq]
    exact ho
  have hsettings : c.registers.SameSettings e.registers :=
    (c.sameSettings_announced l).trans (sameSettings_sifted _ _)
  have hlength : e.registers.get .tstRxLength = l :=
    ((c.announced l).get_sifted _ (by decide)).trans (RegisterFile.get_set_self _ _ _)
  constructor
  case state_eq => rw [hs]; exact hstate
  case transmitter_eq => rw [hs]; exact htransmitter
  case receiver_done => rw [hs]; exact ⟨g, rfl, hg⟩
  case settings => exact hsettings.trans (s.sameSettings_raise .rxEnd)
  case length_eq => exact (s.get_raise .rxEnd (by decide)).trans hlength
  case buffer_eq => rw [hs]; exact ⟨q, hq, by simp [s, holding]⟩
  case dataWaiting_eq => rw [hs]; exact hwaiting
  case sequence_eq => rw [hs]; exact hsequence
  case lastValid_eq => rfl
  case owed_eq =>
    change (if valid then (s.raise .rxEnd).acknowledgement?.or e.owed else none) = _
    rw [howed, Option.or_none]
    rfl
  case raised =>
    have halarms : s.alarms = e.alarms := rfl
    rw [raised_iff, ← alarms_let_in, alarms_raise, ← halarms, ← alarms_raise]
    rfl

/-- A frame that the filter lets pass comes in whole. -/
theorem hearMany_received (hc : c.Listening) (ha : c.registers.autoFcs = true)
    (ho : c.owed = none) (hl : p.length + 2 = l.toNat) (hl' : l.toNat ≤ 127)
    (h : ∀ k ∈ checkOffsets, k < (l :: p).length → c.Takes (l :: p) k) (a b : UInt8) :
    c.Received (c.hearMany (onAir l p a b)) l p a (Crc.accepts (Crc.ofList p) a b) := by
  obtain ⟨f, hf, hp⟩ := hc
  rw [hearMany_frame hf hp ha hl hl' h a b]
  exact received_completeChecked rfl ho hl hl' a b _

/-- A frame that the filter does not let pass leaves nothing but its start. -/
theorem hearMany_refuses (hc : c.Listening) (ha : c.registers.autoFcs = true)
    (hl : p.length + 2 = l.toNat) (hl' : l.toNat ≤ 127)
    (h : ∃ k ∈ checkOffsets, k < (l :: p).length ∧ ¬c.Takes (l :: p) k) (a b : UInt8) :
    c.Refused (c.hearMany (onAir l p a b)) := by
  obtain ⟨f, hf, hp⟩ := hc
  obtain ⟨g, q, hg, -, hheard⟩ := hearMany_refused hf hp ha hl hl' h a b
  let e := (c.announced l).noteSequence (FrameFilter.sequenceOf? q)
  have hregisters : e.registers = (c.announced l).registers := by
    simp only [e]
    rw [noteSequence_eq]
  have hstate : e.state = c.state := by
    simp only [e]
    rw [noteSequence_eq, announced_eq]
  have htransmitter : e.transmitter = c.transmitter := by
    simp only [e]
    rw [noteSequence_eq, announced_eq]
  rw [hheard]
  constructor
  case state_eq => exact hstate
  case transmitter_eq => exact htransmitter
  case receiver_scanning => exact ⟨g, rfl, hg⟩
  case settings => exact hregisters ▸ c.sameSettings_announced l
  case owed_eq => rfl
  case raised =>
    have halarms : e.alarms = c.alarms.raise .rxStart :=
      (alarms_noteSequence _ _).trans (c.alarms_announced l)
    exact raised_iff.2 halarms

/-! ### At any instants -/

theorem listen_received (hc : c.Listening) (ha : c.registers.autoFcs = true) (ho : c.owed = none)
    (hl : p.length + 2 = l.toNat) (hl' : l.toNat ≤ 127)
    (h : ∀ k ∈ checkOffsets, k < (l :: p).length → c.Takes (l :: p) k) {a b : UInt8}
    {heard : List (Instant × UInt8)} (hheard : heard.map Prod.snd = onAir l p a b) :
    c.Received (c.listen heard) l p a (Crc.accepts (Crc.ofList p) a b) := by
  have ha' : c.timeless.registers.autoFcs = true := c.sameSettings_timeless.autoFcs.trans ha
  have hmany := hearMany_received (c := c.timeless) hc ha' ho hl hl'
    (fun k hk hlt => takes_timeless.2 (h k hk hlt)) a b
  rw [← hheard, ← timeless_listen] at hmany
  exact hmany.of_timeless

theorem listen_refuses (hc : c.Listening) (ha : c.registers.autoFcs = true)
    (hl : p.length + 2 = l.toNat) (hl' : l.toNat ≤ 127)
    (h : ∃ k ∈ checkOffsets, k < (l :: p).length ∧ ¬c.Takes (l :: p) k) {a b : UInt8}
    {heard : List (Instant × UInt8)} (hheard : heard.map Prod.snd = onAir l p a b) :
    c.Refused (c.listen heard) := by
  obtain ⟨k, hk, hlt, hrefuses⟩ := h
  have ha' : c.timeless.registers.autoFcs = true := c.sameSettings_timeless.autoFcs.trans ha
  have hmany := hearMany_refuses (c := c.timeless) hc ha' hl hl'
    ⟨k, hk, hlt, fun ht => hrefuses (takes_timeless.1 ht)⟩ a b
  rw [← hheard, ← timeless_listen] at hmany
  exact hmany.of_timeless

/-! ### What is owed on the way -/

theorem listen_append (c : Chip G) (l m : List (Instant × UInt8)) :
    c.listen (l ++ m) = (c.listen l).listen m := by
  unfold listen
  rw [List.flatMap_append, run_append]

/-- Nothing is owed until a frame is complete. -/
theorem owed_of_receiving (hr : Reachable c) {f : ReceiveFramer} (hf : c.receiver = some f)
    (hp : f.phase ≠ .done) : c.owed = none := by
  by_contra ho
  rcases hr.fresh ho with ⟨-, -, g, hg, hd⟩ | ⟨hn, -⟩
  · cases hf.symm.trans hg
    exact hp hd
  · cases hf.symm.trans hn

theorem owed_of_listening (hr : Reachable c) (hc : c.Listening) : c.owed = none := by
  obtain ⟨f, hf, hp⟩ := hc
  exact owed_of_receiving hr hf (by rcases hp with hp | hp <;> simp [hp])

theorem receiver_of_listen (h : c.receiver = none) (heard : List (Instant × UInt8)) :
    (c.listen heard).receiver = none := by
  induction heard generalizing c with
  | nil => exact h
  | cons x r ih =>
    refine ih (c := ((c.setTime x.1).receive true x.2).2) ?_
    exact receiver_receive_of_none (c := c.setTime x.1) h true x.2

/-- A chip that still receives after some octets, with nothing owed, owed nothing before them. -/
theorem owed_of_listen (hr : Reachable c) {heard : List (Instant × UInt8)}
    (h : (c.listen heard).receiver ≠ none) (ho : (c.listen heard).owed = none) : c.owed = none := by
  by_contra hn
  cases heard with
  | nil => exact hn ho
  | cons x r =>
    let d := c.setTime x.1
    refine h (receiver_of_listen (c := (d.receive true x.2).2) ?_ r)
    have hheard := heard_receive d true x.2
    rcases (hr.after (.setTime x.1)).fresh hn with hw | hs
    · exact (hw.hear hn hheard).1
    · exact (congrArg Activity.receiver (Activity.eq_of_heard_of_none hs.1 hheard)).trans hs.1

theorem owed_of_prefix (hr : Reachable c) {l heard : List (Instant × UInt8)} (hl : l <+: heard)
    (h : (c.listen heard).receiver ≠ none) (ho : (c.listen heard).owed = none) :
    (c.listen l).owed = none := by
  obtain ⟨r, rfl⟩ := hl
  rw [listen_append] at h ho
  exact owed_of_listen (hr.run _) h ho

end Transceiver.Chip
