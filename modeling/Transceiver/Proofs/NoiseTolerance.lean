import Transceiver.Proofs.AcknowledgementOnAir
import Transceiver.Proofs.BufferedFrame
import Transceiver.Proofs.LinkNoise
import Transceiver.Proofs.RoundTrip

/-!
# Octets that the chip has no use for

The link quality is written into the buffer out of which frames are filtered, acknowledged and sent.
It is behind the frame control, because the length and one more octet are stored before the last one
comes (`HoldsFrame`), and from then on the chip has no use for it (`Tolerates`): until another frame
comes in or is to be sent there is at most an acknowledgement, which the framer makes up itself. For
another frame the buffer is emptied first, with the one exception of a node that starts a
transmitter while it runs.
-/

namespace Transceiver

/-- The frame buffer is emptied past the chip. Neither way of attaching a chip lets the node do so.
-/
def Operation.emptiesFrame : Operation → Bool
  | .clearFrame | .prepareFrame => true
  | _ => false

namespace Activity

variable {a b : Activity}

def SendsOwn (a : Activity) : Prop := ∀ f, a.transmitter = some f → f.SendsOwn a.owed

theorem sendsOwn_of_none (h : a.transmitter = none) : a.SendsOwn := by
  intro f hf
  cases h.symm.trans hf

theorem SendsOwn.transmit {i : TransmitInput} (h : a.SendsOwn) (hi : i.owed = a.owed) :
    (a.transmit i).SendsOwn := by
  rcases a.transmit_cases i with ⟨ht, he⟩ | ⟨f, ht, ⟨hf, he⟩ | ⟨hf, he⟩⟩ <;> rw [he]
  · exact h
  · exact sendsOwn_of_none rfl
  · intro g hg
    cases hg
    have hown : f.SendsOwn i.owed := hi ▸ h f ht
    have hnext := hown.step
    rwa [hi] at hnext

/-- A chip that turns around does so for an acknowledgement. -/
theorem Heard.sendsOwn (hh : a.Heard b) (hx : a.Orderly) (h : a.SendsOwn) : b.SendsOwn := by
  cases hh with
  | deaf => exact h
  | hears hr hp hb =>
    obtain ⟨f, o, v, -, rfl⟩ := hb
    exact sendsOwn_of_none (hx.transmitter_eq_none hr)
  | schedules hr | passes hr => exact sendsOwn_of_none (hx.transmitter_eq_none hr)
  | turnsAround hr hp ho =>
    have ht : a.closeReception.transmitter = none := hx.transmitter_eq_none hr
    rw [openTransmission_of_none ht]
    intro f hf
    cases hf
    exact TransmitFramer.sendsOwn_start ho.1

end Activity

namespace Chip

variable {G : Type}

def HoldsFrame (c : Chip G) : Prop :=
  ∀ f, c.receiver = some f → f.InFrame →
    (if f.phase = .check2 then 2 else 1) ≤ c.buffer.octets.length

/-- The octet at a place in the buffer is behind the frame control, and the chip has no use for it:
no frame is coming in, and none is sent out of the buffer. -/
structure Tolerates (c : Chip G) (q : Nat) : Prop where
  two_le : 2 ≤ q
  lt_length : q < c.buffer.octets.length
  outside : ¬c.InFrame
  sendsOwn : c.activity.SendsOwn

structure Guarded (c : Chip G) (place : Option Nat) : Prop where
  holdsFrame : c.HoldsFrame
  tolerates : ∀ q ∈ place, c.Tolerates q

variable {c d : Chip G} {q : Nat} {place : Option Nat}

theorem Guarded.congr (h : c.Guarded place) (ha : d.activity = c.activity)
    (hl : d.buffer.octets.length = c.buffer.octets.length) : d.Guarded place := by
  have hr : d.receiver = c.receiver := congrArg Activity.receiver ha
  constructor
  · intro f hf hin
    rw [hl]
    exact h.holdsFrame f (hr.symm.trans hf) hin
  · intro q hq
    obtain ⟨two_le, lt_length, outside, sendsOwn⟩ := h.tolerates q hq
    refine ⟨two_le, hl ▸ lt_length, ?_, ha ▸ sendsOwn⟩
    rintro ⟨f, hf, hin⟩
    exact outside ⟨f, hr.symm.trans hf, hin⟩

theorem holdsFrame_of_not_inFrame (h : ¬c.InFrame) : c.HoldsFrame :=
  fun f hf hin => absurd ⟨f, hf, hin⟩ h

/-! ### The transmitter -/

theorem command_code (c : Chip G) (k : Command) : c.command k.code = c.execute k := by
  rw [command, Command.ofCode?_code]
  rfl

/-- A command that leaves something in the buffer starts no transmission out of it. -/
theorem sendsOwn_execute {k : Command} (h : c.activity.SendsOwn)
    (hk : k = .txStart ∨ k = .txAretOn → c.transmitter = none)
    (hb : (c.execute k).buffer.octets ≠ []) : (c.execute k).activity.SendsOwn := by
  have hstarted (hk' : k = .txStart ∨ k = .txAretOn) : (c.execute k).buffer.octets = [] := by
    rw [← command_code]
    exact congrArg FrameBuffer.octets (command_starts (hk hk') hk').2.2.1
  rw [activity_execute]
  cases k with
  | nop | forcePllOn | txOn => exact h
  | txStart => exact absurd (hstarted (.inl rfl)) hb
  | txAretOn => exact absurd (hstarted (.inr rfl)) hb
  | forceTrxOff | trxOff | rxOn | rxAackOn => exact Activity.sendsOwn_of_none rfl

theorem sendsOwn_sleepPin (h : c.activity.SendsOwn) (level : Bool) :
    (c.sleepPin level).activity.SendsOwn := by
  obtain ⟨s, code, hshifts⟩ := c.activity.shifts_sleepPin level
  rw [activity_sleepPin, hshifts]
  exact h

variable [RandomWords G]

theorem sendsOwn_after (hc : c.Reachable) {op : Operation} (h : c.activity.SendsOwn)
    (hs : op.startsTransmitter = true → c.transmitter = none)
    (hb : (c.after op).buffer.octets ≠ []) : (c.after op).activity.SendsOwn := by
  have hcommand {k : Command} (hk : op.command? = some k) (h : k = .txStart ∨ k = .txAretOn) :
      c.transmitter = none := by
    refine hs ?_
    unfold Operation.startsTransmitter
    rw [hk]
    rcases h with rfl | rfl <;> rfl
  cases op with
  | command code => exact sendsOwn_execute h (hcommand rfl) hb
  | writeRegister r v =>
    let set : Chip G := { c with registers := c.registers.set r v }
    change (c.writeRegister r v).activity.SendsOwn
    by_cases hr : r = .trxState
    · have hafter : c.after (.writeRegister r v) =
          set.execute ((Command.ofCode? (v &&& 0x1F)).getD .nop) :=
        (if_neg (by rw [hr]; decide)).trans (if_pos hr)
      rw [hafter] at hb
      have hset := sendsOwn_execute (c := set) h (hcommand (if_pos hr)) hb
      rwa [← hafter] at hset
    · rw [activity_writeRegister, if_neg hr]
      exact h
  | sleepPin level => exact sendsOwn_sleepPin h level
  | reset =>
    change c.reset.activity.SendsOwn
    rw [activity_reset]
    exact Activity.sendsOwn_of_none rfl
  | transmit =>
    change c.transmit.2.activity.SendsOwn
    rw [activity_transmit]
    exact h.transmit rfl
  | readRegister r =>
    change (c.readRegister r).2.activity.SendsOwn
    rw [activity_readRegister]
    exact h
  | advance now =>
    change (c.advance now).activity.SendsOwn
    rw [activity_advance]
    exact h
  | setRssi dbm =>
    change (c.setRssi dbm).activity.SendsOwn
    rw [setRssi, activity_setRssi]
    exact h
  | receive carrier b => exact (heard_receive c carrier b).sendsOwn hc.orderly h
  | setDataWaiting | pushFrame | popFrame | uploadFrame | pokeFrame | clearFrame | prepareFrame
  | recordBitErrors | takePacketErrorRate | setTime => exact h

/-! ### The buffer -/

omit [RandomWords G] in
theorem length_le_poke (f : FrameBuffer) (index : Nat) (b : UInt8) :
    f.octets.length ≤ (f.poke index b).2.octets.length := by
  unfold FrameBuffer.poke
  split
  · simp
  · exact Nat.le_refl _

omit [RandomWords G] in
theorem length_le_push (f : FrameBuffer) (b : UInt8) :
    f.octets.length ≤ (f.push b).2.octets.length := by
  unfold FrameBuffer.push
  split
  · simp
  · exact Nat.le_refl _

/-- The octets of a frame are added to the buffer. -/
theorem length_receive_of_inFrame {f : ReceiveFramer} (hf : c.receiver = some f) (hin : f.InFrame)
    {carrier : Bool} {b : UInt8} (h : (c.receive carrier b).2.InFrame) :
    (c.receive carrier b).2.buffer.octets.length = c.buffer.octets.length + 1 := by
  let e := c.advance c.surroundings.now
  have hnow := c.sameFrame_advance c.surroundings.now
  rw [snd_receive] at h ⊢
  let r := f.step ⟨b, carrier, e.registers.autoFcs⟩
  have hef : e.receiver = some f := hnow.receiver_eq.trans hf
  have hr : r.1.InFrame := (inFrame_step hef h).1
  have hpush : ∃ rest, r.2.effects = .push b :: rest ∧
      (rest = [] ∨ ∃ k, rest = [.filterCheck k]) := by
    rcases ReceiveFramer.step_of_inFrame hin hr with ⟨-, -, -, he⟩ | ⟨-, -, he⟩
    · refine ⟨_, he, ?_⟩
      split
      · exact .inr ⟨_, rfl⟩
      · exact .inl rfl
    · exact ⟨_, he, .inl rfl⟩
  obtain ⟨rest, he, hrest⟩ := hpush
  have hheard : e.hear carrier b = carryOut { e with receiver := some r.1 } (.push b :: rest) := by
    rw [← he]
    exact hear_of_some hef b carrier
  have hlength : (e.buffer.octets ++ [b]).length = c.buffer.octets.length + 1 := by
    rw [hnow.octets_eq, List.length_append, List.length_singleton]
  rw [hheard] at h ⊢
  have hstored := (carryOut_push_of_inFrame h).2
  rw [hstored] at h ⊢
  rcases hrest with rfl | ⟨k, rfl⟩
  · exact hlength
  · rw [carryOut_singleton] at h ⊢
    change (Chip.filter _ k).2.buffer.octets.length = _
    rw [(receiver_of_filter h).2.1]
    exact hlength

/-- A frame comes in with its length in front, which is all that the buffer holds by then. -/
theorem octets_of_enters {op : Operation} (h : ¬c.InFrame) (h' : (c.after op).InFrame) :
    ∃ l, (c.after op).buffer.octets = [l] ∧ ¬(c.after op).InPhase .check2 := by
  obtain ⟨g, hg, hin⟩ := h'
  rcases hasFrame_after (.inl ⟨g, hg, hin⟩) with (hframe | hdone) | ⟨b, l, rfl, hl⟩
  · exact absurd hframe h
  · -- A frame that was complete is not continued.
    cases hop : op.heard? with
    | none =>
      have hp : g.phase ≠ .scanning := by rcases hin with hp | hp | hp <;> simp [hp]
      obtain ⟨f, hf, hdone⟩ := hdone
      cases hf.symm.trans ((step_after hop).receiver_eq hg hp)
      exact absurd hdone hin.ne_done
    | some heard =>
      cases op with
      | receive carrier b =>
        exact absurd (.inl ⟨g, hg, hin⟩) (not_hasFrame_of_done hdone carrier b)
      | _ => cases hop
  · have hmirrors : ((c.after (.receive true b))).Mirrors _ l [] := mirrors_announced hl
    refine ⟨l, hmirrors.octets_eq, ?_⟩
    rintro ⟨f', hf', hp⟩
    obtain ⟨f, hf, hwithin⟩ := hmirrors.framer
    cases hf.symm.trans hf'
    generalize hnone : ([] : List UInt8) = p at hwithin
    cases hwithin with
    | body phase_eq | checks _ phase_eq => cases hp.symm.trans phase_eq
    | lastCheck => simp at hnone

/-- The node cannot take octets out of the buffer and leave the frame coming in alone. -/
theorem length_le_after (hc : c.Reachable) {f : ReceiveFramer} (hf : c.receiver = some f)
    {op : Operation} (hop : op.heard? = none) (he : op.emptiesFrame = false)
    (hon : (c.after op).receiver ≠ none) :
    c.buffer.octets.length ≤ (c.after op).buffer.octets.length := by
  cases hw : op.writesFrame with
  | false =>
    have hoctets := (sameFrame_after hc hf hop hw hon).octets_eq
    exact Nat.le_of_eq (congrArg List.length hoctets.symm)
  | true =>
    cases op with
    | pushFrame b => exact length_le_push c.buffer b
    | uploadFrame index b => exact length_le_poke { c.buffer with received := false } index b
    | pokeFrame index b => exact length_le_poke c.buffer index b
    | clearFrame | prepareFrame => cases he
    | _ => cases hw

theorem HoldsFrame.after (h : c.HoldsFrame) (hc : c.Reachable) {op : Operation}
    (he : op.emptiesFrame = false) : (c.after op).HoldsFrame := by
  intro g hg hin
  by_cases hframe : c.InFrame
  · obtain ⟨f, hf, hfin⟩ := hframe
    cases hop : op.heard? with
    | none =>
      have hp : g.phase ≠ .scanning := by rcases hin with hp | hp | hp <;> simp [hp]
      have hsame := (step_after hop).receiver_eq hg hp
      exact Nat.le_trans (h g hsame hin)
        (length_le_after hc hf hop he (hg ▸ Option.some_ne_none g))
    | some heard =>
      cases op with
      | receive carrier b =>
        have hone : 1 ≤ c.buffer.octets.length :=
          Nat.le_trans (by split <;> decide) (h f hf hfin)
        have hnext : (c.receive carrier b).2.InFrame := ⟨g, hg, hin⟩
        have hlength := length_receive_of_inFrame hf hfin hnext
        change _ ≤ (c.receive carrier b).2.buffer.octets.length
        rw [hlength]
        split <;> omega
      | _ => cases hop
  · obtain ⟨l, hl, hcheck⟩ := octets_of_enters hframe ⟨g, hg, hin⟩
    rw [hl, if_neg fun hp => hcheck ⟨g, hg, hp⟩]
    exact Nat.le_refl 1

theorem Tolerates.after (h : c.Tolerates q) (hc : c.Reachable) {op : Operation}
    (hs : op.startsTransmitter = true → c.transmitter = none)
    (hq : q < (c.after op).buffer.octets.length) : (c.after op).Tolerates q := by
  refine ⟨h.two_le, hq, fun hin => ?_,
    sendsOwn_after hc h.sendsOwn hs (List.ne_nil_of_length_pos (Nat.zero_lt_of_lt hq))⟩
  obtain ⟨l, hl, -⟩ := octets_of_enters h.outside hin
  have htwo := h.two_le
  rw [hl, List.length_singleton] at hq
  omega

end Chip

end Transceiver
