import Transceiver.Proofs.FrameTransmission
import Transceiver.Proofs.OwedAcknowledgement

/-!
# Acknowledgements on air

A chip that has turned around sends an acknowledgement. Its framer looks at what is owed with the
length octet and once more with the frame control; from then on nothing that the node does can
change what goes on air, as long as the session lasts. Before, only a command that starts the
transmitter can: with it the chip forgets what is owed, although the transmitter runs already and
there is no receiver to be stopped. `acknowledgement_on_air` says what is sent if no such command
comes too early, and `acknowledgement_lost_on_air` what becomes of the session otherwise.
-/

namespace Transceiver

namespace Acknowledgement

def onAir (k : Acknowledgement) (sequence : UInt8) : List UInt8 :=
  syncHeader ++ ackLength :: k.octets sequence

/-- After so many octets the framer does not ask any more what is owed. A second look, with the
frame control, is only for the announcement of waiting data. -/
def settled : Acknowledgement → Nat
  | .plain => 6
  | .pending => 7

end Acknowledgement

/-! ### The framer -/

namespace TransmitFramer

inductive Answers : Nat → TransmitFramer → Prop where
  | preamble {n : Nat} {f : TransmitFramer} (phase_eq : f.phase = .preamble)
      (counter_eq : f.counter.toNat = n) (early : n < 4) : Answers n f
  | delimiter {f : TransmitFramer} (phase_eq : f.phase = .delimiter) : Answers 4 f
  | length {f : TransmitFramer} (phase_eq : f.phase = .length) : Answers 5 f
  | inPacket {n : Nat} {f : TransmitFramer} (phase_eq : f.phase = .inPacket)
      (isAck_eq : f.isAck = true) (counter_eq : f.counter.toNat = n) (early : n < 3)
      (sound : f.Sound) : Answers (6 + n) f
  | behind {n : Nat} {f : TransmitFramer} (isAck_eq : f.isAck = true)
      (packet : ¬f.BeforePacket) (late : 9 ≤ n) : Answers n f

structure Continues (k : Acknowledgement) (sequence : UInt8) (n : Nat)
    (r : TransmitFramer × TransmitOutput) : Prop where
  framer : r.1.Answers (n + 1)
  consumed_eq : r.2.consumed = false
  underrun_eq : r.2.underrun = false
  acknowledged_eq : n < 8 → r.2.acknowledged = false
  octet_eq : n < 9 → (k.onAir sequence)[n]? = some r.2.octet

variable {f : TransmitFramer} {n : Nat} {i : TransmitInput} {k : Acknowledgement}

/-- The mark on the last octet makes no difference. -/
theorem Continues.step (hd : f.phase ≠ .done) (h : Continues k i.sequence n (f.advance i)) :
    Continues k i.sequence n (f.step i) := by
  rw [step_of_ne_done i hd]
  exact ⟨h.framer, h.consumed_eq, h.underrun_eq, h.acknowledged_eq, h.octet_eq⟩

theorem continues_preamble (hc : f.counter.toNat = n) (hn : n < 4) (sequence : UInt8) :
    Continues k sequence n f.stepPreamble := by
  obtain ⟨hcounter, hphase⟩ := stepPreamble_of_counter hc hn
  have hzero : n = 0 ∨ n = 1 ∨ n = 2 ∨ n = 3 := by omega
  refine ⟨?_, rfl, rfl, fun _ => rfl, fun _ => ?_⟩
  · by_cases h3 : n = 3
    · rw [if_pos h3] at hphase
      rw [h3]
      exact .delimiter hphase
    · rw [if_neg h3] at hphase
      exact .preamble hphase hcounter (by omega)
  · rcases hzero with rfl | rfl | rfl | rfl <;> rfl

theorem continues_length (ho : i.owed.isSome) : Continues k i.sequence 5 (stepLength i) := by
  have hframer := stepLength_of_owed i ho
  have hout : (stepLength i).2 = .send ackLength := by simp only [stepLength, if_pos ho]
  refine ⟨?_, ?_, ?_, fun _ => ?_, fun _ => ?_⟩
  · have hsound := sound_stepLength i
    rw [hframer] at hsound ⊢
    exact .inPacket (n := 0) rfl rfl rfl (by omega) hsound
  all_goals rw [hout]; rfl

theorem counter_stepInPacket (f : TransmitFramer) (i : TransmitInput) :
    (f.stepInPacket i).1.counter = f.counter + 1 := by
  unfold stepInPacket
  simp only
  split <;> rfl

theorem snd_stepInPacket (ha : f.isAck = true) :
    (f.stepInPacket i).2 = ackOctet f.counter i := by
  unfold stepInPacket
  simp only [if_pos ha]
  split <;> rfl

/-- The octets of an acknowledgement are the framer's own. -/
theorem ackOctet_own (counter : UInt8) (i : TransmitInput) :
    (ackOctet counter i).consumed = false ∧ (ackOctet counter i).underrun = false := by
  unfold ackOctet
  split <;> exact ⟨rfl, rfl⟩

theorem continues_inPacket (ha : f.isAck = true) (hc : f.counter.toNat = n) (hn : n < 3)
    (hs : f.Sound) (hpending : n = 0 → (i.owed = some .pending ↔ k = .pending)) :
    Continues k i.sequence (6 + n) (f.stepInPacket i) := by
  obtain ⟨hpacket, hisAck, hlength, hpayload⟩ := f.stepInPacket_keeps i
  have hcounter : (f.stepInPacket i).1.counter.toNat = n + 1 := by
    rw [counter_stepInPacket, octet_toNat_succ (by omega), hc]
  have hout := snd_stepInPacket (i := i) ha
  have hown := ackOctet_own f.counter i
  rw [← hout] at hown
  have hcases : n = 0 ∧ f.counter = 0 ∨ n = 1 ∧ f.counter = 1 ∨ n = 2 ∧ f.counter = 2 := by
    simp only [← UInt8.toNat_inj, hc]
    change n = 0 ∧ n = 0 ∨ n = 1 ∧ n = 1 ∨ n = 2 ∧ n = 2
    omega
  refine ⟨?_, hown.1, hown.2, fun h => ?_, fun _ => ?_⟩
  · by_cases h2 : n < 2
    · exact .inPacket (stepInPacket_goes_on i hs ha (hc ▸ h2)).1 (hisAck.trans ha) hcounter
        (by omega) (hs.of_behind hpacket hisAck hlength hpayload)
    · exact .behind (hisAck.trans ha) hpacket (by omega)
  · rw [hout]
    rcases hcases with ⟨-, h0⟩ | ⟨-, h1⟩ | ⟨h2, -⟩
    · rw [h0]
      rfl
    · rw [h1]
      rfl
    · omega
  · rw [hout]
    rcases hcases with ⟨rfl, h0⟩ | ⟨rfl, h1⟩ | ⟨rfl, h2⟩
    · rw [h0]
      simp only [ackOctet, hpending rfl]
      rfl
    · rw [h1]
      rfl
    · rw [h2]
      rfl

/-- Behind its sequence number an acknowledgement only comes to its end. -/
theorem continues_behind (ha : f.isAck = true) (hb : ¬f.BeforePacket) (hn : 9 ≤ n) :
    Continues k i.sequence n (f.step i) := by
  have hlater (r : TransmitFramer × TransmitOutput) (hisAck : r.1.isAck = true)
      (hpacket : ¬r.1.BeforePacket) (hc : r.2.consumed = false) (hu : r.2.underrun = false) :
      Continues k i.sequence n r :=
    ⟨.behind hisAck hpacket (by omega), hc, hu, fun h => absurd h (by omega),
      fun h => absurd h (by omega)⟩
  by_cases hd : f.phase = .done
  · rw [step, if_pos hd]
    exact hlater _ ha hb rfl rfl
  · refine .step hd ?_
    unfold TransmitFramer.advance
    cases hp : f.phase with
    | preamble => exact absurd (.inl hp) hb
    | delimiter => exact absurd (.inr (.inl hp)) hb
    | length => exact absurd (.inr (.inr hp)) hb
    | inPacket =>
      obtain ⟨hpacket, hisAck, -⟩ := f.stepInPacket_keeps i
      have hown := ackOctet_own f.counter i
      rw [← snd_stepInPacket ha] at hown
      exact hlater _ (hisAck.trans ha) hpacket hown.1 hown.2
    | check1 | check2 => exact hlater _ ha (by simp [BeforePacket]) rfl rfl
    | done => exact absurd hp hd

theorem Answers.step (h : f.Answers n) (howed : n = 5 → i.owed.isSome)
    (hpending : n = 6 → (i.owed = some .pending ↔ k = .pending)) :
    Continues k i.sequence n (f.step i) := by
  cases h with
  | preamble phase_eq counter_eq early =>
    refine .step (by simp [phase_eq]) ?_
    simp only [TransmitFramer.advance, phase_eq]
    exact continues_preamble counter_eq early _
  | delimiter phase_eq =>
    refine .step (by simp [phase_eq]) ?_
    simp only [TransmitFramer.advance, phase_eq]
    exact ⟨.length rfl, rfl, rfl, fun _ => rfl, fun _ => rfl⟩
  | length phase_eq =>
    refine .step (by simp [phase_eq]) ?_
    simp only [TransmitFramer.advance, phase_eq]
    exact continues_length (howed rfl)
  | inPacket phase_eq isAck_eq counter_eq early sound =>
    refine .step (by simp [phase_eq]) ?_
    simp only [TransmitFramer.advance, phase_eq]
    exact continues_inPacket isAck_eq counter_eq early sound fun h => hpending (by omega)
  | behind isAck_eq packet late => exact continues_behind isAck_eq packet late

end TransmitFramer

/-! ### The node -/

namespace Operation

def command? : Operation → Option Command
  | .command code => some ((Command.ofCode? code).getD .nop)
  | .writeRegister r v =>
    if r = .trxState then some ((Command.ofCode? (v &&& 0x1F)).getD .nop) else none
  | _ => none

def startsTransmitter (op : Operation) : Bool :=
  op.command? == some .txStart || op.command? == some .txAretOn

def controls : Operation → Bool
  | .writeRegister _ _ | .command _ | .sleepPin _ => true
  | _ => false

end Operation

namespace Chip

variable {G : Type}

/-- `c.KeepsSending d`: between `c` and `d` the node has not touched the frame on air. -/
structure KeepsSending (c d : Chip G) : Prop where
  transmitter_eq : d.transmitter = c.transmitter
  buffer_eq : d.buffer = c.buffer
  sequence_eq : d.sequence = c.sequence

variable {c d e : Chip G} {f : TransmitFramer}

theorem KeepsSending.trans (h : c.KeepsSending d) (h' : d.KeepsSending e) : c.KeepsSending e :=
  ⟨h'.transmitter_eq.trans h.transmitter_eq, h'.buffer_eq.trans h.buffer_eq,
    h'.sequence_eq.trans h.sequence_eq⟩

theorem keepsSending_abandonReception (c : Chip G) : c.KeepsSending c.abandonReception := by
  unfold abandonReception endReception
  cases c.receiver <;> exact ⟨rfl, rfl, rfl⟩

/-- A transmitter that runs is not started again. -/
theorem keepsSending_start (hf : c.transmitter = some f) :
    c.KeepsSending c.abandonReception.beginTransmission := by
  have habandon := c.keepsSending_abandonReception
  have hrunning : c.abandonReception.beginTransmission = c.abandonReception := by
    simp only [beginTransmission, habandon.transmitter_eq, hf]
  rw [hrunning]
  exact habandon

theorem keepsSending_execute (hf : c.transmitter = some f) {k : Command}
    (ht : (c.execute k).transmitter ≠ none) : c.KeepsSending (c.execute k) ∧
      ((c.execute k).owed = c.owed ∨
        (k = .txStart ∨ k = .txAretOn) ∧ (c.execute k).owed = none) := by
  have hexecute := c.activity_execute k
  have howed : (c.execute k).owed = (c.activity.execute k).owed :=
    congrArg Activity.owed hexecute
  cases k with
  | nop | forcePllOn | txOn => exact ⟨⟨rfl, rfl, rfl⟩, .inl rfl⟩
  | txStart =>
    have hentered : c.KeepsSending (c.enter .busyTx) := ⟨rfl, rfl, rfl⟩
    exact ⟨hentered.trans (keepsSending_start hf), .inr ⟨.inl rfl, howed⟩⟩
  | txAretOn =>
    let invalid : Chip G := { c with registers := c.registers.setOutcome 0xE0 }
    have hentered : c.KeepsSending (invalid.enter .busyTxAret) := ⟨rfl, rfl, rfl⟩
    exact ⟨hentered.trans (keepsSending_start hf), .inr ⟨.inr rfl, howed⟩⟩
  | forceTrxOff | trxOff | rxOn | rxAackOn =>
    exact absurd (congrArg Activity.transmitter hexecute) ht

/-! ### The session -/

structure Answers (c : Chip G) (k : Acknowledgement) (n : Nat) (d : Chip G) : Prop where
  framer : ∃ f, d.transmitter = some f ∧ f.Answers n
  buffer_eq : d.buffer = c.buffer
  sequence_eq : d.sequence = c.sequence
  owed_eq : n < 6 → d.owed = some k
  pending_iff : n = 6 → (d.owed = some .pending ↔ k = .pending)

variable {k : Acknowledgement} {n : Nat}

/-- An octet of the framer's own, and not the last one, can only end what is owed. -/
theorem afterOctet_of_own {out : TransmitOutput} (hc : out.consumed = false)
    (hu : out.underrun = false) (hf : out.finished = false) :
    c.afterOctet out = { c with owed := if out.acknowledged then none else c.owed } := by
  simp only [afterOctet, hc, hu, hf, Bool.false_eq_true, if_false]
  split <;> rfl

/-- The chip follows its framer. -/
theorem Answers.transmit (h : c.Answers k n d) (ht : d.transmit.2.transmitter ≠ none) :
    c.Answers k (n + 1) d.transmit.2 ∧
      (n < 9 → (k.onAir c.sequence)[n]? = some d.transmit.1) := by
  obtain ⟨f, hf, hanswers⟩ := h.framer
  have howed (hn : n = 5) : d.transmitInput.owed.isSome := by
    have hk : d.owed = some k := h.owed_eq (by omega)
    simp [transmitInput, hk]
  have hstep := hanswers.step (i := d.transmitInput) howed h.pending_iff
  have hsequence : d.transmitInput.sequence = c.sequence := h.sequence_eq
  rw [hsequence] at hstep
  have hmore : (f.step d.transmitInput).2.finished = false := by
    refine eq_false_of_ne_true fun hlast => ht ?_
    have hoff := congrArg Activity.transmitter d.activity_transmit
    rw [Activity.transmit_of_last (a := d.activity) hf hlast] at hoff
    exact hoff
  have hsent : d.transmit = ((f.step d.transmitInput).2.octet,
      { d with
        transmitter := some (f.step d.transmitInput).1
        owed := if (f.step d.transmitInput).2.acknowledged then none else d.owed }) := by
    simp only [Chip.transmit, hf]
    rw [afterOctet_of_own hstep.consumed_eq hstep.underrun_eq hmore]
  rw [hsent]
  have hkept (hn : n < 8) : (if (f.step d.transmitInput).2.acknowledged then none else d.owed) =
      d.owed := by
    rw [hstep.acknowledged_eq hn]
    rfl
  refine ⟨⟨⟨_, rfl, hstep.framer⟩, h.buffer_eq, h.sequence_eq, fun hn => ?_, fun hn => ?_⟩,
    hstep.octet_eq⟩
  · exact (hkept (by omega)).trans (h.owed_eq (by omega))
  · have hk : d.owed = some k := h.owed_eq (by omega)
    rw [hkept (by omega), hk]
    exact ⟨fun he => Option.some.inj he, congrArg some⟩

variable [RandomWords G]

/-- While the transmitter stays on, the node can make the chip forget what is owed, by a command
that starts it, but cannot touch the frame on air. -/
theorem keepsSending_after (hf : c.transmitter = some f) {op : Operation}
    (hop : op.controls = true) (ht : (c.after op).transmitter ≠ none) :
    c.KeepsSending (c.after op) ∧ ((c.after op).owed = c.owed ∨
      op.startsTransmitter = true ∧ (c.after op).owed = none) := by
  have hstarts {k : Command} (hk : op.command? = some k) (h : k = .txStart ∨ k = .txAretOn) :
      op.startsTransmitter = true := by
    unfold Operation.startsTransmitter
    rw [hk]
    rcases h with rfl | rfl <;> rfl
  cases op with
  | writeRegister r v =>
    let set : Chip G := { c with registers := c.registers.set r v }
    by_cases hs : r = .trxStatus
    · have hafter : c.after (.writeRegister r v) = c := if_pos hs
      rw [hafter]
      exact ⟨⟨rfl, rfl, rfl⟩, .inl rfl⟩
    · by_cases hr : r = .trxState
      · have hafter : c.after (.writeRegister r v) = set.command (v &&& 0x1F) :=
          (if_neg hs).trans (if_pos hr)
        rw [hafter] at ht ⊢
        obtain ⟨hkeeps, howed⟩ := keepsSending_execute (c := set) hf ht
        exact ⟨⟨hkeeps.1, hkeeps.2, hkeeps.3⟩,
          howed.imp_right (And.imp_left (hstarts (if_pos hr)))⟩
      · have hafter : c.after (.writeRegister r v) = set := (if_neg hs).trans (if_neg hr)
        rw [hafter]
        exact ⟨⟨rfl, rfl, rfl⟩, .inl rfl⟩
  | command code =>
    obtain ⟨hkeeps, howed⟩ := keepsSending_execute hf ht
    exact ⟨hkeeps, howed.imp_right (And.imp_left (hstarts rfl))⟩
  | sleepPin level =>
    change c.KeepsSending (c.sleepPin level) ∧ ((c.sleepPin level).owed = c.owed ∨ _)
    unfold sleepPin
    split <;> exact ⟨⟨rfl, rfl, rfl⟩, .inl rfl⟩
  | _ => cases hop

/-- The octets that the chip puts on air along a history. -/
def sent (c : Chip G) : List Operation → List UInt8
  | [] => []
  | .transmit :: ops => c.transmit.1 :: c.transmit.2.sent ops
  | op :: ops => (c.after op).sent ops

theorem sent_append (c : Chip G) (l m : List Operation) :
    c.sent (l ++ m) = c.sent l ++ (c.run l).sent m := by
  induction l generalizing c with
  | nil => rfl
  | cons op l ih =>
    cases op with
    | transmit => simp only [List.cons_append, sent, ih, run_cons, after]
    | _ => exact ih _

theorem Answers.control (h : c.Answers k n d) {op : Operation} (hop : op.controls = true)
    (ht : (d.after op).transmitter ≠ none) (hs : op.startsTransmitter = true → k.settled ≤ n) :
    c.Answers k n (d.after op) := by
  obtain ⟨f, hf, hanswers⟩ := h.framer
  obtain ⟨hkeeps, howed⟩ := keepsSending_after hf hop ht
  refine ⟨⟨f, hkeeps.transmitter_eq.trans hf, hanswers⟩, hkeeps.buffer_eq.trans h.buffer_eq,
    hkeeps.sequence_eq.trans h.sequence_eq, fun hn => ?_, fun hn => ?_⟩
  · rcases howed with howed | ⟨hstarts, -⟩
    · exact howed.trans (h.owed_eq hn)
    · have hsettled : 6 ≤ k.settled := by cases k <;> decide
      exact absurd (hs hstarts) (by omega)
  · rcases howed with howed | ⟨hstarts, howed⟩
    · rw [howed]
      exact h.pending_iff hn
    · have hsettled := hs hstarts
      rw [howed]
      cases k with
      | plain => simp
      | pending => exact absurd hsettled (by simp [Acknowledgement.settled, hn])

theorem Answers.run (h : c.Answers k n d) {ops : List Operation}
    (hops : ∀ op ∈ ops, op.controls = true ∨ op = .transmit)
    (ht : d.Throughout (fun e => e.isTransmitting = true) ops)
    (hs : ∀ i (h : i < ops.length), ops[i].startsTransmitter = true →
      k.settled ≤ n + (d.sent (ops.take i)).length) :
    (d.run ops).buffer = c.buffer ∧
      (d.sent ops).take (9 - n) <+: (k.onAir c.sequence).drop n := by
  induction ops generalizing d n with
  | nil => exact ⟨h.buffer_eq, by simp [sent]⟩
  | cons op ops ih =>
    have hrest : ∀ x ∈ ops, x.controls = true ∨ x = .transmit :=
      fun x hx => hops x (List.mem_cons_of_mem op hx)
    have hon : (d.after op).transmitter ≠ none := Option.isSome_iff_ne_none.1 ht.next.now
    have hlater (i : Nat) (h : i < ops.length) (hi : ops[i].startsTransmitter = true) :
        k.settled ≤ n + (d.sent (op :: ops.take i)).length := hs (i + 1) (Nat.succ_lt_succ h) hi
    rcases hops op List.mem_cons_self with hcontrols | rfl
    · have hsilent (l : List Operation) : d.sent (op :: l) = (d.after op).sent l := by
        cases op with
        | transmit => cases hcontrols
        | _ => rfl
      have hstep := h.control hcontrols hon (hs 0 (Nat.succ_pos _))
      simp only [hsilent] at hlater ⊢
      exact ih hstep hrest ht.next hlater
    · obtain ⟨hstep, hoctet⟩ := h.transmit hon
      have hcount (i : Nat) : n + (d.sent (.transmit :: ops.take i)).length =
          n + 1 + (d.transmit.2.sent (ops.take i)).length := by
        rw [sent, List.length_cons]
        omega
      simp only [hcount] at hlater
      obtain ⟨hbuffer, hsent⟩ := ih hstep hrest ht.next hlater
      refine ⟨hbuffer, ?_⟩
      by_cases hn : n < 9
      · obtain ⟨hlt, hoctet⟩ := List.getElem?_eq_some_iff.1 (hoctet hn)
        have hleft : 9 - n = 9 - (n + 1) + 1 := by omega
        rw [sent, hleft, List.take_succ_cons, List.drop_eq_getElem_cons hlt, hoctet]
        exact List.cons_prefix_cons.2 ⟨rfl, hsent⟩
      · have hnone : 9 - n = 0 := by omega
        rw [hnone, List.take_zero]
        exact List.nil_prefix

/-- A chip that received and now transmits has turned around. -/
theorem answers_of_turned_around (hc : c.Reachable) (hr : c.isReceiving = true) (carrier : Bool)
    (b : UInt8) (ht : (c.receive carrier b).2.isTransmitting = true) :
    let d := (c.receive carrier b).2
    ∃ k, d.owed = some k ∧ d.Answers k 0 d := by
  intro d
  have hx := hc.orderly
  obtain ⟨f, hf⟩ := Option.isSome_iff_exists.1 hr
  have hoff : c.activity.transmitter = none := hx.transmitter_eq_none hf
  have hon : d.activity.transmitter ≠ none := Option.isSome_iff_ne_none.1 ht
  have hheard := heard_receive c carrier b
  change c.activity.Heard d.activity at hheard
  generalize hb : d.activity = a at hheard hon
  cases hheard with
  | deaf | schedules | passes => exact absurd hoff hon
  | hears hr hp h =>
    obtain ⟨g, o, v, -, rfl⟩ := h
    exact absurd hoff hon
  | turnsAround hr hp ho =>
    obtain ⟨k, hk⟩ := Option.isSome_iff_exists.1 ho.1
    have hclosed : c.activity.closeReception.transmitter = none := hoff
    rw [Activity.openTransmission_of_none hclosed] at hb
    have hstarted : d.transmitter = some .start := congrArg Activity.transmitter hb
    have howed : d.owed = some k := (congrArg Activity.owed hb).trans hk
    exact ⟨k, howed, ⟨_, hstarted, .preamble rfl rfl (by omega)⟩, rfl, rfl, fun _ => howed, nofun⟩

/-- What a chip that has just turned around puts on air. The node may write registers, give commands
and move the sleep pin as it likes, between any two octets, as long as the session lasts: nothing is
taken out of the frame buffer, and the octets are those of the acknowledgement that was owed at the
turn, under the sequence number of that moment. The one thing that the node must not do is to start
the transmitter once more before the framer has made up its mind. -/
theorem acknowledgement_on_air (hc : c.Reachable) (hr : c.isReceiving = true) (carrier : Bool)
    (b : UInt8) (ht : (c.receive carrier b).2.isTransmitting = true) :
    let d := (c.receive carrier b).2
    ∃ k, d.owed = some k ∧ ∀ ops : List Operation,
      (∀ op ∈ ops, op.controls = true ∨ op = .transmit) →
      d.Throughout (fun e => e.isTransmitting = true) ops →
      (∀ i (h : i < ops.length), ops[i].startsTransmitter = true →
        k.settled ≤ (d.sent (ops.take i)).length) →
      (d.run ops).buffer = d.buffer ∧
        (d.sent ops).take 9 <+:
          [0, 0, 0, 0, 0x7A, 5, if k = .pending then 0x12 else 0x02, 0, d.sequence] := by
  intro d
  obtain ⟨k, howed, hanswers⟩ := answers_of_turned_around hc hr carrier b ht
  refine ⟨k, howed, fun ops hops hon hstarts => ?_⟩
  refine hanswers.run hops hon fun i h hi => ?_
  rw [Nat.zero_add]
  exact hstarts i h hi

/-- The acknowledgement of a data frame, while the node gives commands. When six octets are out even
the one that starts the transmitter does no harm. -/
theorem acknowledgement_on_air_under_commands :
    let config : Configuration := ⟨.at86rf231, Vector.replicate 8 0, none, 0⟩
    let frame := 6 :: [0x21, 0x00, 0x2A, 0x55] ++ Crc.octets (Crc.ofList [0x21, 0x00, 0x2A, 0x55])
    let c := Chip.run (.build config (Instant.mk 0) (Mixer.mk 0))
      (.command Command.rxAackOn.code :: (syncHeader ++ frame).map (.receive true))
    let d := (c.receive false 0).2
    let ops : List Operation := [.transmit, .writeRegister .csmaSeed1 0x62, .transmit, .transmit,
      .command Command.txOn.code, .sleepPin true, .transmit, .transmit, .transmit,
      .writeRegister .trxState Command.txStart.code, .transmit, .transmit, .transmit]
    c.Reachable ∧ d.owed = some .plain ∧ (d.run ops).isTransmitting = true ∧
      (d.run ops).owed = none ∧ (d.run ops).buffer = d.buffer ∧ (d.sent ops).length = 9 ∧
      (d.sent ops).take 9 <+: [0, 0, 0, 0, 0x7A, 5, 0x02, 0, 0x2A] := by
  intro config frame c d ops
  have hc : c.Reachable := (reachable_build config _ _).run _
  have hturned : d.isTransmitting = true := by decide +kernel
  obtain ⟨k, howed, hsent⟩ := acknowledgement_on_air hc (by decide +kernel) false 0 hturned
  have hplain : d.owed = some .plain := by decide +kernel
  cases Option.some.inj (howed.symm.trans hplain)
  have hops : ∀ op ∈ ops, op.controls = true ∨ op = .transmit := by
    intro op hop
    simp only [ops, List.mem_cons, List.not_mem_nil, or_false] at hop
    rcases hop with rfl | rfl | rfl | rfl | rfl | rfl | rfl | rfl | rfl | rfl | rfl | rfl | rfl <;>
      first | exact .inl rfl | exact .inr rfl
  have hsequence : d.sequence = 0x2A := by decide +kernel
  obtain ⟨hbuffer, hprefix⟩ := hsent ops hops (by decide +kernel) (by decide +kernel)
  rw [hsequence] at hprefix
  exact ⟨hc, hplain, by decide +kernel, by decide +kernel, hbuffer, by decide +kernel, hprefix⟩

/-- A session that began as an acknowledgement need not go on as one. If the node starts the
transmitter once more, right after the turn, the session goes on and sends back the frame that was
received. -/
theorem acknowledgement_lost_on_air :
    let config : Configuration := ⟨.at86rf231, Vector.replicate 8 0, none, 0⟩
    let frame := 6 :: [0x21, 0x00, 0x2A, 0x55] ++ Crc.octets (Crc.ofList [0x21, 0x00, 0x2A, 0x55])
    let c := Chip.run (.build config (Instant.mk 0) (Mixer.mk 0))
      (.command Command.rxAackOn.code :: (syncHeader ++ frame).map (.receive true))
    let d := (c.receive false 0).2
    let ops : List Operation := .command Command.txStart.code :: List.replicate 9 .transmit
    c.Reachable ∧ c.isReceiving = true ∧ d.isTransmitting = true ∧ d.owed = some .plain ∧
      d.sequence = 0x2A ∧ (∀ op ∈ ops, op.controls = true ∨ op = .transmit) ∧
      d.Throughout (fun e => e.isTransmitting = true) ops ∧
      d.sent ops = [0, 0, 0, 0, 0x7A, 6, 0x21, 0, 0x2A] ∧
      (d.run ops).buffer.readPosition = d.buffer.readPosition + 4 ∧
      ¬(d.sent ops).take 9 <+: [0, 0, 0, 0, 0x7A, 5, 0x02, 0, 0x2A] := by
  intro config frame c d ops
  have hc : c.Reachable := (reachable_build config _ _).run _
  have hops : ∀ op ∈ ops, op.controls = true ∨ op = .transmit := by
    intro op hop
    rcases List.mem_cons.1 hop with rfl | hop
    · exact .inl rfl
    · exact .inr (List.eq_of_mem_replicate hop)
  have hsent : d.sent ops = [0, 0, 0, 0, 0x7A, 6, 0x21, 0, 0x2A] := by decide +kernel
  refine ⟨hc, ?_, ?_, ?_, ?_, hops, ?_, hsent, ?_, ?_⟩
  case refine_7 =>
    rw [hsent]
    decide
  all_goals decide +kernel

end Chip

end Transceiver
