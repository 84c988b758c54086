import Mathlib.Data.List.Induction
import Transceiver.Proofs.AcknowledgementOnAir
import Transceiver.Proofs.InterruptStatus
import Transceiver.Proofs.QueuedFrame
import Transceiver.Proofs.RoundTrip

/-!
# Transmission out of the queue

While the transmitter sends, the node goes on loading the frame buffer, in any order with the octets
on air. `Relayed` says what becomes of such a transmission. It holds of every history by
`relays_run`: behind each operation the chip has taken out of the buffer what the transmitter found,
and the framer is at its place in the frame (`Relays`), with one lemma for an octet loaded, one for
an octet of the frame on air and one for the silence behind it.
-/

namespace Transceiver

namespace Operation

def isTransmit : Operation → Bool
  | .transmit => true
  | _ => false

def pushed? : Operation → Option UInt8
  | .pushFrame b => some b
  | _ => none

end Operation

def transmits (ops : List Operation) : Nat := ops.countP Operation.isTransmit

/-- The octets that the node has loaded into an empty frame buffer, as far as it has room. -/
def loaded (ops : List Operation) : List UInt8 :=
  (ops.filterMap Operation.pushed?).take FrameBuffer.capacity

/-! ### The chip -/

namespace Chip

open QueuedFrame

variable {G : Type} (c : Chip G)

def taken? : Option UInt8 :=
  c.transmitter.bind fun f =>
    if (f.step c.transmitInput).2.consumed then c.buffer.front? else none

theorem buffer_afterOctet (out : TransmitOutput) :
    (c.afterOctet out).buffer = if out.consumed then c.buffer.pop.2 else c.buffer := by
  have hraised (d : Chip G) :
      (if out.underrun then d.raise .underrun else d).buffer = d.buffer := by
    split
    · rw [raise_eq]
    · rfl
  have hfinished (d : Chip G) :
      (if out.finished then d.finishTransmission else d).buffer = d.buffer := by
    split
    · exact d.finished_finishTransmission.buffer_eq
    · rfl
  unfold afterOctet
  rw [hfinished, hraised]
  cases out.acknowledged <;> cases out.consumed <;> rfl

theorem autoFcs_afterOctet {out : TransmitOutput} (hf : out.finished = false) :
    (c.afterOctet out).registers.autoFcs = c.registers.autoFcs := by
  have hraised (d : Chip G) :
      (if out.underrun then d.raise .underrun else d).registers.autoFcs = d.registers.autoFcs := by
    split
    · exact (d.sameSettings_raise .underrun).autoFcs
    · rfl
  unfold afterOctet
  simp only [hf, Bool.false_eq_true, if_false]
  rw [hraised]
  cases out.acknowledged <;> cases out.consumed <;> rfl

variable [RandomWords G]

/-- The octets that the transmitter takes out of the frame buffer along a history. -/
def takenAlong (c : Chip G) : List Operation → List UInt8
  | [] => []
  | .transmit :: ops => c.taken?.toList ++ c.transmit.2.takenAlong ops
  | op :: ops => (c.after op).takenAlong ops

theorem takenAlong_append (l m : List Operation) :
    c.takenAlong (l ++ m) = c.takenAlong l ++ (c.run l).takenAlong m := by
  induction l generalizing c with
  | nil => rfl
  | cons op l ih =>
    cases op with
    | transmit => simp only [List.cons_append, takenAlong, ih, run_cons, after, List.append_assoc]
    | _ => exact ih _

structure Emits (e : Chip G) (autoFcs : Bool) (n : Nat) (given : List (Option UInt8)) : Prop where
  octet_eq : (wire autoFcs (answer autoFcs n given e.buffer.front?))[n]? = some e.transmit.1
  taken_eq : e.taken? = if Asks autoFcs n given then e.buffer.front? else none
  buffer_eq : e.transmit.2.buffer =
    { e.buffer with readPosition := e.buffer.readPosition +
        (if Asks autoFcs n given then e.buffer.front?.toList else []).length }
  events_eq : (e.occurrences .transmit).map Occurrence.event =
    (if Asks autoFcs n given ∧ e.buffer.front? = none then [.underrun] else []) ++
      if duration autoFcs (frameLength (answer autoFcs n given e.buffer.front?)) ≤ n + 1
      then [.txEnd] else []
  le_duration : n + 1 ≤ duration autoFcs (frameLength (answer autoFcs n given e.buffer.front?))
  running : n + 1 < duration autoFcs (frameLength (answer autoFcs n given e.buffer.front?)) →
    ∃ f, e.transmit.2.transmitter = some f ∧
      TransmitFramer.Underway autoFcs (n + 1) (answer autoFcs n given e.buffer.front?) f ∧
      e.transmit.2.registers.autoFcs = autoFcs ∧ e.transmit.2.owed = none
  finished : duration autoFcs (frameLength (answer autoFcs n given e.buffer.front?)) ≤ n + 1 →
    e.transmit.2.state = .pllOn ∧ e.transmit.2.transmitter = none ∧ e.transmit.2.owed = none ∧
      e.transmit.2.registers.get .trxState &&& 0xE0 = 0

/-- The chip follows its framer. -/
theorem emits_of_underway {e : Chip G} {autoFcs : Bool} {n : Nat} {given : List (Option UInt8)}
    {f : TransmitFramer} (hf : e.transmitter = some f)
    (hunderway : TransmitFramer.Underway autoFcs n given f)
    (hfcs : e.registers.autoFcs = autoFcs) (howed : e.owed = none) : e.Emits autoFcs n given := by
  let b := e.buffer.front?
  let r := f.step e.transmitInput
  have hserves : TransmitFramer.Serves autoFcs n given b r :=
    hunderway.step (i := e.transmitInput) hfcs howed
  let e' := Chip.afterOctet { e with transmitter := some r.1 } r.2
  have htransmit : e.transmit = (r.2.octet, e') := by simp only [transmit, hf, e', r]
  have hmore := hserves.le_duration
  have hlast := hserves.finished_eq
  have hactivity := activity_afterOctet { e with transmitter := some r.1 } r.2
  constructor
  case octet_eq =>
    rw [htransmit]
    exact hserves.octet_eq
  case taken_eq =>
    rw [taken?, hf]
    change (if r.2.consumed then b else none) = _
    rw [hserves.consumed_eq]
    cases hb : e.buffer.front? <;> simp [b, hb]
  case buffer_eq =>
    rw [htransmit, buffer_afterOctet, hserves.consumed_eq]
    change (if _ then e.buffer.pop.2 else e.buffer) = _
    by_cases hasks : Asks autoFcs n given
    · cases hb : e.buffer.front? with
      | none => simp [b, hb]
      | some x => simp [b, hb, hasks, FrameBuffer.pop]
    · simp [hasks]
  case events_eq =>
    have hevents : (e.occurrences .transmit).map Occurrence.event = r.2.events := by
      simp only [occurrences, occurrencesSent, hf, List.map_map]
      exact List.map_id _
    rw [hevents, TransmitOutput.events, hserves.underrun_eq, hlast]
    by_cases hasks : Asks autoFcs n given <;> simp [hasks, b]
  case le_duration => exact hmore
  case running =>
    intro hlt
    rw [htransmit]
    rw [decide_eq_false (Nat.not_le.2 hlt)] at hlast
    have hkept : e'.activity = { e.activity with transmitter := some r.1, owed := e.owed } := by
      rw [hactivity]
      simp only [hlast, hserves.acknowledged_eq, Bool.false_eq_true, if_false]
      rfl
    rcases hserves.goes_on with ⟨-, hg⟩ | ⟨hf, -⟩
    · exact ⟨r.1, congrArg Activity.transmitter hkept, hg,
        (autoFcs_afterOctet _ hlast).trans hfcs, (congrArg Activity.owed hkept).trans howed⟩
    · cases hf.symm.trans hlast
  case finished =>
    intro hle
    rw [htransmit]
    rw [decide_eq_true hle] at hlast
    obtain ⟨x, hx⟩ : ∃ x : Chip G, e' = x.finishTransmission := by
      unfold e' afterOctet
      simp only [hlast, if_true]
      exact ⟨_, rfl⟩
    have hfinished := x.finished_finishTransmission
    rw [← hx] at hfinished
    exact ⟨hfinished.state_eq, hfinished.transmitter_eq, hfinished.owed_eq, hfinished.outcome_eq⟩

/-- What has become of a transmission that began with `d`, along a history of octets loaded and
octets sent: this was found for the octets of the frame. -/
structure Relayed (d : Chip G) (autoFcs : Bool) (ops : List Operation)
    (given : List (Option UInt8)) : Prop where
  /-- With the sixth octet on air the length is asked for, and from then on the payload. -/
  length_eq :
    given.length = min (transmits ops - 5) (1 + payloadLength autoFcs (frameLength given))
  /-- Each time the next of the octets loaded until then was found, if there was one. -/
  in_order : ∀ earlier, earlier ++ [.transmit] <+: ops → ∀ i, transmits earlier = 5 + i →
    i < given.length → given[i]? = some (loaded earlier)[(given.take i).reduceOption.length]?
  taken_eq : d.takenAlong ops = given.reduceOption
  taken_prefix : given.reduceOption <+: loaded ops
  /-- Behind the frame there is silence. -/
  sent_eq : d.sent ops = (wire autoFcs given).take (transmits ops) ++
    List.replicate (transmits ops - duration autoFcs (frameLength given)) 0
  events_eq : (d.occurrencesAlong ops).map Occurrence.event =
    List.replicate (given.count none) .underrun ++
      if duration autoFcs (frameLength given) ≤ transmits ops then [.txEnd] else []
  transmitting_iff : (d.run ops).isTransmitting = true ↔
    transmits ops < duration autoFcs (frameLength given)
  finished : duration autoFcs (frameLength given) ≤ transmits ops →
    (d.run ops).state = .pllOn ∧ (d.run ops).transmitter = none ∧ (d.run ops).owed = none ∧
      (d.run ops).registers.get .trxState &&& 0xE0 = 0

structure Relays (d : Chip G) (autoFcs : Bool) (ops : List Operation)
    (given : List (Option UInt8)) : Prop extends Relayed d autoFcs ops given where
  octets_eq : (d.run ops).buffer.octets = loaded ops
  position_eq : (d.run ops).buffer.readPosition = given.reduceOption.length
  running : transmits ops < duration autoFcs (frameLength given) →
    ∃ f, (d.run ops).transmitter = some f ∧
      TransmitFramer.Underway autoFcs (transmits ops) given f ∧
      (d.run ops).registers.autoFcs = autoFcs ∧ (d.run ops).owed = none

end Chip

/-! ### One more operation -/

@[simp] theorem transmits_push (ops : List Operation) (b : UInt8) :
    transmits (ops ++ [.pushFrame b]) = transmits ops := by
  simp [transmits, Operation.isTransmit]

@[simp] theorem transmits_transmit (ops : List Operation) :
    transmits (ops ++ [.transmit]) = transmits ops + 1 := by
  simp [transmits, Operation.isTransmit]

@[simp] theorem loaded_transmit (ops : List Operation) :
    loaded (ops ++ [.transmit]) = loaded ops := by
  unfold loaded
  rw [List.filterMap_append]
  exact congrArg _ (List.append_nil _)

theorem loaded_push (ops : List Operation) (b : UInt8) : loaded (ops ++ [.pushFrame b]) =
    if (loaded ops).length < FrameBuffer.capacity then loaded ops ++ [b] else loaded ops := by
  have hpushed : (ops ++ [.pushFrame b] : List Operation).filterMap Operation.pushed? =
      ops.filterMap Operation.pushed? ++ [b] := by
    rw [List.filterMap_append]
    rfl
  unfold loaded
  rw [hpushed]
  generalize ops.filterMap Operation.pushed? = l
  rw [List.length_take]
  by_cases h : l.length < FrameBuffer.capacity
  · rw [if_pos (by omega), List.take_of_length_le (Nat.le_of_lt h),
      List.take_of_length_le (by simp; omega)]
  · rw [if_neg (by omega), List.take_append_of_le_length (by omega)]

theorem prefix_loaded_push (ops : List Operation) (b : UInt8) :
    loaded ops <+: loaded (ops ++ [.pushFrame b]) := by
  rw [loaded_push]
  split
  · exact List.prefix_append _ _
  · exact List.prefix_refl _

namespace Chip

open QueuedFrame

variable {G : Type} [RandomWords G] {d : Chip G} {autoFcs : Bool} {ops : List Operation}
  {given : List (Option UInt8)}

theorem Relays.push (h : d.Relays autoFcs ops given) (b : UInt8) :
    d.Relays autoFcs (ops ++ [.pushFrame b]) given := by
  have hrun : d.run (ops ++ [.pushFrame b]) =
      { d.run ops with buffer := ((d.run ops).buffer.push b).2 } := by
    rw [run_append]
    rfl
  have hoctets : ((d.run ops).buffer.push b).2.octets = loaded (ops ++ [.pushFrame b]) ∧
      ((d.run ops).buffer.push b).2.readPosition = given.reduceOption.length := by
    rw [loaded_push, ← h.octets_eq]
    unfold FrameBuffer.push
    split
    · exact ⟨rfl, h.position_eq⟩
    · exact ⟨rfl, h.position_eq⟩
  have hrelayed : d.Relayed autoFcs (ops ++ [.pushFrame b]) given := by
    constructor
    case length_eq =>
      rw [transmits_push]
      exact h.length_eq
    case in_order =>
      intro earlier hearlier
      rcases List.prefix_concat_iff.1 hearlier with he | he
      · cases (List.append_inj' he rfl).2
      · exact h.in_order earlier he
    case taken_eq =>
      rw [takenAlong_append, h.taken_eq]
      exact List.append_nil _
    case taken_prefix => exact h.taken_prefix.trans (prefix_loaded_push ops b)
    case sent_eq =>
      rw [sent_append, h.sent_eq, transmits_push]
      exact List.append_nil _
    case events_eq =>
      rw [occurrencesAlong_concat, transmits_push, ← h.events_eq]
      exact congrArg _ (List.append_nil _)
    case transmitting_iff =>
      rw [hrun, transmits_push]
      exact h.transmitting_iff
    case finished =>
      rw [hrun, transmits_push]
      exact h.finished
  refine ⟨hrelayed, ?_, ?_, ?_⟩
  · rw [hrun]
    exact hoctets.1
  · rw [hrun]
    exact hoctets.2
  · rw [hrun, transmits_push]
    exact h.running

/-- With the transmitter off there is silence. -/
theorem Relays.silence (h : d.Relays autoFcs ops given)
    (hover : duration autoFcs (frameLength given) ≤ transmits ops) :
    d.Relays autoFcs (ops ++ [.transmit]) given := by
  let e := d.run ops
  have hoff : e.transmitter = none := (h.finished hover).2.1
  have hsilent : e.transmit = (0, e) := by simp only [transmit, hoff]
  have hrun : d.run (ops ++ [.transmit]) = e := by
    rw [run_append]
    exact congrArg Prod.snd hsilent
  have hover' := Nat.le_succ_of_le hover
  have hlength := h.length_eq
  have hlast := duration_eq autoFcs (frameLength given)
  have hcomplete : given.length = 1 + payloadLength autoFcs (frameLength given) := by omega
  have hrelayed : d.Relayed autoFcs (ops ++ [.transmit]) given := by
    constructor
    case length_eq =>
      rw [transmits_transmit]
      omega
    case in_order =>
      intro earlier hearlier i hi hlt
      rcases List.prefix_concat_iff.1 hearlier with he | he
      · cases (List.append_inj' he rfl).1
        omega
      · exact h.in_order earlier he i hi hlt
    case taken_eq =>
      have hnone : e.taken? = none := by rw [taken?, hoff]; rfl
      have hlast : e.takenAlong [.transmit] = [] := by
        simp only [takenAlong, hnone, Option.toList_none, List.append_nil]
      rw [takenAlong_append, h.taken_eq, hlast, List.append_nil]
    case taken_prefix =>
      rw [loaded_transmit]
      exact h.taken_prefix
    case sent_eq =>
      have hzero : e.sent [.transmit] = [0] := by simp only [sent, hsilent]
      have hwire := length_wire hcomplete
      rw [sent_append, h.sent_eq, hzero, transmits_transmit, List.take_of_length_le (by omega),
        List.take_of_length_le (by omega), Nat.succ_sub hover, List.replicate_succ',
        List.append_assoc]
    case events_eq =>
      have hquiet : e.occurrences .transmit = [] := by
        simp only [occurrences, occurrencesSent, hoff]
      rw [occurrencesAlong_concat, hquiet, List.append_nil, h.events_eq, transmits_transmit,
        if_pos hover, if_pos hover']
    case transmitting_iff =>
      rw [hrun, transmits_transmit, isTransmitting, hoff]
      simp only [Option.isSome_none, Bool.false_eq_true, false_iff]
      omega
    case finished =>
      rw [hrun]
      exact fun _ => h.finished hover
  refine ⟨hrelayed, ?_, ?_, fun hlt => ?_⟩
  · rw [hrun, loaded_transmit]
    exact h.octets_eq
  · rw [hrun]
    exact h.position_eq
  · rw [transmits_transmit] at hlt
    omega

theorem in_order_answer {b : Option UInt8}
    (hlength :
      given.length = min (transmits ops - 5) (1 + payloadLength autoFcs (frameLength given)))
    (hb : b = (loaded ops)[given.reduceOption.length]?)
    (h : ∀ earlier, earlier ++ [.transmit] <+: ops → ∀ i, transmits earlier = 5 + i →
      i < given.length → given[i]? = some (loaded earlier)[(given.take i).reduceOption.length]?)
    (earlier : List Operation) (hearlier : earlier ++ [.transmit] <+: ops ++ [.transmit]) (i : Nat)
    (hi : transmits earlier = 5 + i)
    (hlt : i < (answer autoFcs (transmits ops) given b).length) :
    (answer autoFcs (transmits ops) given b)[i]? = some
      (loaded earlier)[((answer autoFcs (transmits ops) given b).take i).reduceOption.length]? := by
  unfold answer at hlt ⊢
  by_cases hasks : Asks autoFcs (transmits ops) given
  · rw [if_pos hasks] at hlt ⊢
    obtain ⟨hn, hpayload⟩ := hasks
    rcases List.prefix_concat_iff.1 hearlier with he | he
    · cases (List.append_inj' he rfl).1
      obtain rfl : i = given.length := by omega
      rw [List.getElem?_concat_length, List.take_left, hb]
    · have hcount : transmits (earlier ++ [.transmit]) ≤ transmits ops :=
        he.sublist.countP_le
      rw [transmits_transmit] at hcount
      have hi' : i < given.length := by omega
      rw [List.getElem?_append_left hi', List.take_append_of_le_length (Nat.le_of_lt hi')]
      exact h earlier he i hi hi'
  · rw [if_neg hasks] at hlt ⊢
    rcases List.prefix_concat_iff.1 hearlier with he | he
    · cases (List.append_inj' he rfl).1
      exact absurd ⟨by omega, by omega⟩ hasks
    · exact h earlier he i hi hlt

theorem prefix_of_next {l m : List UInt8} {b : Option UInt8} (h : l <+: m)
    (hb : b = m[l.length]?) (p : Prop) [Decidable p] :
    l ++ (if p then b.toList else []) <+: m := by
  obtain ⟨r, rfl⟩ := h
  refine List.prefix_append_right_inj l |>.2 ?_
  rw [List.getElem?_append_right (Nat.le_refl _), Nat.sub_self] at hb
  cases r with
  | nil => rw [hb]; split <;> exact List.prefix_refl _
  | cons x r =>
    rw [hb]
    split
    · exact List.prefix_append [x] r
    · exact List.nil_prefix

/-- The next octet of the frame goes on air. -/
theorem Relays.octet (h : d.Relays autoFcs ops given)
    (hlt : transmits ops < duration autoFcs (frameLength given)) :
    d.Relays autoFcs (ops ++ [.transmit])
      (answer autoFcs (transmits ops) given (d.run ops).buffer.front?) := by
  let e := d.run ops
  let n := transmits ops
  let b := e.buffer.front?
  obtain ⟨f, hf, hunderway, hfcs, howed⟩ := h.running hlt
  have hemits : e.Emits autoFcs n given := emits_of_underway hf hunderway hfcs howed
  have hrun : d.run (ops ++ [.transmit]) = e.transmit.2 := by
    rw [run_append]
    rfl
  have hb : b = (loaded ops)[given.reduceOption.length]? := by
    rw [← h.octets_eq, ← h.position_eq]
    rfl
  have hlength := h.length_eq
  have hrelayed : d.Relayed autoFcs (ops ++ [.transmit]) (answer autoFcs n given b) := by
    constructor
    case length_eq =>
      rw [transmits_transmit]
      exact length_answer hlength
    case in_order => exact in_order_answer hlength hb h.in_order
    case taken_eq =>
      have hlast : e.takenAlong [.transmit] = if Asks autoFcs n given then b.toList else [] := by
        simp only [takenAlong, hemits.taken_eq, List.append_nil]
        split <;> rfl
      rw [takenAlong_append, h.taken_eq, hlast, reduceOption_answer]
    case taken_prefix =>
      rw [loaded_transmit, reduceOption_answer]
      exact prefix_of_next h.taken_prefix hb _
    case sent_eq =>
      have hbefore : (wire autoFcs (answer autoFcs n given b)).take n =
          (wire autoFcs given).take n := by
        unfold answer
        split
        case isTrue hasks =>
          obtain ⟨hn, hpayload⟩ := hasks
          exact take_wire autoFcs [b] (by omega)
        case isFalse => rfl
      have hsilence : n - duration autoFcs (frameLength given) = 0 := by omega
      have hsilence' : n + 1 - duration autoFcs (frameLength (answer autoFcs n given b)) = 0 :=
        Nat.sub_eq_zero_of_le hemits.le_duration
      rw [sent_append, h.sent_eq, transmits_transmit, hsilence, hsilence', List.take_add_one,
        hbefore, hemits.octet_eq, List.replicate_zero, List.append_nil, List.append_nil]
      rfl
    case events_eq =>
      rw [occurrencesAlong_concat, List.map_append, h.events_eq, hemits.events_eq,
        transmits_transmit, if_neg (Nat.not_le.2 hlt), List.append_nil, ← List.append_assoc,
        count_none_answer]
      congr 1
      split
      · exact (List.replicate_succ' ..).symm
      · exact List.append_nil _
    case transmitting_iff =>
      rw [hrun, transmits_transmit, isTransmitting]
      by_cases hmore : n + 1 < duration autoFcs (frameLength (answer autoFcs n given b))
      · obtain ⟨g, hg, -⟩ := hemits.running hmore
        exact iff_of_true (Option.isSome_iff_exists.2 ⟨g, hg⟩) hmore
      · have hoff := (hemits.finished (Nat.not_lt.1 hmore)).2.1
        exact iff_of_false (by simp [hoff]) hmore
    case finished =>
      rw [hrun, transmits_transmit]
      exact hemits.finished
  refine ⟨hrelayed, ?_, ?_, ?_⟩
  · rw [hrun, loaded_transmit, hemits.buffer_eq]
    exact h.octets_eq
  · rw [hrun, hemits.buffer_eq, reduceOption_answer, List.length_append, ← h.position_eq]
  · rw [hrun, transmits_transmit]
    exact hemits.running

/-- Loading and sending go on in any order. -/
theorem relays_run (hd : d.transmitter = some .start) (howed : d.owed = none)
    (hbuffer : d.buffer = .empty) (hfcs : d.registers.autoFcs = autoFcs)
    (hops : ∀ op ∈ ops, op = .transmit ∨ ∃ b, op = .pushFrame b) :
    ∃ given, d.Relays autoFcs ops given := by
  induction ops using List.reverseRecOn with
  | nil =>
    have hearly : transmits [] < duration autoFcs (frameLength []) :=
      Nat.lt_of_lt_of_le (by decide) (Nat.le_add_right 6 _)
    refine ⟨[], ⟨rfl, nofun, rfl, List.nil_prefix, ?_, ?_, ?_, ?_⟩, ?_, ?_, fun _ => ?_⟩
    · simp [sent, transmits]
    · rw [if_neg (Nat.not_le.2 hearly)]
      rfl
    · simp [isTransmitting, hd, hearly]
    · exact fun hle => absurd hearly (Nat.not_lt.2 hle)
    · rw [run_nil, hbuffer]
      rfl
    · rw [run_nil, hbuffer]
      rfl
    · exact ⟨.start, hd, .preamble rfl rfl (by decide), hfcs, howed⟩
  | append_singleton ops op ih =>
    obtain ⟨given, h⟩ := ih fun x hx => hops x (List.mem_append_left _ hx)
    rcases hops op (List.mem_append_right _ List.mem_cons_self) with rfl | ⟨b, rfl⟩
    · by_cases hlt : transmits ops < duration autoFcs (frameLength given)
      · exact ⟨_, h.octet hlt⟩
      · exact ⟨given, h.silence (Nat.not_lt.1 hlt)⟩
    · exact ⟨given, h.push b⟩

/-- A command that starts the transmitter of a chip opens a queue. However the node loads the frame
buffer between the octets on air, the transmitter takes the octets out in the order in which they
were loaded since, each of them once, and what it found for the length and the payload makes up the
whole of the transmission: a zero and an underrun for every octet missing, check octets over what
was sent, and the end on the call that the length says. -/
theorem transmits_from_queue {c : Chip G} (ht : c.transmitter = none) {k : Command}
    (hk : k = .txStart ∨ k = .txAretOn) {ops : List Operation}
    (hops : ∀ op ∈ ops, op = .transmit ∨ ∃ b, op = .pushFrame b) :
    ∃ given, (c.command k.code).Relayed c.registers.autoFcs ops given := by
  obtain ⟨hstarted, howed, hbuffer, hfcs⟩ := command_starts ht hk
  obtain ⟨given, h⟩ := relays_run hstarted howed hbuffer hfcs hops
  exact ⟨given, h.toRelayed⟩

/-- A frame of two octets whose node is late with the second one. It comes behind the frame, and is
not taken any more. -/
theorem transmits_from_late_queue :
    let config : Configuration := ⟨.at86rf231, Vector.replicate 8 0, none, 0⟩
    let c : Chip Mixer := .build config (Instant.mk 0) (Mixer.mk 0)
    let d := c.command Command.txStart.code
    let ops : List Operation := .pushFrame 4 :: List.replicate 6 .transmit ++
      [.pushFrame 0x11, .transmit, .transmit, .pushFrame 0x22, .transmit, .transmit, .transmit]
    c.transmitter = none ∧ (∃ given, d.Relayed c.registers.autoFcs ops given) ∧
      d.sent ops =
        [0, 0, 0, 0, 0x7A, 4, 0x11, 0] ++ Crc.octets (Crc.ofList [0x11, 0]) ++ [0] ∧
      d.takenAlong ops = [4, 0x11] ∧
      (d.occurrencesAlong ops).map Occurrence.event = [.underrun, .txEnd] := by
  intro config c d ops
  have hops : ∀ op ∈ ops, op = .transmit ∨ ∃ b, op = .pushFrame b := by
    intro op hop
    simp only [ops, List.mem_append, List.mem_cons, List.mem_replicate, List.not_mem_nil,
      or_false] at hop
    rcases hop with (rfl | ⟨-, rfl⟩) | rfl | rfl | rfl | rfl | rfl | rfl | rfl <;> simp
  exact ⟨rfl, transmits_from_queue rfl (.inl rfl) hops, by decide +kernel, by decide +kernel,
    by decide +kernel⟩

end Chip

end Transceiver
