import Transceiver.Proofs.FrameReception

/-!
# The interrupt status and the events behind it

Between two reads of the interrupt status many things happen to a chip, and the node may change the
masks at any time. An `Occurrence` is an event with the masks under which it was raised;
`occurrencesAlong` lists those of a history, in order. What the node is told, in the status register
and by interrupts, is determined by them: `notices_run`. So a read of the status shows exactly the
events that were to be recorded since the read before, whatever else was done to the chip.
-/

namespace Transceiver

def Event.bits : List Event → UInt8
  | [] => 0
  | e :: events => e.statusBit ||| bits events

def Signal.vector? : Signal → Option UInt8
  | .interrupt vector => some vector
  | _ => none

/-- An event that a chip raises, with the two registers that decide whether the node is told. -/
structure Occurrence where
  event : Event
  mask : UInt8
  control : UInt8
  deriving DecidableEq

namespace Occurrence

variable (x : Occurrence)

def posted : Bool := x.mask &&& x.event.statusBit != 0

def recorded : Bool := x.posted || x.control &&& 0x02 != 0

def status : List Occurrence → UInt8
  | [] => 0
  | x :: events => (if x.recorded then x.event.statusBit else 0) ||| status events

def vectors (variant : Variant) (line : Option UInt8) (events : List Occurrence) : List UInt8 :=
  (events.filter posted).filterMap fun x => x.event.vector? line variant

theorem status_append (xs ys : List Occurrence) : status (xs ++ ys) = status xs ||| status ys := by
  induction xs with
  | nil => exact UInt8.zero_or.symm
  | cons x xs ih => rw [List.cons_append, status, status, ih, UInt8.or_assoc]

theorem vectors_append (variant : Variant) (line : Option UInt8) (xs ys : List Occurrence) :
    vectors variant line (xs ++ ys) = vectors variant line xs ++ vectors variant line ys := by
  simp only [vectors, List.filter_append, List.filterMap_append]

variable {events : List Occurrence} (h : ∀ x ∈ events, x.posted = true)

include h

theorem status_of_posted : status events = Event.bits (events.map event) := by
  induction events with
  | nil => rfl
  | cons x events ih =>
    have hrecorded : x.recorded = true := Bool.or_eq_true_iff.2 (.inl (h x List.mem_cons_self))
    rw [status, if_pos hrecorded, ih fun y hy => h y (List.mem_cons_of_mem x hy)]
    rfl

theorem vectors_of_posted (variant : Variant) (line : Option UInt8) :
    vectors variant line events = (events.map event).filterMap fun e => e.vector? line variant := by
  rw [vectors, List.filter_eq_self.2 h, List.filterMap_map]
  rfl

end Occurrence

/-! ### What the node is told -/

structure Notices where
  variant : Variant
  interruptLine : Option UInt8
  status : UInt8
  interrupts : List UInt8
  deriving DecidableEq

namespace Notices

def tell (n : Notices) (events : List Occurrence) : Notices :=
  { n with
    status := n.status ||| Occurrence.status events
    interrupts := n.interrupts ++ Occurrence.vectors n.variant n.interruptLine events }

@[simp] theorem tell_nil (n : Notices) : n.tell [] = n := by
  simp [tell, Occurrence.status, Occurrence.vectors]

theorem tell_tell (n : Notices) (xs ys : List Occurrence) :
    (n.tell xs).tell ys = n.tell (xs ++ ys) := by
  simp only [tell, Occurrence.status_append, Occurrence.vectors_append, UInt8.or_assoc,
    List.append_assoc]

end Notices

/-! ### The events of a history -/

def TransmitOutput.events (out : TransmitOutput) : List Event :=
  (if out.underrun then [.underrun] else []) ++ if out.finished then [.txEnd] else []

namespace Chip

variable {G : Type}

def occurrence (c : Chip G) (e : Event) : Occurrence where
  event := e
  mask := c.registers.get .irqMask
  control := c.registers.get .trxCtrl1

/-- The event that comes with an effect, if one does: the filter announces a frame that is for this
node, and the end of a frame is announced whatever its check octets. -/
def event? (c : Chip G) : ReceiveEffect → Option Event
  | .raise e => some e
  | .filterCheck offset =>
    if offset = FrameFilter.matchOffset ∧ c.filters = true ∧
      (FrameFilter.check c.buffer.octets offset c.localAddress).accepted = true
    then some .addressMatch else none
  | .frameComplete _ => some .rxEnd
  | _ => none

section

variable [RandomWords G]

def occurrencesOf (c : Chip G) : List ReceiveEffect → List Occurrence
  | [] => []
  | x :: xs =>
    (c.event? x).toList.map c.occurrence ++
      match c.apply x with
      | (true, c') => c'.occurrencesOf xs
      | (false, _) => []

def occurrencesHeard (c : Chip G) (carrier : Bool) (b : UInt8) : List Occurrence :=
  match c.receiver with
  | none => []
  | some f =>
    let r := f.step ⟨b, carrier, c.registers.autoFcs⟩
    { c with receiver := some r.1 }.occurrencesOf r.2.effects

def occurrencesSent (c : Chip G) : List Occurrence :=
  match c.transmitter with
  | none => []
  | some f => (f.step c.transmitInput).2.events.map c.occurrence

def occurrences (c : Chip G) : Operation → List Occurrence
  | .transmit => c.occurrencesSent
  | .receive carrier b => (c.advance c.surroundings.now).occurrencesHeard carrier b
  | _ => []

def occurrencesAlong (c : Chip G) : List Operation → List Occurrence
  | [] => []
  | op :: ops => c.occurrences op ++ (c.after op).occurrencesAlong ops

theorem occurrencesAlong_concat (c : Chip G) (ops : List Operation) (op : Operation) :
    c.occurrencesAlong (ops ++ [op]) = c.occurrencesAlong ops ++ (c.run ops).occurrences op := by
  induction ops generalizing c with
  | nil => exact List.append_nil _
  | cons x ops ih => simp only [List.cons_append, occurrencesAlong, ih, run_cons, List.append_assoc]

end

/-! ### Raising an event -/

variable (c : Chip G)

def interrupts : List UInt8 := c.surroundings.signals.filterMap Signal.vector?

def notices : Notices where
  variant := c.variant
  interruptLine := c.interruptLine
  status := c.registers.get .irqStatus
  interrupts := c.interrupts

/-- A signal that is no interrupt tells the node nothing. -/
theorem notices_give {x : Signal} (h : x.vector? = none) : (c.give x).notices = c.notices := by
  simp [notices, interrupts, give, List.filterMap_append, h]

theorem notices_latch (e : Event) :
    (c.latch e).notices = { c.notices with status := c.notices.status ||| e.statusBit } := by
  simp only [notices, latch, RegisterFile.get_modify, if_true]
  rfl

theorem notices_post (e : Event) : (c.post e).notices = { c.notices with
    interrupts := c.notices.interrupts ++ (e.vector? c.interruptLine c.variant).toList } := by
  unfold post
  cases e.vector? c.interruptLine c.variant with
  | none => simp [notices]
  | some v => simp [notices, interrupts, give, Signal.vector?]

/-- The masks decide what the node is told of an event. -/
theorem notices_raise (e : Event) : (c.raise e).notices = c.notices.tell [c.occurrence e] := by
  let x := c.occurrence e
  have hposted : c.registers.unmasked e.statusBit = x.posted := rfl
  have hrecorded : x.recorded = (x.posted || c.registers.recordMasked) := rfl
  have hstatus : Occurrence.status [x] = if x.recorded then e.statusBit else 0 := UInt8.or_zero
  have hvectors : Occurrence.vectors c.notices.variant c.notices.interruptLine [x] =
      if x.posted then (e.vector? c.interruptLine c.variant).toList else [] := by
    have hfilter : [x].filter Occurrence.posted = if x.posted then [x] else [] := by
      simp [List.filter_cons]
    unfold Occurrence.vectors
    rw [hfilter]
    split
    · exact List.filterMap_cons
    · rfl
  unfold raise Notices.tell
  rw [hposted, hstatus, hvectors, hrecorded]
  cases hp : x.posted with
  | true =>
    simp only [if_true, Bool.true_or]
    rw [notices_post, notices_latch]
    rfl
  | false =>
    simp only [Bool.false_eq_true, if_false, Bool.false_or, List.append_nil]
    split
    · exact c.notices_latch e
    · simp [notices]

theorem occurrence_raise (e e' : Event) : (c.raise e).occurrence e' = c.occurrence e' := by
  simp only [occurrence, c.get_raise e (r := .irqMask) (by decide),
    c.get_raise e (r := .trxCtrl1) (by decide)]

theorem notices_raiseAll (events : List Event) :
    (c.raiseAll events).notices = c.notices.tell (events.map c.occurrence) := by
  induction events generalizing c with
  | nil => exact c.notices.tell_nil.symm
  | cons e events ih =>
    have hmasks : (c.raise e).occurrence = c.occurrence := funext (c.occurrence_raise e)
    change ((c.raise e).raiseAll events).notices = _
    rw [ih, notices_raise, hmasks, Notices.tell_tell]
    rfl

variable {c}

theorem notices_of_alarms {d : Chip G} (h : c.alarms = d.alarms) : c.notices = d.notices := by
  have hvariant : c.variant = d.variant := congrArg Alarms.variant h
  have hline : c.interruptLine = d.interruptLine := congrArg Alarms.interruptLine h
  have hstatus : c.registers.get .irqStatus = d.registers.get .irqStatus :=
    congrArg Alarms.status h
  have hsignals : c.surroundings.signals = d.surroundings.signals := congrArg Alarms.signals h
  simp only [notices, interrupts, hvariant, hline, hstatus, hsignals]

theorem Raised.notices_eq {d : Chip G} {events : List Event} (h : c.Raised d events) :
    d.notices = c.notices.tell (events.map c.occurrence) :=
  (notices_of_alarms h).trans (c.notices_raiseAll events)

/-- Of events that are not masked the node misses none. -/
theorem tell_unmasked {events : List Event}
    (h : ∀ e ∈ events, c.registers.unmasked e.statusBit = true) (n : Notices) :
    n.tell (events.map c.occurrence) = { n with
      status := n.status ||| Event.bits events
      interrupts :=
        n.interrupts ++ events.filterMap fun e => e.vector? n.interruptLine n.variant } := by
  have hposted : ∀ x ∈ events.map c.occurrence, x.posted = true := by
    intro x hx
    obtain ⟨e, he, rfl⟩ := List.mem_map.1 hx
    exact h e he
  have hevents : (events.map c.occurrence).map Occurrence.event = events := by
    rw [List.map_map]
    exact List.map_id events
  rw [Notices.tell, Occurrence.status_of_posted hposted, Occurrence.vectors_of_posted hposted,
    hevents]

variable (c)

/-! ### What tells the node nothing -/

theorem notices_setRegister {r : Register} (v : UInt8) (h : r ≠ .irqStatus) :
    notices { c with registers := c.registers.set r v } = c.notices := by
  simp only [notices, c.registers.get_set_of_ne v h]
  rfl

theorem notices_enter (s : OperatingState) : (c.enter s).notices = c.notices :=
  c.notices_setRegister s.code (by decide)

theorem notices_setOutcome (outcome : UInt8) :
    notices { c with registers := c.registers.setOutcome outcome } = c.notices :=
  c.notices_setRegister _ (by decide)

theorem notices_setRssi (rssi : UInt8) :
    notices { c with registers := c.registers.setRssi rssi } = c.notices :=
  c.notices_setRegister _ (by decide)

theorem notices_beginTransmission : c.beginTransmission.notices = c.notices := by
  unfold beginTransmission
  cases c.transmitter with
  | some f => rfl
  | none =>
    by_cases ho : c.owed.isNone <;>
      simp [ho, notices, interrupts, give, List.filterMap_cons, Signal.vector?]

theorem notices_endTransmission : c.endTransmission.notices = c.notices := by
  unfold endTransmission
  cases c.transmitter with
  | some f => exact c.notices_give rfl
  | none => rfl

theorem notices_abandonTransmission : c.abandonTransmission.notices = c.notices :=
  notices_endTransmission { c with owed := none }

theorem notices_beginReception : c.beginReception.notices = c.notices := by
  unfold beginReception
  cases c.receiver with
  | some f => rfl
  | none => simp [notices, interrupts, give, List.filterMap_cons, Signal.vector?]

theorem notices_endReception : c.endReception.notices = c.notices := by
  unfold endReception
  cases c.receiver with
  | some f =>
    change notices { c.give .endReception with registers := c.registers.setRssi 0 } = _
    exact (notices_setRssi (c.give .endReception) 0).trans (c.notices_give rfl)
  | none => rfl

theorem notices_abandonReception : c.abandonReception.notices = c.notices :=
  notices_endReception { c with owed := none }

theorem notices_steer (t : Transition) : (c.steer t).notices = c.notices := by
  refine steer_induction (P := fun d => d.notices = c.notices) t rfl ?_ ?_ ?_ ?_
  · exact fun d hd => d.notices_abandonTransmission.trans hd
  · exact fun d hd => d.notices_abandonReception.trans hd
  · exact fun d hd => d.notices_beginTransmission.trans hd
  · exact fun d hd => d.notices_beginReception.trans hd

theorem notices_execute (command : Command) : (c.execute command).notices = c.notices := by
  unfold execute
  simp only
  rw [notices_steer, notices_enter]
  split
  · exact c.notices_setOutcome 0xE0
  · rfl

theorem notices_writeRegister {r : Register} (h : r ≠ .irqStatus) (v : UInt8) :
    (c.writeRegister r v).notices = c.notices := by
  have hset := c.notices_setRegister v h
  unfold writeRegister
  split
  · rfl
  · simp only
    split
    · exact (notices_execute _ _).trans hset
    · exact hset

theorem notices_readRegister {r : Register} (h : r ≠ .irqStatus) :
    (c.readRegister r).2.notices = c.notices := by
  simp only [readRegister, RegisterFile.read, if_neg h]

theorem notices_sleepPin (level : Bool) : (c.sleepPin level).notices = c.notices := by
  unfold sleepPin
  split
  · rw [notices_enter, notices_give _ rfl]
  · exact c.notices_enter _
  · rfl

theorem notices_advance (now : Instant) : (c.advance now).notices = c.notices := by
  unfold advance
  simp only
  split
  · exact notices_setRssi { c with rssiTimer := (c.rssiTimer.poll now).2 } settledRssi
  · rfl

/-! ### An octet sent -/

theorem notices_finishTransmission :
    c.finishTransmission.notices = c.notices.tell [c.occurrence .txEnd] := by
  let d : Chip G := { c.enter .pllOn with
    registers := (c.enter .pllOn).registers.setOutcome 0 }
  have hd : d.notices = c.notices := (notices_setOutcome _ 0).trans (c.notices_enter .pllOn)
  have hmask : d.occurrence .txEnd = c.occurrence .txEnd := by
    have hget {r : Register} (hs : Register.trxStatus ≠ r) (ht : Register.trxState ≠ r) :
        d.registers.get r = c.registers.get r :=
      (RegisterFile.get_set_of_ne _ _ ht).trans (RegisterFile.get_set_of_ne _ _ hs)
    simp only [occurrence, hget (r := .irqMask) (by decide) (by decide),
      hget (r := .trxCtrl1) (by decide) (by decide)]
  change (d.raise .txEnd).abandonTransmission.notices = _
  rw [notices_abandonTransmission, notices_raise, hd, hmask]

theorem notices_afterOctet (out : TransmitOutput) :
    (c.afterOctet out).notices = c.notices.tell (out.events.map c.occurrence) := by
  let taken : Chip G := if out.consumed then { c with buffer := c.buffer.pop.2 } else c
  let kept : Chip G := if out.acknowledged then { taken with owed := none } else taken
  have hkept : kept.notices = c.notices ∧ ∀ e, kept.occurrence e = c.occurrence e := by
    unfold kept taken
    cases out.acknowledged <;> cases out.consumed <;> exact ⟨rfl, fun _ => rfl⟩
  obtain ⟨hnotices, hmasks⟩ := hkept
  change (if out.finished then
    (if out.underrun then kept.raise .underrun else kept).finishTransmission
    else if out.underrun then kept.raise .underrun else kept).notices = _
  unfold TransmitOutput.events
  cases out.underrun <;> cases out.finished <;>
    simp [notices_finishTransmission, notices_raise, occurrence_raise, hnotices, hmasks,
      Notices.tell_tell]

theorem notices_transmit : c.transmit.2.notices = c.notices.tell c.occurrencesSent := by
  unfold transmit occurrencesSent
  cases c.transmitter with
  | none => exact c.notices.tell_nil.symm
  | some f =>
    exact notices_afterOctet { c with transmitter := some (f.step c.transmitInput).1 } _

/-! ### An octet heard -/

theorem notices_storeOctet (b : UInt8) : (c.storeOctet b).2.notices = c.notices := by
  unfold storeOctet
  split <;> rfl

theorem notices_startFrame (length : UInt8) : (c.startFrame length).2.notices = c.notices :=
  (notices_storeOctet _ _).trans (c.notices_setRegister length (r := .tstRxLength) (by decide))

theorem notices_noteSequence (sequence : Option UInt8) :
    (c.noteSequence sequence).notices = c.notices := by
  cases sequence <;> rfl

theorem notices_turnAround : c.turnAround.notices = c.notices := by
  unfold turnAround
  split
  · rw [notices_beginTransmission, notices_endReception]
  · rfl

theorem occurrence_noteSequence (sequence : Option UInt8) (e : Event) :
    (c.noteSequence sequence).occurrence e = c.occurrence e := by
  cases sequence <;> rfl

theorem notices_filter (offset : Nat) : (c.filter offset).2.notices =
    c.notices.tell ((c.event? (.filterCheck offset)).toList.map c.occurrence) := by
  by_cases htakes : c.Takes c.buffer.octets offset
  · have haccepted : (offset = FrameFilter.matchOffset ∧ c.filters = true ∧
        (FrameFilter.check c.buffer.octets offset c.localAddress).accepted = true) ↔
          c.filters = true ∧ offset = FrameFilter.matchOffset :=
      ⟨fun h => ⟨h.2.1, h.1⟩, fun h => ⟨h.2, h.1, htakes h.1⟩⟩
    have hevent : c.event? (.filterCheck offset) =
        if c.filters ∧ offset = FrameFilter.matchOffset then some .addressMatch else none := by
      simp only [event?, haccepted]
    rw [c.filter_of_takes htakes, hevent]
    simp only
    split
    · rw [notices_raise, notices_noteSequence, occurrence_noteSequence]
      rfl
    · rw [notices_noteSequence]
      exact c.notices.tell_nil.symm
  · have hevent : c.event? (.filterCheck offset) = none :=
      if_neg fun h => htakes fun _ => h.2.2
    rw [c.filter_of_refuses htakes, hevent]
    exact (c.notices_noteSequence _).trans c.notices.tell_nil.symm

section

variable [RandomWords G]

theorem notices_completeChecked (valid : Bool) :
    (c.completeChecked valid).notices = c.notices.tell [c.occurrence .rxEnd] := by
  have h : ((c.storeLinkQuality valid).raise .rxEnd).notices =
      c.notices.tell [c.occurrence .rxEnd] := (c.storeLinkQuality valid).notices_raise .rxEnd
  unfold completeChecked
  cases valid <;> exact h

theorem notices_apply (x : ReceiveEffect) : (c.apply x).2.notices =
    c.notices.tell ((c.event? x).toList.map c.occurrence) := by
  have hsilent := c.notices.tell_nil.symm
  cases x with
  | raise e => exact c.notices_raise e
  | frameStart length => exact (c.notices_startFrame length).trans hsilent
  | push b => exact (c.notices_storeOctet b).trans hsilent
  | filterCheck offset => exact c.notices_filter offset
  | frameComplete valid =>
    cases valid with
    | some valid => exact c.notices_completeChecked valid
    | none => exact notices_raise { c with bitErrors := .empty, lastValid := false } .rxEnd
  | endOfFrame carrier => exact c.notices_turnAround.trans hsilent
  | discarded => exact hsilent

theorem notices_carryOut (effects : List ReceiveEffect) :
    (c.carryOut effects).notices = c.notices.tell (c.occurrencesOf effects) := by
  induction effects generalizing c with
  | nil => exact c.notices.tell_nil.symm
  | cons x xs ih =>
    have hx := c.notices_apply x
    unfold carryOut occurrencesOf
    cases happly : c.apply x with
    | mk goesOn d =>
      rw [happly] at hx
      cases goesOn with
      | true => rw [ih, hx, Notices.tell_tell]
      | false => rw [hx, List.append_nil]

theorem notices_hear (carrier : Bool) (b : UInt8) :
    (c.hear carrier b).notices = c.notices.tell (c.occurrencesHeard carrier b) := by
  unfold hear occurrencesHeard
  cases c.receiver with
  | none => exact c.notices.tell_nil.symm
  | some f => exact notices_carryOut _ _

theorem notices_receive (carrier : Bool) (b : UInt8) :
    (c.receive carrier b).2.notices = c.notices.tell (c.occurrences (.receive carrier b)) := by
  rw [snd_receive, notices_hear, notices_advance]
  rfl

/-! ### Histories -/

end

end Chip

/-- Neither resets the chip nor touches the interrupt status from the side of the node. -/
def Operation.sparesStatus : Operation → Bool
  | .readRegister r | .writeRegister r _ => r != .irqStatus
  | .reset => false
  | _ => true

namespace Chip

variable {G : Type} [RandomWords G]

theorem notices_after (c : Chip G) {op : Operation} (h : op.sparesStatus = true) :
    (c.after op).notices = c.notices.tell (c.occurrences op) := by
  have hsilent := c.notices.tell_nil.symm
  cases op with
  | readRegister r => exact (c.notices_readRegister (bne_iff_ne.1 h)).trans hsilent
  | writeRegister r v => exact (c.notices_writeRegister (bne_iff_ne.1 h) v).trans hsilent
  | command code => exact (c.notices_execute _).trans hsilent
  | sleepPin level => exact (c.notices_sleepPin level).trans hsilent
  | reset => cases h
  | transmit => exact c.notices_transmit
  | receive carrier b => exact c.notices_receive carrier b
  | setRssi dbm => exact (c.notices_setRssi _).trans hsilent
  | advance now => exact (c.notices_advance now).trans hsilent
  | setDataWaiting | pushFrame | popFrame | uploadFrame | pokeFrame | clearFrame | prepareFrame
  | recordBitErrors | takePacketErrorRate | setTime => exact hsilent

/-- What the node is told along a history is what the events of the history call for. -/
theorem notices_run (c : Chip G) {ops : List Operation} (h : ∀ op ∈ ops, op.sparesStatus = true) :
    (c.run ops).notices = c.notices.tell (c.occurrencesAlong ops) := by
  induction ops generalizing c with
  | nil => exact c.notices.tell_nil.symm
  | cons op ops ih =>
    rw [run_cons, ih _ fun x hx => h x (List.mem_cons_of_mem op hx),
      c.notices_after (h op List.mem_cons_self), Notices.tell_tell, occurrencesAlong]

/-- Between two reads of the interrupt status the node may do anything but reset the chip or touch
the status. The second read shows the events that were to be recorded since the first, and the
interrupts posted since then are those of the events that were not masked. -/
theorem status_read_again (c : Chip G) {ops : List Operation}
    (h : ∀ op ∈ ops, op.sparesStatus = true) :
    let d := (c.readRegister .irqStatus).2
    ((d.run ops).readRegister .irqStatus).1 = Occurrence.status (d.occurrencesAlong ops) ∧
      (d.run ops).interrupts = c.interrupts ++
        Occurrence.vectors c.variant c.interruptLine (d.occurrencesAlong ops) := by
  intro d
  have htold := d.notices_run h
  have hcleared : d.notices.status = 0 := c.registers.get_set_self .irqStatus 0
  constructor
  · have hstatus := congrArg Notices.status htold
    simp only [Notices.tell, hcleared, UInt8.zero_or] at hstatus
    exact hstatus
  · exact congrArg Notices.interrupts htold

/-- The underrun of an empty frame interrupts the node. Its end comes while everything is masked,
and is only recorded. -/
theorem status_read_again_after_underrun :
    let config : Configuration := ⟨.atmega128rfa1, Vector.replicate 8 0, none, 0⟩
    let c := Chip.run (.build config (Instant.mk 0) (Mixer.mk 0))
      [.writeRegister .irqMask 0x40, .command Command.txStart.code]
    let ops := List.replicate 6 .transmit ++
      [.writeRegister .irqMask 0, .writeRegister .trxCtrl1 0x22, .transmit, .transmit]
    let d := (c.readRegister .irqStatus).2
    (∀ op ∈ ops, op.sparesStatus = true) ∧
      d.occurrencesAlong ops = [⟨.underrun, 0x40, 0x20⟩, ⟨.txEnd, 0, 0x22⟩] ∧
      ((d.run ops).readRegister .irqStatus).1 = 0x48 ∧ (d.run ops).interrupts = [64] := by
  intro config c ops d
  have hops : ∀ op ∈ ops, op.sparesStatus = true := by
    intro op hop
    simp only [ops, List.mem_append, List.mem_replicate, List.mem_cons, List.not_mem_nil,
      or_false] at hop
    rcases hop with ⟨-, rfl⟩ | rfl | rfl | rfl | rfl <;> rfl
  have hevents : d.occurrencesAlong ops = [⟨.underrun, 0x40, 0x20⟩, ⟨.txEnd, 0, 0x22⟩] := by
    decide +kernel
  obtain ⟨hstatus, hinterrupts⟩ := c.status_read_again hops
  rw [hevents] at hstatus hinterrupts
  have hbefore : c.interrupts = [] := by decide +kernel
  rw [hbefore] at hinterrupts
  exact ⟨hops, hevents, hstatus, hinterrupts⟩

end Chip

end Transceiver
