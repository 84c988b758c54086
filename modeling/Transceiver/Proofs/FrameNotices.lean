import Transceiver.Proofs.AddressRecognition
import Transceiver.Proofs.QueuedTransmission
import Transceiver.Proofs.RegisterSettings

/-!
# What a node is told of a frame

A frame on air shows to the node in the interrupt status and in the interrupts posted. For a frame
heard these follow from the events of its reception (`listen_notices`), and for a frame sent from
what the transmitter found in its queue (`Relayed.notices_eq`), whatever the masks. A node that has
unmasked the events of frames reads the verdict of the address filter off the interrupt status, and
counts the octets that it was too late with.
-/

namespace Transceiver

namespace Event

theorem bits_append (l m : List Event) : bits (l ++ m) = bits l ||| bits m := by
  induction l with
  | nil => exact UInt8.zero_or.symm
  | cons e l ih => rw [List.cons_append, bits, bits, ih, UInt8.or_assoc]

theorem bits_replicate (n : Nat) (e : Event) :
    bits (List.replicate n e) = if n = 0 then 0 else e.statusBit := by
  induction n with
  | zero => rfl
  | succ n ih =>
    rw [List.replicate_succ, bits, ih, if_neg (Nat.succ_ne_zero n)]
    split
    · exact UInt8.or_zero
    · exact UInt8.or_self

end Event

namespace QueuedFrame

variable (given : List (Option UInt8)) (ended : Prop) [Decidable ended]

/-- An underrun for every octet that was missing, and the end if it has come. -/
def events : List Event :=
  List.replicate (given.count none) .underrun ++ if ended then [.txEnd] else []

variable {given ended} in
theorem eq_of_mem_events {e : Event} (h : e ∈ events given ended) : e = .underrun ∨ e = .txEnd := by
  rcases List.mem_append.1 h with h | h
  · exact .inl (List.eq_of_mem_replicate h)
  · split at h
    · exact .inr (List.mem_singleton.1 h)
    · cases h

theorem length_events :
    (events given ended).length = given.count none + if ended then 1 else 0 := by
  rw [events, List.length_append, List.length_replicate]
  split <;> rfl

theorem bits_events : Event.bits (events given ended) =
    (if none ∈ given then 0x40 else 0) ||| (if ended then 0x08 else 0) := by
  have hmissing : given.count none = 0 ↔ none ∉ given := List.count_eq_zero
  simp only [events, Event.bits_append, Event.bits_replicate, hmissing, ite_not]
  congr 1
  split <;> rfl

/-- Underruns and the end of a transmission share a vector. -/
theorem vectors_events (line : Option UInt8) (variant : Variant) :
    (events given ended).filterMap (fun e => e.vector? line variant) =
      (List.replicate (given.count none + if ended then 1 else 0)
        (match variant with
        | .at86rf231 => line
        | .atmega128rfa1 => some 64)).reduceOption := by
  have hshared : (events given ended).map (fun e => e.vector? line variant) =
      List.replicate (events given ended).length (Event.txEnd.vector? line variant) := by
    refine List.map_eq_replicate_iff.2 fun e he => ?_
    rcases eq_of_mem_events he with rfl | rfl
    · cases variant <;> rfl
    · rfl
  have hposted : (events given ended).filterMap (fun e => e.vector? line variant) =
      ((events given ended).map fun e => e.vector? line variant).reduceOption := by
    rw [List.reduceOption, List.filterMap_map]
    rfl
  rw [hposted, hshared, length_events]
  cases variant <;> rfl

end QueuedFrame

namespace Chip

variable {G : Type} {c d : Chip G}

/-- A mask that lets these bits through lets an event through that has one of them. -/
theorem unmasked_of_and {bits : UInt8} (h : c.registers.get .irqMask &&& bits = bits) {e : Event}
    (he : bits &&& e.statusBit = e.statusBit) : c.registers.unmasked e.statusBit = true := by
  have hbit : c.registers.get .irqMask &&& e.statusBit = e.statusBit := by
    rw [← he, ← UInt8.and_assoc, h]
  have hne : e.statusBit ≠ 0 := by cases e <;> decide
  rw [RegisterFile.unmasked, hbit]
  exact bne_iff_ne.2 hne

theorem occurrence_of_settings (h : d.settings = c.settings) : d.occurrence = c.occurrence := by
  have hget {r : Register} (hr : r.settingBits = 0xFF) :
      d.registers.get r = c.registers.get r := by
    have hbits : d.registers.get r &&& r.settingBits = c.registers.get r &&& r.settingBits :=
      congrFun (congrArg Settings.bits h) r
    rw [hr] at hbits
    exact UInt8.and_neg_one.symm.trans (hbits.trans UInt8.and_neg_one)
  funext e
  rw [occurrence, hget rfl, hget rfl]
  rfl

/-! ### A frame heard -/

section

variable [RandomWords G]

theorem listen_notices (hc : c.Reachable) (hs : c.state = .rxAackOn)
    (hn : c.registers.isCoordinator = false) (ha : c.registers.autoFcs = true)
    (hr : ∃ f, c.receiver = some f ∧ (f.phase = .scanning ∨ f.phase = .matched1))
    (h : Header) {payload image : List UInt8} (hi : h.image? payload = some image)
    {heard : List (Instant × UInt8)}
    (hheard : heard.map Prod.snd =
      [0, 0, 0, 0, 0x7A] ++ image ++ Crc.octets (Crc.ofList image.tail)) :
    let events : List Event :=
      [.rxStart] ++ (if 13 ≤ image.tail.length then [.addressMatch] else []) ++ [.rxEnd]
    (h.AddressedTo c.localAddress →
      (c.listen heard).notices = c.notices.tell (events.map c.occurrence)) ∧
    (¬h.AddressedTo c.localAddress → (c.listen heard).notices =
      c.notices.tell [c.occurrence .rxStart]) := by
  obtain ⟨hreceived, hrefused⟩ := listen_frame hc hs hn ha hr h hi hheard
  have hevents := receptionEvents_of_filters (filters_of_state hs hn) image
  intro events
  constructor
  · intro haddressed
    obtain ⟨l, p, rfl, hd⟩ := hreceived haddressed
    rw [← show c.receptionEvents (l :: p) = events from hevents]
    exact hd.raised.notices_eq
  · exact fun hother => (hrefused hother).raised.notices_eq

/-- A node that has unmasked the events of a reception is told of all of them. A frame for it shows
its start and its end, and the address match in between if it is long enough. Of a frame for another
node the start is all there is. -/
theorem interrupts_of_frame (hc : c.Reachable) (hs : c.state = .rxAackOn)
    (hn : c.registers.isCoordinator = false) (ha : c.registers.autoFcs = true)
    (hr : ∃ f, c.receiver = some f ∧ (f.phase = .scanning ∨ f.phase = .matched1))
    (hmask : c.registers.get .irqMask &&& 0x2C = 0x2C)
    (h : Header) {payload image : List UInt8} (hi : h.image? payload = some image)
    {heard : List (Instant × UInt8)}
    (hheard : heard.map Prod.snd =
      [0, 0, 0, 0, 0x7A] ++ image ++ Crc.octets (Crc.ofList image.tail)) :
    let d := c.listen heard
    let old := c.registers.get .irqStatus
    (h.AddressedTo c.localAddress → 13 ≤ image.tail.length →
      d.registers.get .irqStatus = old ||| 0x2C ∧ d.interrupts = c.interrupts ++
        match c.variant with
        | .at86rf231 => (List.replicate 3 c.interruptLine).reduceOption
        | .atmega128rfa1 => [60, 63, 61]) ∧
    (h.AddressedTo c.localAddress → image.tail.length < 13 →
      d.registers.get .irqStatus = old ||| 0x0C ∧ d.interrupts = c.interrupts ++
        match c.variant with
        | .at86rf231 => (List.replicate 2 c.interruptLine).reduceOption
        | .atmega128rfa1 => [60, 61]) ∧
    (¬h.AddressedTo c.localAddress →
      d.registers.get .irqStatus = old ||| 0x04 ∧ d.interrupts = c.interrupts ++
        match c.variant with
        | .at86rf231 => c.interruptLine.toList
        | .atmega128rfa1 => [60]) := by
  obtain ⟨haccepted, hrefused⟩ := listen_notices hc hs hn ha hr h hi hheard
  intro d old
  have htold {events : List Event} (he : ∀ e ∈ events, 0x2C &&& e.statusBit = e.statusBit)
      (hd : d.notices = c.notices.tell (events.map c.occurrence)) :
      d.registers.get .irqStatus = old ||| Event.bits events ∧ d.interrupts = c.interrupts ++
        events.filterMap fun e => e.vector? c.interruptLine c.variant := by
    rw [tell_unmasked fun e hmem => unmasked_of_and hmask (he e hmem)] at hd
    exact ⟨congrArg Notices.status hd, congrArg Notices.interrupts hd⟩
  refine ⟨fun haddressed hlong => ?_, fun haddressed hshort => ?_, fun hother => ?_⟩
  · have hd := haccepted haddressed
    rw [if_pos hlong] at hd
    obtain ⟨hstatus, hinterrupts⟩ := htold (by decide) hd
    refine ⟨hstatus, hinterrupts.trans (congrArg _ ?_)⟩
    cases c.variant <;> cases c.interruptLine <;> rfl
  · have hd := haccepted haddressed
    rw [if_neg (Nat.not_le.2 hshort)] at hd
    obtain ⟨hstatus, hinterrupts⟩ := htold (by decide) hd
    refine ⟨hstatus, hinterrupts.trans (congrArg _ ?_)⟩
    cases c.variant <;> cases c.interruptLine <;> rfl
  · have hstart : ∀ e ∈ [Event.rxStart], 0x2C &&& e.statusBit = e.statusBit := by decide
    obtain ⟨hstatus, hinterrupts⟩ := htold hstart (hrefused hother)
    refine ⟨hstatus, hinterrupts.trans (congrArg _ ?_)⟩
    cases c.variant <;> cases c.interruptLine <;> rfl

end

/-! ### A frame sent -/

open QueuedFrame

variable [RandomWords G] {autoFcs : Bool} {ops : List Operation} {given : List (Option UInt8)}

/-- Loading and sending leave the masks as they are. -/
theorem occurrencesAlong_eq_map (hops : ∀ op ∈ ops, op = .transmit ∨ ∃ b, op = .pushFrame b) :
    d.occurrencesAlong ops = ((d.occurrencesAlong ops).map Occurrence.event).map d.occurrence := by
  induction ops generalizing d with
  | nil => rfl
  | cons op ops ih =>
    have hnext := ih (d := d.after op) fun x hx => hops x (List.mem_cons_of_mem op hx)
    have hkept : (d.after op).settings = d.settings ∧
        d.occurrences op = ((d.occurrences op).map Occurrence.event).map d.occurrence := by
      rcases hops op List.mem_cons_self with rfl | ⟨b, rfl⟩
      · refine ⟨d.settings_transmit, ?_⟩
        simp only [occurrences, occurrencesSent]
        cases d.transmitter with
        | none => rfl
        | some f => simp [occurrence, Function.comp_def]
      · exact ⟨rfl, rfl⟩
    obtain ⟨hsettings, hfirst⟩ := hkept
    rw [occurrence_of_settings hsettings] at hnext
    rw [occurrencesAlong, List.map_append, List.map_append, ← hfirst, ← hnext]

theorem Relayed.notices_eq (h : d.Relayed autoFcs ops given)
    (hops : ∀ op ∈ ops, op = .transmit ∨ ∃ b, op = .pushFrame b) :
    (d.run ops).notices = d.notices.tell
      ((events given (duration autoFcs (frameLength given) ≤ transmits ops)).map d.occurrence) := by
  have hspares : ∀ op ∈ ops, op.sparesStatus = true := by
    intro op hop
    rcases hops op hop with rfl | ⟨b, rfl⟩ <;> rfl
  rw [d.notices_run hspares, occurrencesAlong_eq_map hops, h.events_eq]
  rfl

/-- A node that has unmasked underruns and the end of a transmission is interrupted once for every
octet that it was too late with, and once for the end. -/
theorem interrupts_of_transmission (ht : c.transmitter = none) {k : Command}
    (hk : k = .txStart ∨ k = .txAretOn)
    (hops : ∀ op ∈ ops, op = .transmit ∨ ∃ b, op = .pushFrame b)
    (hmask : c.registers.get .irqMask &&& 0x48 = 0x48) :
    ∃ given, (c.command k.code).Relayed c.registers.autoFcs ops given ∧
      let d := (c.command k.code).run ops
      let ended := duration c.registers.autoFcs (frameLength given) ≤ transmits ops
      d.registers.get .irqStatus = c.registers.get .irqStatus |||
          (if none ∈ given then 0x40 else 0) ||| (if ended then 0x08 else 0) ∧
        d.interrupts = c.interrupts ++
          (List.replicate (given.count none + if ended then 1 else 0)
            (match c.variant with
            | .at86rf231 => c.interruptLine
            | .atmega128rfa1 => some 64)).reduceOption := by
  obtain ⟨hstarted, howed, hbuffer, hfcs⟩ := command_starts ht hk
  obtain ⟨given, h⟩ := relays_run hstarted howed hbuffer hfcs hops
  refine ⟨given, h.toRelayed, ?_⟩
  intro d ended
  have hmasks : (c.command k.code).occurrence = c.occurrence :=
    occurrence_of_settings (c.settings_execute _)
  have hnotices : (c.command k.code).notices = c.notices := c.notices_execute _
  have hunmasked : ∀ e ∈ events given ended, c.registers.unmasked e.statusBit = true := by
    intro e he
    refine unmasked_of_and hmask ?_
    rcases eq_of_mem_events he with rfl | rfl <;> rfl
  have htold := h.notices_eq hops
  rw [hmasks, hnotices, tell_unmasked hunmasked] at htold
  constructor
  · rw [UInt8.or_assoc, ← bits_events]
    exact congrArg Notices.status htold
  · rw [← vectors_events]
    exact congrArg Notices.interrupts htold

/-- A frame of two octets whose node loads none of them. -/
example :
    let config : Configuration := ⟨.atmega128rfa1, Vector.replicate 8 0, none, 0⟩
    let c := Chip.run (.build config (Instant.mk 0) (Mixer.mk 0))
      [.writeRegister .irqMask 0x48, .command Command.txStart.code, .pushFrame 4]
    let d := c.run (List.replicate 10 .transmit)
    d.registers.get .irqStatus = 0x48 ∧ d.interrupts = [64, 64, 64] := by decide +kernel

end Chip

end Transceiver
