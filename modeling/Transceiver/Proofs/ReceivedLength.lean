import Transceiver.Proofs.BufferCells
import Transceiver.Proofs.Hearing

/-!
# The length of a received frame

The length of a frame off the air is kept twice: in its register and as the first octet in the
buffer. The two agree as long as the node leaves the register alone, since everything that touches
the first octet also makes the buffer one that is not off the air. The link quality is written over
the last octet of a frame, which is never the first.
-/

namespace Transceiver

namespace FrameBuffer

/-- A write behind the first octet leaves it as it is. -/
theorem head?_poke {f : FrameBuffer} {index : Nat} (hi : 1 ≤ index) (hf : f.octets ≠ [])
    (b : UInt8) : (f.poke index b).2.octets.head? = f.octets.head? := by
  obtain ⟨x, r, hx⟩ := List.exists_cons_of_ne_nil hf
  obtain ⟨k, rfl⟩ := Nat.exists_eq_add_of_le' hi
  unfold poke
  split
  · simp only [hx]
    rfl
  · rfl

end FrameBuffer

namespace Chip

variable {G : Type} {c d : Chip G}

/-- The first octet of a received frame is its length. -/
def LengthShown (c : Chip G) : Prop :=
  c.buffer.received = true → c.buffer.octets.head? = some (c.registers.get .tstRxLength)

def lengthPlaces (c : Chip G) : Bool × Option UInt8 × UInt8 :=
  (c.buffer.received, c.buffer.octets.head?, c.registers.get .tstRxLength)

theorem LengthShown.congr (h : c.LengthShown) (hd : d.lengthPlaces = c.lengthPlaces) :
    d.LengthShown := by
  have hreceived : d.buffer.received = c.buffer.received := congrArg Prod.fst hd
  have hhead : d.buffer.octets.head? = c.buffer.octets.head? := congrArg (·.2.1) hd
  have hr : d.registers.get .tstRxLength = c.registers.get .tstRxLength := congrArg (·.2.2) hd
  unfold LengthShown
  rw [hreceived, hhead, hr]
  exact h

theorem lengthShown_of_not_received (h : c.buffer.received = false) : c.LengthShown := by
  intro hr
  rw [h] at hr
  cases hr

variable (c)

theorem lengthShown_build (config : Configuration) (now : Instant) (g : G) :
    (build config now g).LengthShown := lengthShown_of_not_received rfl

theorem lengthPlaces_setRegister {r : Register} (v : UInt8) (h : r ≠ .tstRxLength) :
    lengthPlaces { c with registers := c.registers.set r v } = c.lengthPlaces := by
  simp only [lengthPlaces, c.registers.get_set_of_ne v h]

/-! ### What leaves both places alone -/

theorem lengthPlaces_enter (s : OperatingState) : (c.enter s).lengthPlaces = c.lengthPlaces :=
  c.lengthPlaces_setRegister s.code (by decide)

theorem lengthPlaces_latch (e : Event) : (c.latch e).lengthPlaces = c.lengthPlaces :=
  c.lengthPlaces_setRegister _ (by decide)

theorem lengthPlaces_post (e : Event) : (c.post e).lengthPlaces = c.lengthPlaces := by
  unfold post
  split
  · rfl
  · rfl

@[simp] theorem lengthPlaces_raise (e : Event) : (c.raise e).lengthPlaces = c.lengthPlaces := by
  unfold raise
  split
  · rw [lengthPlaces_post, lengthPlaces_latch]
  · split
    · exact c.lengthPlaces_latch e
    · rfl

theorem lengthPlaces_advance (now : Instant) : (c.advance now).lengthPlaces = c.lengthPlaces := by
  unfold advance
  obtain ⟨fired, timer⟩ := c.rssiTimer.poll now
  simp only
  split
  · exact lengthPlaces_setRegister { c with rssiTimer := timer } _ (by decide)
  · rfl

theorem lengthPlaces_endTransmission : c.endTransmission.lengthPlaces = c.lengthPlaces := by
  unfold endTransmission
  split
  · rfl
  · rfl

theorem lengthPlaces_abandonTransmission :
    c.abandonTransmission.lengthPlaces = c.lengthPlaces :=
  lengthPlaces_endTransmission { c with owed := none }

theorem lengthPlaces_endReception : c.endReception.lengthPlaces = c.lengthPlaces := by
  unfold endReception
  split
  · exact lengthPlaces_setRegister
      { c.give .endReception with receiver := none, rssiTimer := .idle } _ (by decide)
  · rfl

theorem lengthPlaces_sleepPin (level : Bool) :
    (c.sleepPin level).lengthPlaces = c.lengthPlaces := by
  unfold sleepPin
  split
  · exact lengthPlaces_enter (c.give _) _
  · exact c.lengthPlaces_enter _
  · rfl

theorem lengthPlaces_readRegister (r : Register) :
    (c.readRegister r).2.lengthPlaces = c.lengthPlaces := by
  unfold readRegister RegisterFile.read
  by_cases hr : r = .irqStatus
  · simp only [if_pos hr]
    exact c.lengthPlaces_setRegister 0 (by rw [hr]; decide)
  · simp only [if_neg hr]

theorem lengthPlaces_pop :
    lengthPlaces { c with buffer := c.buffer.pop.2 } = c.lengthPlaces := by
  unfold FrameBuffer.pop
  split
  · rfl
  · rfl

theorem lengthPlaces_finishTransmission :
    c.finishTransmission.lengthPlaces = c.lengthPlaces := by
  unfold finishTransmission
  rw [lengthPlaces_abandonTransmission, lengthPlaces_raise]
  exact (lengthPlaces_setRegister _ _ (by decide)).trans (c.lengthPlaces_enter _)

theorem lengthPlaces_afterOctet (out : TransmitOutput) :
    (c.afterOctet out).lengthPlaces = c.lengthPlaces := by
  refine afterOctet_induction (P := fun d => d.lengthPlaces = c.lengthPlaces) out rfl ?_ ?_ ?_ ?_
  · exact fun d hd => d.lengthPlaces_pop.trans hd
  · exact fun d hd => hd
  · exact fun d hd => (d.lengthPlaces_raise .underrun).trans hd
  · exact fun d hd => d.lengthPlaces_finishTransmission.trans hd

theorem lengthPlaces_transmit : c.transmit.2.lengthPlaces = c.lengthPlaces := by
  unfold transmit
  cases c.transmitter with
  | none => rfl
  | some f => exact lengthPlaces_afterOctet { c with transmitter := some _ } _

variable {c}

/-! ### Sessions and control by the node -/

theorem LengthShown.beginTransmission (h : c.LengthShown) : c.beginTransmission.LengthShown := by
  unfold Chip.beginTransmission
  cases c.transmitter with
  | some f => exact h
  | none =>
    by_cases ho : c.owed.isNone
    · simp only [ho, if_true]
      exact lengthShown_of_not_received rfl
    · simp only [ho]
      exact h

theorem LengthShown.beginReception (h : c.LengthShown) : c.beginReception.LengthShown := by
  unfold Chip.beginReception
  cases c.receiver with
  | some f => exact h
  | none => exact lengthShown_of_not_received rfl

theorem LengthShown.abandonTransmission (h : c.LengthShown) :
    c.abandonTransmission.LengthShown := h.congr c.lengthPlaces_abandonTransmission

theorem LengthShown.abandonReception (h : c.LengthShown) : c.abandonReception.LengthShown :=
  h.congr (lengthPlaces_endReception { c with owed := none })

theorem LengthShown.steer (h : c.LengthShown) (t : Transition) : (c.steer t).LengthShown :=
  steer_induction t h (fun _ => abandonTransmission) (fun _ => abandonReception)
    (fun _ => beginTransmission) fun _ => beginReception

theorem LengthShown.execute (h : c.LengthShown) (command : Command) :
    (c.execute command).LengthShown := by
  unfold Chip.execute
  refine LengthShown.steer (h.congr ?_) _
  rw [lengthPlaces_enter]
  split
  · exact c.lengthPlaces_setRegister _ (by decide)
  · rfl

theorem LengthShown.writeRegister (h : c.LengthShown) {r : Register} (hr : r ≠ .tstRxLength)
    (v : UInt8) : (c.writeRegister r v).LengthShown := by
  have hset := h.congr (c.lengthPlaces_setRegister v hr)
  unfold Chip.writeRegister
  split
  · exact h
  · simp only
    split
    · exact hset.execute _
    · exact hset

theorem lengthShown_reset : c.reset.LengthShown := lengthShown_of_not_received rfl

/-! ### Reception -/

theorem octets_ne_nil_of_received (h : c.LengthShown) (hr : c.buffer.received = true) :
    c.buffer.octets ≠ [] := by
  intro hn
  have hhead := h hr
  rw [hn] at hhead
  cases hhead

theorem LengthShown.append (h : c.LengthShown) (b : UInt8) : LengthShown { c with
    buffer := { c.buffer with octets := c.buffer.octets ++ [b] } } := by
  intro hr
  have hhead : (c.buffer.octets ++ [b]).head? = c.buffer.octets.head? := by
    obtain ⟨x, r, hx⟩ := List.exists_cons_of_ne_nil (octets_ne_nil_of_received h hr)
    rw [hx]
    rfl
  exact hhead.trans (h hr)

theorem LengthShown.storeOctet (h : c.LengthShown) (b : UInt8) :
    (c.storeOctet b).2.LengthShown := by
  by_cases hroom : c.buffer.octets.length < FrameBuffer.capacity
  · rw [storeOctet_of_room hroom]
    exact h.append b
  · rw [storeOctet_of_full hroom]
    exact h

theorem lengthShown_startFrame (length : UInt8) : (c.startFrame length).2.LengthShown := by
  have hroom : FrameBuffer.forReception.octets.length < FrameBuffer.capacity := by decide
  unfold startFrame
  rw [storeOctet_of_room hroom]
  intro _
  exact congrArg some (c.registers.get_set_self .tstRxLength length).symm

theorem LengthShown.filter (h : c.LengthShown) (offset : Nat) :
    (c.filter offset).2.LengthShown := by
  refine filter_induction offset h (fun d sequence hd => hd.congr ?_)
    (fun d hd => hd.congr (d.lengthPlaces_raise .addressMatch)) fun _ hd => hd
  cases sequence with
  | some n => rfl
  | none => rfl

theorem LengthShown.turnAround (h : c.LengthShown) : c.turnAround.LengthShown := by
  unfold Chip.turnAround
  split
  · exact (h.congr c.lengthPlaces_endReception).beginTransmission
  · exact h

variable [RandomWords G]

/-- The link quality does not go in place of the length. -/
theorem LengthShown.completeChecked (h : c.LengthShown) (valid : Bool)
    (hl : c.buffer.received = true → 2 ≤ c.buffer.octets.length) :
    (c.completeChecked valid).LengthShown := by
  have hquality : (c.storeLinkQuality valid).LengthShown := by
    intro hr
    have hr : c.buffer.received = true := by
      rw [← hr]
      exact (FrameBuffer.received_poke ..).symm
    refine Eq.trans (FrameBuffer.head?_poke ?_ (octets_ne_nil_of_received h hr) _) (h hr)
    have hlength := hl hr
    omega
  have hraised := hquality.congr (lengthPlaces_raise _ .rxEnd)
  unfold Chip.completeChecked
  simp only
  split
  · exact hraised
  · exact hraised

theorem LengthShown.apply (h : c.LengthShown) {x : ReceiveEffect} (hx : x.IsRoutine) :
    (c.apply x).2.LengthShown := by
  cases x with
  | raise e => exact h.congr (c.lengthPlaces_raise e)
  | frameStart length => exact lengthShown_startFrame length
  | push b => exact h.storeOctet b
  | filterCheck offset => exact h.filter offset
  | frameComplete valid =>
    cases valid with
    | none => exact h.congr (lengthPlaces_raise _ .rxEnd)
    | some valid => exact hx.elim
  | endOfFrame carrier => exact hx.elim
  | discarded => exact h

theorem LengthShown.carryOut (h : c.LengthShown) {effects : List ReceiveEffect}
    (hroutine : ∀ x ∈ effects, x.IsRoutine) : (c.carryOut effects).LengthShown :=
  carryOut_induction h fun x hx _ hd => hd.apply (hroutine x hx)

theorem LengthShown.verdict (h : c.LengthShown) (b : UInt8) (valid : Bool) :
    (c.carryOut [.push b, .frameComplete (some valid)]).LengthShown := by
  by_cases hroom : c.buffer.octets.length < FrameBuffer.capacity
  · simp only [Chip.carryOut, Chip.apply, storeOctet_of_room hroom]
    refine (h.append b).completeChecked valid fun hr => ?_
    have hpos := List.length_pos_iff.2 (octets_ne_nil_of_received h hr)
    change 2 ≤ (c.buffer.octets ++ [b]).length
    rw [List.length_append, List.length_singleton]
    omega
  · simp only [Chip.carryOut, Chip.apply, storeOctet_of_full hroom]
    exact h

theorem LengthShown.receive (h : c.LengthShown) (carrier : Bool) (b : UInt8) :
    (c.receive carrier b).2.LengthShown := by
  have hd := h.congr (c.lengthPlaces_advance c.surroundings.now)
  rcases receive_cases c carrier b with ⟨hr, he⟩ | ⟨f, hr, ⟨hp, he⟩ | ⟨hp, valid, he⟩ |
    ⟨hp, g, effects, hroutine, he⟩⟩ <;> rw [he]
  · exact hd
  · exact LengthShown.turnAround (hd.congr rfl)
  · refine LengthShown.verdict ?_ b valid
    exact hd
  · refine LengthShown.carryOut ?_ hroutine
    exact hd

end Chip

end Transceiver
