import Transceiver.Proofs.Activity

/-!
# What an octet on the medium does to an activity

The effects that the receive framer asks for are routine but for two: the verdict on the check
octets of a frame, and the end of a frame. Routine effects lead from an activity to one that it
`Hears`, in which nothing new is owed. `Activity.Heard` adds what the other two can do, and
`heard_receive` says that there is nothing else.
-/

namespace Transceiver

/-! ### The effects of one octet heard -/

@[simp] def ReceiveEffect.IsRoutine : ReceiveEffect → Prop
  | .frameComplete (some _) | .endOfFrame _ => False
  | _ => True

namespace ReceiveFramer

variable {f : ReceiveFramer} {i : ReceiveInput}

theorem step_of_done (h : f.phase = .done) : f.step i =
    ({ f with phase := .scanning }, ⟨i.octet, [.endOfFrame i.carrier]⟩) := by
  simp only [step, if_pos h]

theorem step_of_carrier (hd : f.phase ≠ .done) (hc : i.carrier = true) : f.step i =
    ((f.hear i.octet i.autoFcs).1, ⟨i.octet, (f.hear i.octet i.autoFcs).2⟩) := by
  simp only [step, if_neg hd, if_pos hc]

theorem step_of_silence (hd : f.phase ≠ .done) (hc : i.carrier = false) : f.step i =
    (f.loseCarrier.1, ⟨i.octet, f.loseCarrier.2⟩) := by
  simp [step, hd, hc]

theorem step_of_check2 (h : f.phase = .check2) (hc : i.carrier = true) : f.step i =
    ({ f with phase := .done }, ⟨i.octet,
      [.push i.octet, .frameComplete (some (Crc.accepts f.crc f.firstCheck i.octet))]⟩) := by
  have hd : f.phase ≠ .done := by rw [h]; decide
  rw [step_of_carrier hd hc]
  simp only [hear, h]

theorem isRoutine_of_loseCarrier : ∀ x ∈ f.loseCarrier.2, x.IsRoutine := by
  unfold loseCarrier
  cases f.phase <;> simp

theorem isRoutine_of_openFrame (b : UInt8) (autoFcs : Bool) :
    ∀ x ∈ (f.openFrame b autoFcs).2, x.IsRoutine := by
  unfold openFrame
  generalize (if autoFcs then 2 else 0 : UInt8) = fcsLength
  simp only
  split <;> simp

theorem isRoutine_of_takeOctet (b : UInt8) (autoFcs : Bool) :
    ∀ x ∈ (f.takeOctet b autoFcs).2, x.IsRoutine := by
  have hstored (offset : Nat) : ∀ x ∈ ReceiveEffect.push b ::
      (if offset ∈ checkOffsets then [.filterCheck offset] else []), x.IsRoutine := by
    split <;> simp
  unfold takeOctet
  simp only
  split
  · exact hstored _
  · split
    · intro x hx
      rcases List.mem_append.1 hx with hx | hx
      · exact hstored _ x hx
      · rw [List.mem_singleton.1 hx]
        trivial
    · exact hstored _

theorem isRoutine_of_passOver : ∀ x ∈ f.passOver.2, x.IsRoutine := by
  unfold passOver
  generalize (if f.counter = 255 then 255 else f.counter + 1) = counter
  simp only
  split <;> simp

theorem isRoutine_of_hear (b : UInt8) (autoFcs : Bool) (hc : f.phase ≠ .check2) :
    ∀ x ∈ (f.hear b autoFcs).2, x.IsRoutine := by
  unfold hear
  cases hp : f.phase with
  | matched2 => exact isRoutine_of_openFrame b autoFcs
  | inPacket => exact isRoutine_of_takeOctet b autoFcs
  | waiting => exact isRoutine_of_passOver
  | check2 => exact absurd hp hc
  | matched1 =>
    simp only [scan]
    split <;> simp
  | scanning | check1 | done | overflow => simp [scan]

/-- Only the second check octet brings a verdict, and only the octet after a frame its end. -/
theorem isRoutine_of_step (hd : f.phase ≠ .done) (hc : f.phase = .check2 → i.carrier = false) :
    ∀ x ∈ (f.step i).2.effects, x.IsRoutine := by
  cases hi : i.carrier with
  | true =>
    have hp : f.phase ≠ .check2 := by
      intro hp
      rw [hc hp] at hi
      cases hi
    rw [step_of_carrier hd hi]
    exact isRoutine_of_hear _ _ hp
  | false =>
    rw [step_of_silence hd hi]
    exact isRoutine_of_loseCarrier

end ReceiveFramer

/-! ### Hearing -/

namespace Activity

/-- `a.Hears b`: reception leads from `a` to `b` without calling for an acknowledgement. -/
def Hears (a b : Activity) : Prop :=
  ∃ f o v, (o = none ∨ o = a.owed) ∧ b = { a with receiver := some f, owed := o, lastValid := v }

variable {a b d : Activity}

theorem hears_self {f : ReceiveFramer} (h : a.receiver = some f) : a.Hears a :=
  ⟨f, a.owed, a.lastValid, .inr rfl, by rw [← h]⟩

theorem Hears.trans (hab : a.Hears b) (hbd : b.Hears d) : a.Hears d := by
  obtain ⟨f, o, v, ho, rfl⟩ := hab
  obtain ⟨f', o', v', ho', rfl⟩ := hbd
  refine ⟨f', o', v', ?_, rfl⟩
  rcases ho' with ho' | ho'
  · exact .inl ho'
  · rcases ho with ho | ho
    · exact .inl (ho'.trans ho)
    · exact .inr (ho'.trans ho)

theorem Hears.exists_receiver (h : a.Hears b) : ∃ f, b.receiver = some f := by
  obtain ⟨f, o, v, -, rfl⟩ := h
  exact ⟨f, rfl⟩

end Activity

namespace Chip

variable {G : Type} {c : Chip G} {f : ReceiveFramer}

theorem storeOctet_of_room {b : UInt8} (h : c.buffer.octets.length < FrameBuffer.capacity) :
    c.storeOctet b =
      (true, { c with buffer := { c.buffer with octets := c.buffer.octets ++ [b] } }) := by
  simp only [storeOctet, FrameBuffer.push, if_pos h]

theorem storeOctet_of_full {b : UInt8} (h : ¬c.buffer.octets.length < FrameBuffer.capacity) :
    c.storeOctet b = (false, { c with receiver := c.receiver.map .overflow }) := by
  simp only [storeOctet, FrameBuffer.push, if_neg h]

theorem hears_storeOctet (hf : c.receiver = some f) (b : UInt8) :
    c.activity.Hears (c.storeOctet b).2.activity := by
  by_cases h : c.buffer.octets.length < FrameBuffer.capacity
  · rw [storeOctet_of_room h]
    exact Activity.hears_self hf
  · rw [storeOctet_of_full h]
    refine ⟨f.overflow, c.owed, c.lastValid, .inr rfl, ?_⟩
    simp only [hf]
    rfl

theorem hears_startFrame (hf : c.receiver = some f) (length : UInt8) :
    c.activity.Hears (c.startFrame length).2.activity := by
  let opened : Chip G := { c with
    buffer := .forReception
    registers := c.registers.set .tstRxLength length }
  have hopened : opened.activity = c.activity := c.activity_setRegister length (by decide)
  rw [← hopened]
  exact hears_storeOctet (c := opened) hf length

theorem hears_noteSequence (hf : c.receiver = some f) (sequence : Option UInt8) :
    c.activity.Hears (c.noteSequence sequence).activity := by
  cases sequence with
  | none => exact Activity.hears_self hf
  | some n => exact ⟨f, none, false, .inl rfl, by rw [← hf]; rfl⟩

theorem hears_filter (hf : c.receiver = some f) (offset : Nat) :
    c.activity.Hears (c.filter offset).2.activity := by
  unfold filter
  simp only
  have hnote := hears_noteSequence hf
    (FrameFilter.check c.buffer.octets offset c.localAddress).sequence
  generalize c.noteSequence _ = c' at hnote ⊢
  split
  · exact hnote
  · split
    · split
      · rw [activity_raise]
        exact hnote
      · exact hnote
    · obtain ⟨f', hf'⟩ := hnote.exists_receiver
      refine hnote.trans ⟨f'.reject, c'.owed, c'.lastValid, .inr rfl, ?_⟩
      have hf' : c'.receiver = some f' := hf'
      simp only [hf']
      rfl

theorem hears_completeUnchecked (hf : c.receiver = some f) :
    c.activity.Hears c.completeUnchecked.activity := by
  unfold completeUnchecked
  rw [activity_raise]
  exact ⟨f, c.owed, false, .inr rfl, by rw [← hf]; rfl⟩

theorem state_of_acknowledgement {k : Acknowledgement} (h : c.acknowledgement? = some k) :
    c.state = .rxAackOn := by
  unfold acknowledgement? at h
  simp only at h
  split at h
  · rename_i hc
    exact hc.1
  · cases h

theorem activity_turnAround : c.turnAround.activity =
    if c.owed.isSome ∧ c.lastValid then c.activity.closeReception.openTransmission
    else c.activity := by
  unfold turnAround
  split
  · rw [activity_beginTransmission, activity_endReception]
  · rfl

theorem get_advance {r : Register} (h : r ≠ .phyRssi) (now : Instant) :
    (c.advance now).registers.get r = c.registers.get r := by
  unfold advance
  obtain ⟨fired, timer⟩ := c.rssiTimer.poll now
  simp only
  split
  · exact c.registers.get_set_of_ne _ h.symm
  · rfl

/-- The chip when its framer has taken a step, before the effects of it. -/
theorem activity_stepped (f : ReceiveFramer) :
    activity { c.advance c.surroundings.now with receiver := some f } =
      { c.activity with receiver := some f } :=
  congrArg (fun a => { a with receiver := some f }) (c.activity_advance c.surroundings.now)

variable [RandomWords G]

theorem hears_apply (hf : c.receiver = some f) {x : ReceiveEffect} (hx : x.IsRoutine) :
    c.activity.Hears (c.apply x).2.activity := by
  cases x with
  | raise e =>
    change c.activity.Hears (c.raise e).activity
    rw [activity_raise]
    exact Activity.hears_self hf
  | frameStart length => exact hears_startFrame hf length
  | push b => exact hears_storeOctet hf b
  | filterCheck offset => exact hears_filter hf offset
  | frameComplete valid =>
    cases valid with
    | none => exact hears_completeUnchecked hf
    | some valid => exact hx.elim
  | endOfFrame carrier => exact hx.elim
  | discarded => exact ⟨f, none, c.lastValid, .inl rfl, by rw [← hf]; rfl⟩

theorem hears_carryOut (hf : c.receiver = some f) {effects : List ReceiveEffect}
    (h : ∀ x ∈ effects, x.IsRoutine) : c.activity.Hears (c.carryOut effects).activity := by
  refine carryOut_induction (P := fun d => c.activity.Hears d.activity) (Activity.hears_self hf)
    fun x hx d hd => ?_
  obtain ⟨g, hg⟩ := hd.exists_receiver
  exact hd.trans (hears_apply hg (h x hx))

theorem activity_storeLinkQuality (valid : Bool) :
    (c.storeLinkQuality valid).activity = c.activity := rfl

/-- A verdict on check octets either calls for an acknowledgement or does not. -/
theorem activity_completeChecked (hf : c.receiver = some f) (valid : Bool) :
    c.activity.Hears (c.completeChecked valid).activity ∨
      c.state = .rxAackOn ∧ ∃ k, (c.completeChecked valid).activity =
        { c.activity with owed := some k, lastValid := true } := by
  unfold completeChecked
  have hraise : ((c.storeLinkQuality valid).raise .rxEnd).activity = c.activity := by
    rw [activity_raise, activity_storeLinkQuality]
  simp only
  generalize (c.storeLinkQuality valid).raise .rxEnd = c' at hraise ⊢
  have howed : c'.owed = c.owed := congrArg Activity.owed hraise
  have hf' : some f = c'.receiver := (hf.symm.trans (congrArg Activity.receiver hraise).symm)
  cases valid with
  | false =>
    left
    rw [← hraise]
    exact ⟨f, none, false, .inl rfl, by rw [hf']; rfl⟩
  | true =>
    cases hk : c'.acknowledgement? with
    | none =>
      left
      rw [← hraise]
      exact ⟨f, c'.owed, true, .inr rfl, by rw [hf']; rfl⟩
    | some k =>
      right
      have hs : c'.state = c.state := congrArg Activity.state hraise
      refine ⟨hs ▸ state_of_acknowledgement hk, k, ?_⟩
      rw [← hraise]
      rfl

theorem receive_of_none (h : c.receiver = none) (carrier : Bool) (b : UInt8) :
    c.receive carrier b = (b, c.advance c.surroundings.now) := by
  have hr : (c.advance c.surroundings.now).receiver = none :=
    (congrArg Activity.receiver (c.activity_advance _)).trans h
  simp only [receive, hr]

theorem receiver_receive_of_none (h : c.receiver = none) (carrier : Bool) (b : UInt8) :
    (c.receive carrier b).2.receiver = none := by
  rw [receive_of_none h]
  exact (congrArg Activity.receiver (c.activity_advance _)).trans h

theorem receive_of_some (h : c.receiver = some f) (carrier : Bool) (b : UInt8) :
    let r := f.step ⟨b, carrier, c.registers.autoFcs⟩
    (c.receive carrier b).2 =
      carryOut { c.advance c.surroundings.now with receiver := some r.1 } r.2.effects := by
  have hr : (c.advance c.surroundings.now).receiver = some f :=
    (congrArg Activity.receiver (c.activity_advance _)).trans h
  have ha : (c.advance c.surroundings.now).registers.autoFcs = c.registers.autoFcs := by
    unfold RegisterFile.autoFcs
    rw [get_advance (by decide)]
  simp only [receive, hr, ha]

/-- All that an octet on the medium can do: nothing, end a frame that was complete, complete one
with a verdict on its check octets, or have routine effects. -/
theorem receive_cases (c : Chip G) (carrier : Bool) (b : UInt8) :
    let d := c.advance c.surroundings.now
    let e := (c.receive carrier b).2
    c.receiver = none ∧ e = d ∨ ∃ f, c.receiver = some f ∧
      (f.phase = .done ∧ e = turnAround { d with receiver := some { f with phase := .scanning } } ∨
      f.phase = .check2 ∧ (∃ valid, e =
        carryOut { d with receiver := some { f with phase := .done } }
          [.push b, .frameComplete (some valid)]) ∨
      f.phase ≠ .done ∧ ∃ g effects, (∀ x ∈ effects, x.IsRoutine) ∧
        e = carryOut { d with receiver := some g } effects) := by
  intro d e
  cases hr : c.receiver with
  | none =>
    refine .inl ⟨rfl, ?_⟩
    change (c.receive carrier b).2 = d
    rw [receive_of_none hr]
  | some f =>
    have he := receive_of_some hr carrier b
    refine .inr ⟨f, rfl, ?_⟩
    by_cases hd : f.phase = .done
    · rw [ReceiveFramer.step_of_done hd] at he
      exact .inl ⟨hd, he⟩
    · by_cases hc : f.phase = .check2 ∧ carrier = true
      · obtain ⟨hp, rfl⟩ := hc
        rw [ReceiveFramer.step_of_check2 hp rfl] at he
        exact .inr (.inl ⟨hp, _, he⟩)
      · refine .inr (.inr ⟨hd, _, _, ?_, he⟩)
        apply ReceiveFramer.isRoutine_of_step hd
        intro hp
        exact eq_false_of_ne_true fun hcarrier => hc ⟨hp, hcarrier⟩

end Chip

namespace Activity

variable {a : Activity}

/-- `a.Heard b`: an octet on the medium may lead from `a` to `b`. -/
inductive Heard (a : Activity) : Activity → Prop where
  | deaf (hr : a.receiver = none) : Heard a a
  | hears {f : ReceiveFramer} {b : Activity} (hr : a.receiver = some f) (hp : f.phase ≠ .done)
      (h : a.Hears b) : Heard a b
  /-- The check octets were right and call for an acknowledgement. -/
  | schedules {f g : ReceiveFramer} (hr : a.receiver = some f) (hp : f.phase = .check2)
      (hd : g.phase = .done) (hs : a.state = .rxAackOn) (k : Acknowledgement) :
      Heard a { a with receiver := some g, owed := some k, lastValid := true }
  | turnsAround {f : ReceiveFramer} (hr : a.receiver = some f) (hp : f.phase = .done)
      (ho : a.owed.isSome ∧ a.lastValid = true) : Heard a a.closeReception.openTransmission
  | passes {f : ReceiveFramer} (hr : a.receiver = some f) (hp : f.phase = .done)
      (ho : ¬(a.owed.isSome ∧ a.lastValid = true)) :
      Heard a { a with receiver := some { f with phase := .scanning } }

end Activity

namespace Chip

variable {G : Type} {c : Chip G} {f : ReceiveFramer}

theorem heard_turnAround (hr : c.receiver = some f) (hp : f.phase = .done) :
    c.activity.Heard (turnAround { c.advance c.surroundings.now with
      receiver := some { f with phase := .scanning } }).activity := by
  let f' : ReceiveFramer := { f with phase := .scanning }
  let d : Chip G := { c.advance c.surroundings.now with receiver := some f' }
  have hd : d.activity = { c.activity with receiver := some f' } := activity_stepped f'
  have howed : d.owed = c.owed := congrArg Activity.owed hd
  have hvalid : d.lastValid = c.lastValid := congrArg Activity.lastValid hd
  change c.activity.Heard d.turnAround.activity
  rw [activity_turnAround, hd, howed, hvalid]
  by_cases ho : c.owed.isSome ∧ c.lastValid = true
  · rw [if_pos ho, Activity.closeReception_of_some (f := f') rfl,
      ← Activity.closeReception_of_some (a := c.activity) hr]
    exact .turnsAround hr hp ho
  · rw [if_neg ho]
    exact .passes hr hp ho

variable [RandomWords G]

theorem heard_verdict (hr : c.receiver = some f) (hp : f.phase = .check2) (b : UInt8)
    (valid : Bool) : c.activity.Heard (carryOut { c.advance c.surroundings.now with
      receiver := some { f with phase := .done } }
        [.push b, .frameComplete (some valid)]).activity := by
  let f' : ReceiveFramer := { f with phase := .done }
  let d : Chip G := { c.advance c.surroundings.now with receiver := some f' }
  have hd : d.activity = { c.activity with receiver := some f' } := activity_stepped f'
  have hf : f.phase ≠ .done := by rw [hp]; decide
  have hcd : c.activity.Hears d.activity := ⟨f', c.owed, c.lastValid, .inr rfl, hd⟩
  change c.activity.Heard (d.carryOut [.push b, .frameComplete (some valid)]).activity
  by_cases hroom : d.buffer.octets.length < FrameBuffer.capacity
  · simp only [carryOut, apply, storeOctet_of_room hroom]
    let e : Chip G := { d with buffer := { d.buffer with octets := d.buffer.octets ++ [b] } }
    have he : e.activity = d.activity := rfl
    rcases activity_completeChecked (c := e) (f := f') rfl valid with h | ⟨hs, k, hk⟩
    · rw [he] at h
      exact .hears hr hf (hcd.trans h)
    · have hs : c.activity.state = .rxAackOn := (congrArg Activity.state hd).symm.trans hs
      rw [hk, he, hd]
      exact .schedules (g := f') hr hp rfl hs k
  · have hstore := hears_storeOctet (c := d) (f := f') rfl b
    simp only [carryOut, apply, storeOctet_of_full hroom] at hstore ⊢
    exact .hears hr hf (hcd.trans hstore)

theorem heard_receive (c : Chip G) (carrier : Bool) (b : UInt8) :
    c.activity.Heard (c.receive carrier b).2.activity := by
  rcases receive_cases c carrier b with ⟨hr, he⟩ | ⟨f, hr, ⟨hp, he⟩ | ⟨hp, valid, he⟩ |
    ⟨hp, g, effects, hroutine, he⟩⟩ <;> rw [he]
  · rw [activity_advance]
    exact .deaf hr
  · exact heard_turnAround hr hp
  · exact heard_verdict hr hp b valid
  · let d : Chip G := { c.advance c.surroundings.now with receiver := some g }
    have hcd : c.activity.Hears d.activity :=
      ⟨g, c.owed, c.lastValid, .inr rfl, activity_stepped g⟩
    exact .hears hr hp (hcd.trans (hears_carryOut (c := d) rfl hroutine))

end Chip

end Transceiver
