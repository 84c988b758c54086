import Transceiver.Proofs.LinkQuality

/-!
# Bit errors of one frame

The medium reports the bit errors of the octets as they pass, and the chip starts its statistics
over in four places: when the receiver starts, when a frame is complete, checked or not, and when a
refused one is over. So the ways in which a frame can end have to be matched with the effects that
they bring, and `clears_of_end` does so for all of them but one: with the carrier lost inside of a
frame, what was reported of it is left to the next one (`bit_errors_of_lost_frame`). Otherwise the
statistics at any later moment are those of the reports that have come in since
(`bit_errors_of_one_frame`).
-/

namespace Transceiver

@[simp] def ReceiveEffect.Clears : ReceiveEffect → Prop
  | .frameComplete _ | .discarded => True
  | _ => False

namespace BitErrors

def heard (e : BitErrors) : Operation → BitErrors
  | .recordBitErrors rate n => e.recordMany rate n
  | _ => e

def reported (e : BitErrors) (ops : List Operation) : BitErrors := ops.foldl heard e

theorem reported_concat (e : BitErrors) (ops : List Operation) (op : Operation) :
    e.reported (ops ++ [op]) = (e.reported ops).heard op := by
  simp [reported]

end BitErrors

namespace ReceiveFramer

variable {f : ReceiveFramer} {i : ReceiveInput}

/-- A frame that ends, other than with the carrier lost inside of it, has the statistics started
over. -/
theorem clears_of_end (hf : f.InFrame ∧ i.carrier = true ∨ f.phase = .waiting)
    (hend : (f.step i).1.phase = .done ∨ (f.step i).1.phase = .scanning) :
    ∃ x ∈ (f.step i).2.effects, x.Clears := by
  rcases hf with ⟨hin, hc⟩ | hp
  · rw [step_of_carrier hin.ne_done hc] at hend ⊢
    unfold hear at hend ⊢
    rcases hin with hp | hp | hp
    · simp only [hp, takeOctet] at hend ⊢
      cases hfcs : i.autoFcs with
      | true =>
        simp only [hfcs, if_true] at hend
        split at hend <;> simp at hend
      | false =>
        simp only [hfcs, Bool.false_eq_true, if_false] at hend ⊢
        split
        · exact ⟨.frameComplete none, by simp, trivial⟩
        · rename_i hmore
          simp [hmore] at hend
    · simp [hp] at hend
    · simp [hp]
  · have hd : f.phase ≠ .done := by simp [hp]
    cases hc : i.carrier with
    | false =>
      rw [step_of_silence hd hc]
      simp [loseCarrier, hp]
    | true =>
      rw [step_of_carrier hd hc] at hend ⊢
      simp only [hear, hp, passOver] at hend ⊢
      generalize (if f.counter = 255 then 255 else f.counter + 1) = counter at hend ⊢
      split
      · exact ⟨.discarded, List.mem_singleton_self _, trivial⟩
      · rename_i hmore
        simp [hmore] at hend

end ReceiveFramer

namespace Chip

variable {G : Type} {c d : Chip G}

instance (c : Chip G) (phase : ReceivePhase) : Decidable (c.InPhase phase) :=
  decidable_of_iff (c.receiver.map (·.phase) = some phase) (by simp [InPhase])

def Forgets (c d : Chip G) : Prop := d.bitErrors = c.bitErrors ∨ d.bitErrors = .empty

theorem forgets_refl (c : Chip G) : c.Forgets c := .inl rfl

theorem Forgets.trans {e : Chip G} (h : c.Forgets d) (h' : d.Forgets e) : c.Forgets e := by
  rcases h' with h' | h'
  · exact h.imp h'.trans h'.trans
  · exact .inr h'

/-! ### Control and transmission -/

theorem bitErrors_raise (c : Chip G) (e : Event) : (c.raise e).bitErrors = c.bitErrors := by
  rw [raise_eq]

theorem bitErrors_endReception (c : Chip G) : c.endReception.bitErrors = c.bitErrors := by
  unfold endReception
  split <;> rfl

theorem bitErrors_abandonTransmission (c : Chip G) :
    c.abandonTransmission.bitErrors = c.bitErrors := by
  unfold abandonTransmission endTransmission
  simp only
  split <;> rfl

theorem bitErrors_beginTransmission (c : Chip G) :
    c.beginTransmission.bitErrors = c.bitErrors := by
  unfold beginTransmission
  split
  · rfl
  · cases c.owed.isNone <;> rfl

theorem forgets_beginReception (c : Chip G) : c.Forgets c.beginReception := by
  unfold beginReception
  split
  · exact c.forgets_refl
  · exact .inr rfl

theorem forgets_steer (c : Chip G) (t : Transition) : c.Forgets (c.steer t) := by
  refine steer_induction t c.forgets_refl ?_ ?_ ?_ ?_
  · exact fun d hd => hd.trans (.inl d.bitErrors_abandonTransmission)
  · exact fun d hd => hd.trans (.inl (bitErrors_endReception { d with owed := none }))
  · exact fun d hd => hd.trans (.inl d.bitErrors_beginTransmission)
  · exact fun d hd => hd.trans d.forgets_beginReception

theorem forgets_execute (c : Chip G) (command : Command) : c.Forgets (c.execute command) := by
  unfold execute
  simp only
  refine Forgets.trans (.inl ?_) (forgets_steer _ _)
  split <;> rfl

theorem forgets_writeRegister (c : Chip G) (r : Register) (v : UInt8) :
    c.Forgets (c.writeRegister r v) := by
  unfold writeRegister
  split
  · exact c.forgets_refl
  · split
    · exact forgets_execute { c with registers := c.registers.set r v } _
    · exact .inl rfl

theorem bitErrors_sleepPin (c : Chip G) (level : Bool) :
    (c.sleepPin level).bitErrors = c.bitErrors := by
  unfold sleepPin
  split <;> rfl

theorem bitErrors_reset (c : Chip G) : c.reset.bitErrors = c.bitErrors := by
  have habandon (d : Chip G) :
      d.abandonTransmission.abandonReception.bitErrors = d.bitErrors :=
    (bitErrors_endReception _).trans d.bitErrors_abandonTransmission
  exact habandon _

theorem bitErrors_advance (c : Chip G) (now : Instant) :
    (c.advance now).bitErrors = c.bitErrors := by
  rw [advance_eq]

theorem bitErrors_finishTransmission (c : Chip G) :
    c.finishTransmission.bitErrors = c.bitErrors := by
  unfold finishTransmission
  rw [bitErrors_abandonTransmission, bitErrors_raise]
  rfl

theorem bitErrors_afterOctet (c : Chip G) (out : TransmitOutput) :
    (c.afterOctet out).bitErrors = c.bitErrors := by
  refine afterOctet_induction (P := fun d => d.bitErrors = c.bitErrors) out rfl ?_ ?_ ?_ ?_
  · exact fun d hd => hd
  · exact fun d hd => hd
  · exact fun d hd => (d.bitErrors_raise .underrun).trans hd
  · exact fun d hd => d.bitErrors_finishTransmission.trans hd

theorem bitErrors_transmit (c : Chip G) : c.transmit.2.bitErrors = c.bitErrors := by
  unfold transmit
  cases c.transmitter with
  | none => rfl
  | some f => exact bitErrors_afterOctet { c with transmitter := some _ } _

/-! ### Reception -/

theorem bitErrors_storeOctet (c : Chip G) (b : UInt8) :
    (c.storeOctet b).2.bitErrors = c.bitErrors := by
  unfold storeOctet
  split <;> rfl

theorem bitErrors_filter (c : Chip G) (offset : Nat) :
    (c.filter offset).2.bitErrors = c.bitErrors := by
  refine filter_induction (P := fun d => d.bitErrors = c.bitErrors) offset rfl ?_ ?_ ?_
  · rintro d (_ | n) hd <;> exact hd
  · exact fun d hd => (d.bitErrors_raise .addressMatch).trans hd
  · exact fun d hd => hd

theorem bitErrors_turnAround (c : Chip G) : c.turnAround.bitErrors = c.bitErrors := by
  unfold turnAround
  split
  · rw [bitErrors_beginTransmission, bitErrors_endReception]
  · rfl

variable [RandomWords G]

theorem bitErrors_apply_of_clears (c : Chip G) {x : ReceiveEffect} (hx : x.Clears) :
    (c.apply x).2.bitErrors = .empty := by
  cases x with
  | frameComplete valid =>
    cases valid with
    | none => exact bitErrors_raise { c with bitErrors := .empty, lastValid := false } .rxEnd
    | some valid =>
      change (c.completeChecked valid).bitErrors = _
      rw [completeChecked_eq]
      exact bitErrors_raise (c.storeLinkQuality valid) .rxEnd
  | discarded => rfl
  | _ => exact hx.elim

theorem forgets_apply (c : Chip G) (x : ReceiveEffect) : c.Forgets (c.apply x).2 := by
  cases x with
  | raise e => exact .inl (c.bitErrors_raise e)
  | frameStart length =>
    exact .inl (bitErrors_storeOctet { c with
      buffer := .forReception
      registers := c.registers.set .tstRxLength length } length)
  | push b => exact .inl (c.bitErrors_storeOctet b)
  | filterCheck offset => exact .inl (c.bitErrors_filter offset)
  | endOfFrame carrier => exact .inl c.bitErrors_turnAround
  | frameComplete | discarded => exact .inr (c.bitErrors_apply_of_clears trivial)

/-- An effect that cancels those behind it leaves a framer that passes over the frame or has given
up. -/
theorem phase_of_cancels {x : ReceiveEffect} (hx : (c.apply x).1 = false) {phase : ReceivePhase}
    (hp : (c.apply x).2.InPhase phase) : phase = .waiting ∨ phase = .overflow := by
  have hstore {d : Chip G} {b : UInt8} (hx : (d.storeOctet b).1 = false)
      (hp : (d.storeOctet b).2.InPhase phase) : phase = .overflow := by
    by_cases hroom : d.buffer.octets.length < FrameBuffer.capacity
    · rw [storeOctet_of_room hroom] at hx
      cases hx
    · rw [storeOctet_of_full hroom] at hp
      obtain ⟨f, hf, rfl⟩ := hp
      obtain ⟨g, -, rfl⟩ := Option.map_eq_some_iff.1 hf
      rfl
  cases x with
  | frameStart length => exact .inr (hstore hx hp)
  | push b => exact .inr (hstore hx hp)
  | filterCheck offset =>
    change (c.filter offset).1 = false at hx
    change (c.filter offset).2.InPhase phase at hp
    by_cases htakes : c.Takes c.buffer.octets offset
    · rw [c.filter_of_takes htakes] at hx
      cases hx
    · rw [c.filter_of_refuses htakes] at hp
      obtain ⟨f, hf, rfl⟩ := hp
      obtain ⟨g, -, rfl⟩ := Option.map_eq_some_iff.1 hf
      exact .inl rfl
  | frameComplete valid => cases valid <;> cases hx
  | raise | endOfFrame | discarded => cases hx

theorem forgets_carryOut (c : Chip G) (effects : List ReceiveEffect) :
    c.Forgets (c.carryOut effects) :=
  carryOut_induction c.forgets_refl fun x _ d hd => hd.trans (d.forgets_apply x)

/-- Effects of which none has been cancelled start the statistics over if one of them does. -/
theorem bitErrors_carryOut {effects : List ReceiveEffect} (h : ∃ x ∈ effects, x.Clears)
    {phase : ReceivePhase} (hp : (c.carryOut effects).InPhase phase) (hw : phase ≠ .waiting)
    (ho : phase ≠ .overflow) : (c.carryOut effects).bitErrors = .empty := by
  induction effects generalizing c with
  | nil => simp at h
  | cons x r ih =>
    obtain ⟨y, hy, hclears⟩ := h
    unfold carryOut at hp ⊢
    cases happly : c.apply x with
    | mk goesOn d =>
      rw [happly] at hp
      cases goesOn with
      | false =>
        have hcancelled : (c.apply x).2.InPhase phase := happly ▸ hp
        rcases phase_of_cancels (congrArg Prod.fst happly) hcancelled with h | h
        · exact absurd h hw
        · exact absurd h ho
      | true =>
        rcases List.mem_cons.1 hy with rfl | hr
        · have hd := c.bitErrors_apply_of_clears hclears
          rw [happly] at hd
          rcases d.forgets_carryOut r with hrest | hrest
          · exact hrest.trans hd
          · exact hrest
        · exact ih ⟨y, hr, hclears⟩ hp

theorem bitErrors_receive {f : ReceiveFramer} (hf : c.receiver = some f) (carrier : Bool)
    (b : UInt8) : c.Forgets (c.receive carrier b).2 := by
  rw [receive_of_some hf]
  exact Forgets.trans (.inl (c.bitErrors_advance _)) (forgets_carryOut _ _)

/-! ### The statistics -/

/-- An operation adds to the statistics what it reports, or starts them over. -/
theorem bitErrors_after (c : Chip G) (op : Operation) :
    (c.after op).bitErrors = c.bitErrors.heard op ∨ (c.after op).bitErrors = .empty := by
  cases op with
  | recordBitErrors rate n => exact .inl rfl
  | takePacketErrorRate => exact .inr rfl
  | writeRegister r v => exact c.forgets_writeRegister r v
  | command code => exact c.forgets_execute _
  | sleepPin level => exact .inl (c.bitErrors_sleepPin level)
  | reset => exact .inl c.bitErrors_reset
  | transmit => exact .inl c.bitErrors_transmit
  | advance now => exact .inl (c.bitErrors_advance now)
  | receive carrier b =>
    cases hf : c.receiver with
    | none =>
      change (c.receive carrier b).2.bitErrors = _ ∨ _
      rw [receive_of_none hf]
      exact .inl (c.bitErrors_advance _)
    | some f => exact bitErrors_receive hf carrier b
  | readRegister | setDataWaiting | pushFrame | popFrame | uploadFrame | pokeFrame | clearFrame
  | prepareFrame | setRssi | setTime => exact .inl rfl

/-- Statistics that were empty once are those of the latest reports. -/
theorem bitErrors_run (hc : c.bitErrors = .empty) (ops : List Operation) :
    ∃ since, since <:+ ops ∧ (c.run ops).bitErrors = BitErrors.empty.reported since := by
  induction ops using List.reverseRecOn with
  | nil => exact ⟨[], List.suffix_rfl, hc⟩
  | append_singleton ops op ih =>
    obtain ⟨since, hsince, he⟩ := ih
    rw [run_append]
    rcases (c.run ops).bitErrors_after op with hnext | hnext
    · refine ⟨since ++ [op], ?_, ?_⟩
      · exact (List.suffix_append_inj_of_length_eq rfl).2 ⟨hsince, rfl⟩
      · rw [BitErrors.reported_concat, ← he]
        exact hnext
    · exact ⟨[], List.nil_suffix, hnext⟩

/-! ### Frames -/

/-- A frame that had started, and perhaps was refused, ends with this octet: it is complete, or
there is none any more. -/
def EndsFrame (c : Chip G) (carrier : Bool) (b : UInt8) : Prop :=
  let d := (c.receive carrier b).2
  (c.InFrame ∨ c.InPhase .waiting) ∧ (d.InPhase .done ∨ d.InPhase .scanning)

omit [RandomWords G] in
def linkQuality? (c : Chip G) : Option UInt8 := c.buffer.octets.getLast?.map (· &&& 0x7F)

theorem bitErrors_of_ends {carrier : Bool} {b : UInt8} (h : c.EndsFrame carrier b)
    (hc : c.InFrame → carrier = true) : (c.receive carrier b).2.bitErrors = .empty := by
  obtain ⟨hframe, hend⟩ := h
  have hstarted : ∃ f, c.receiver = some f ∧ (f.InFrame ∧ carrier = true ∨ f.phase = .waiting) := by
    rcases hframe with hin | ⟨f, hf, hp⟩
    · obtain ⟨f, hf, hin'⟩ := hin
      exact ⟨f, hf, .inl ⟨hin', hc ⟨f, hf, hin'⟩⟩⟩
    · exact ⟨f, hf, .inr hp⟩
  obtain ⟨f, hf, hstarted⟩ := hstarted
  obtain ⟨phase, hphase, hp⟩ : ∃ phase, (phase = .done ∨ phase = .scanning) ∧
      (c.receive carrier b).2.InPhase phase := by
    rcases hend with h | h
    · exact ⟨_, .inl rfl, h⟩
    · exact ⟨_, .inr rfl, h⟩
  have hw : phase ≠ .waiting := by rcases hphase with rfl | rfl <;> decide
  have ho : phase ≠ .overflow := by rcases hphase with rfl | rfl <;> decide
  have hstep : (f.step ⟨b, carrier, c.registers.autoFcs⟩).1.phase = phase := by
    obtain ⟨g, hg, rfl⟩ := hp
    rcases receiver_of_receive hf hg with rfl | ⟨-, h | h⟩
    · rfl
    · exact absurd h hw
    · exact absurd h ho
  have hclears := ReceiveFramer.clears_of_end hstarted (hstep.symm ▸ hphase)
  rw [receive_of_some hf] at hp ⊢
  exact bitErrors_carryOut hclears hp hw ho

/-- With the carrier the frame is lost, and the bit errors reported of it remain. -/
theorem bit_errors_of_lost_frame (h : c.InFrame) (b : UInt8) :
    (c.receive false b).2.InPhase .scanning ∧ (c.receive false b).2.bitErrors = c.bitErrors := by
  obtain ⟨f, hf, hin⟩ := h
  have hlost : f.loseCarrier =
      ({ f with phase := .scanning }, [.raise .pllUnlock, .raise .rxStart]) := by
    rcases hin with hp | hp | hp <;> simp [ReceiveFramer.loseCarrier, hp]
  rw [receive_of_some hf, ReceiveFramer.step_of_silence hin.ne_done rfl, hlost]
  simp only [carryOut, apply]
  rw [raise_eq, raise_eq]
  exact ⟨⟨_, rfl, rfl⟩, c.bitErrors_advance _⟩

/-- The link quality of a frame is drawn by the statistics that there are with its last octet. -/
theorem linkQuality?_receive (h : c.InPhase .check2) {b : UInt8}
    (hd : (c.receive true b).2.InPhase .done) : (c.receive true b).2.linkQuality? =
      some ((drawCorrelation c.bitErrors.packetErrorRate c.generator).1 &&& 0x7F) := by
  obtain ⟨f, hf, hp⟩ := h
  by_cases hroom : c.buffer.octets.length < FrameBuffer.capacity
  · rw [linkQuality?, octets_receive_check2 hf hp hroom, List.getLast?_concat, Option.map_some,
      value_qualityOctet]
  · have hnow := c.sameFrame_advance c.surroundings.now
    have hfull : ¬(c.advance c.surroundings.now).buffer.octets.length < FrameBuffer.capacity := by
      rwa [hnow.octets_eq]
    rw [snd_receive, hear_check2_of_full (hnow.receiver_eq.trans hf) hp hfull] at hd
    obtain ⟨g, hg, hdone⟩ := hd
    cases hg
    cases hdone

/-- When a frame has ended other than with the carrier lost inside of it, its bit errors are
forgotten: from there on the statistics at any moment, and with them the odds for the link quality
of a frame that is complete then, come from the latest of the reports made since. -/
theorem bit_errors_of_one_frame (c : Chip G) (carrier : Bool) (b : UInt8)
    (h : c.EndsFrame carrier b) (hc : c.InFrame → carrier = true) :
    let d := (c.receive carrier b).2
    d.bitErrors = .empty ∧ ∀ ops, ∃ since, since <:+ ops ∧
      (d.run ops).bitErrors = BitErrors.empty.reported since ∧
      ∀ b', (d.run ops).InPhase .check2 → ((d.run ops).receive true b').2.InPhase .done →
        ((d.run ops).receive true b').2.linkQuality? = some ((drawCorrelation
          (BitErrors.empty.reported since).packetErrorRate (d.run ops).generator).1 &&& 0x7F) := by
  intro d
  have hd : d.bitErrors = .empty := bitErrors_of_ends h hc
  refine ⟨hd, fun ops => ?_⟩
  obtain ⟨since, hsince, he⟩ := bitErrors_run hd ops
  refine ⟨since, hsince, he, fun b' hcheck hdone => ?_⟩
  rw [linkQuality?_receive hcheck hdone, he]

/-- A frame of which bit errors were reported ends with a wrong check octet. -/
theorem bit_errors_of_one_frame_damaged :
    let config : Configuration := ⟨.at86rf231, Vector.replicate 8 0, none, 0⟩
    let before : List Operation := .command Command.rxOn.code ::
      ([0, 0x7A, 3, 0x41].map (.receive true) ++ [.recordBitErrors 0.125 9, .receive true 0x8D])
    let c : Chip Mixer := (build config (Instant.mk 0) (Mixer.mk 0)).run before
    let d := (c.receive true 0x54).2
    c.EndsFrame true 0x54 ∧ (c.InFrame → true = true) ∧ c.bitErrors.count = 9 ∧
      d.lastValid = false ∧ d.bitErrors = .empty ∧
      ∀ ops, ∃ since, since <:+ ops ∧ (d.run ops).bitErrors = BitErrors.empty.reported since := by
  intro config before c d
  have hcheck : c.InPhase .check2 := by decide +kernel
  have hdone : d.InPhase .done := by decide +kernel
  obtain ⟨f, hf, hp⟩ := hcheck
  have hend : c.EndsFrame true 0x54 := ⟨.inl ⟨f, hf, .inr (.inr hp)⟩, .inl hdone⟩
  have h := bit_errors_of_one_frame c true 0x54 hend fun _ => rfl
  refine ⟨hend, fun _ => rfl, by decide +kernel, by decide +kernel, h.1, fun ops => ?_⟩
  obtain ⟨since, hsince, he, -⟩ := h.2 ops
  exact ⟨since, hsince, he⟩

/-- The carrier is lost inside of a frame, and the bit errors reported of it are still there. -/
theorem bit_errors_outlive_lost_frame :
    let config : Configuration := ⟨.at86rf231, Vector.replicate 8 0, none, 0⟩
    let before : List Operation := .command Command.rxOn.code ::
      ([0, 0x7A, 10, 0x41].map (.receive true) ++ [.recordBitErrors 0.01 10])
    let c : Chip Mixer := (build config (Instant.mk 0) (Mixer.mk 0)).run before
    c.Reachable ∧ c.EndsFrame false 0 ∧ (c.receive false 0).2.bitErrors ≠ .empty := by
  intro config before c
  have hpacket : c.InPhase .inPacket := by decide +kernel
  obtain ⟨f, hf, hp⟩ := hpacket
  have hin : c.InFrame := ⟨f, hf, .inl hp⟩
  obtain ⟨hlost, hkept⟩ := bit_errors_of_lost_frame hin 0
  refine ⟨(reachable_build config _ _).run _, ⟨.inl hin, .inr hlost⟩, fun hempty => ?_⟩
  have hcount : c.bitErrors.count = 10 := by decide +kernel
  rw [← hkept, hempty] at hcount
  cases hcount

end Chip

end Transceiver
