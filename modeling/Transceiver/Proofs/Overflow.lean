import Transceiver.Proofs.BufferedFrame

/-!
# Overflow

The framer gives a frame up when the buffer has no room for the next octet. As long as the buffer
mirrors the frame there is room, so that this takes a node that interferes while a frame comes in:
`keepsUp_run`. And once it has happened the medium can do nothing more to what the chip holds, until
the receiver is stopped.
-/

namespace Transceiver

namespace Chip

variable {G : Type} {c : Chip G} [RandomWords G]

/-- While a frame comes in the node writes to the buffer, or changes what the frame ends with. -/
def Disturbs (c : Chip G) (op : Operation) : Prop :=
  c.InFrame ∧ (op.writesFrame = true ∨
    (c.after op).InFrame ∧ (c.after op).registers.autoFcs ≠ c.registers.autoFcs)

structure KeepsUp (c : Chip G) : Prop where
  mirrors : c.InFrame → ∃ l p, c.Mirrors c.registers.autoFcs l p
  not_overflow : ¬c.InPhase .overflow

omit [RandomWords G] in
theorem keepsUp_of_phase {phase : ReceivePhase} (h : c.InPhase phase)
    (hp : phase ∉ [ReceivePhase.inPacket, .check1, .check2, .overflow]) : c.KeepsUp := by
  obtain ⟨f, hf, rfl⟩ := h
  simp only [List.mem_cons, List.not_mem_nil, or_false, not_or] at hp
  constructor
  · rintro ⟨g, hg, h | h | h⟩ <;> cases hf.symm.trans hg <;> simp [h] at hp
  · rintro ⟨g, hg, h⟩
    cases hf.symm.trans hg
    simp [h] at hp

omit [RandomWords G] in
theorem keepsUp_of_mirrors {l : UInt8} {p : List UInt8}
    (h : c.Mirrors c.registers.autoFcs l p) : c.KeepsUp := by
  refine ⟨fun _ => ⟨l, p, h⟩, ?_⟩
  rintro ⟨g, hg, ho⟩
  obtain ⟨f, hf, hin⟩ := h.inFrame
  cases hf.symm.trans hg
  rcases hin with hin | hin | hin <;> cases hin.symm.trans ho

omit [RandomWords G] in
theorem keepsUp_of_none (h : c.receiver = none) : c.KeepsUp := by
  constructor
  · rintro ⟨f, hf, -⟩
    cases h.symm.trans hf
  · rintro ⟨f, hf, -⟩
    cases h.symm.trans hf

/-- The framer gives up only inside a frame. -/
theorem keepsUp_receive (h : c.KeepsUp) (carrier : Bool) (b : UInt8) :
    (c.receive carrier b).2.KeepsUp := by
  cases hf : c.receiver with
  | none => exact keepsUp_of_none (receiver_receive_of_none hf carrier b)
  | some f =>
    by_cases hin : f.InFrame
    · obtain ⟨l, p, hm⟩ := h.mirrors ⟨f, hf, hin⟩
      rcases hm.receive rfl carrier b with ⟨-, hm⟩ | ⟨-, hm⟩ | hm | hm
      · rw [← autoFcs_receive c carrier b] at hm
        exact keepsUp_of_mirrors hm
      · exact keepsUp_of_phase hm.framer (by simp)
      · exact keepsUp_of_phase hm (by simp)
      · exact keepsUp_of_phase hm (by simp)
    · cases ha : c.announced? carrier b with
      | some l =>
        have hm := mirrors_announced ha
        rw [← autoFcs_receive c carrier b] at hm
        exact keepsUp_of_mirrors hm
      | none =>
        rw [announced?, hf, Option.bind_some] at ha
        have hpasses := ReceiveFramer.passesBy_step hin ha
        have hreceiver {g : ReceiveFramer} (hg : (c.receive carrier b).2.receiver = some g) :
            (f.step ⟨b, carrier, c.registers.autoFcs⟩).1 = g :=
          (receiver_of_receive hf hg).resolve_right fun hstored => by
            obtain ⟨⟨x, hx, hquiet⟩, -⟩ := hstored
            exact hquiet (hpasses.quiet x hx)
        constructor
        · rintro ⟨g, hg, hgin⟩
          exact absurd (hreceiver hg ▸ hgin) hpasses.outside
        · rintro ⟨g, hg, hgo⟩
          exact h.not_overflow ⟨f, hf, hpasses.overflow (hreceiver hg ▸ hgo)⟩

theorem keepsUp_after (hc : c.Reachable) (h : c.KeepsUp) {op : Operation} (hop : ¬c.Disturbs op) :
    (c.after op).KeepsUp := by
  cases hheard : op.heard? with
  | some heard =>
    cases op with
    | receive carrier b => exact keepsUp_receive h carrier b
    | _ => cases hheard
  | none =>
    have hreceiver {g : ReceiveFramer} (hg : (c.after op).receiver = some g)
        (hp : g.phase ≠ .scanning) : c.receiver = some g := (step_after hheard).receiver_eq hg hp
    constructor
    · rintro ⟨g, hg, hin⟩
      have hf := hreceiver hg (by rcases hin with hp | hp | hp <;> simp [hp])
      have hon : (c.after op).receiver ≠ none := hg ▸ Option.some_ne_none g
      have hw : op.writesFrame = false :=
        eq_false_of_ne_true fun hw => hop ⟨⟨g, hf, hin⟩, .inl hw⟩
      have ha : (c.after op).registers.autoFcs = c.registers.autoFcs :=
        Decidable.not_not.1 fun ha => hop ⟨⟨g, hf, hin⟩, .inr ⟨⟨g, hg, hin⟩, ha⟩⟩
      obtain ⟨l, p, hm⟩ := h.mirrors ⟨g, hf, hin⟩
      rw [ha]
      exact ⟨l, p, hm.congr (sameFrame_after hc hf hheard hw hon) (received_after hf hheard hw hon)⟩
    · rintro ⟨g, hg, ho⟩
      exact h.not_overflow ⟨g, hreceiver hg (by simp [ho]), ho⟩

theorem keepsUp_run (hc : c.Reachable) (h : c.KeepsUp) {ops : List Operation}
    (hops : ∀ i (hi : i < ops.length), ¬(c.run (ops.take i)).Disturbs ops[i]) :
    (c.run ops).KeepsUp := by
  induction ops generalizing c with
  | nil => exact h
  | cons op ops ih =>
    have hnext := keepsUp_after hc h (hops 0 (Nat.succ_pos _))
    exact ih (hc.after op) hnext fun i hi => hops (i + 1) (Nat.succ_lt_succ hi)

/-! ### After an overflow -/

/-- The medium does nothing to a chip whose framer has given up, other than that time passes. -/
theorem receive_of_overflow {f : ReceiveFramer} (hf : c.receiver = some f)
    (hp : f.phase = .overflow) (carrier : Bool) (b : UInt8) :
    (c.receive carrier b).2 = { c.advance c.surroundings.now with receiver := some f } := by
  have hd : f.phase ≠ .done := by simp [hp]
  have hstep : f.step ⟨b, carrier, c.registers.autoFcs⟩ = (f, ⟨b, []⟩) := by
    cases carrier with
    | false =>
      rw [ReceiveFramer.step_of_silence hd rfl]
      simp only [ReceiveFramer.loseCarrier, hp]
    | true =>
      rw [ReceiveFramer.step_of_carrier hd rfl]
      simp only [ReceiveFramer.hear, hp]
  rw [receive_of_some hf, hstep]
  rfl

theorem overflow_after (h : c.InPhase .overflow) {op : Operation}
    (hon : (c.after op).isReceiving = true) : (c.after op).InPhase .overflow := by
  obtain ⟨f, hf, hp⟩ := h
  have hon : (c.after op).receiver ≠ none := Option.isSome_iff_ne_none.1 hon
  cases hop : op.heard? with
  | none => exact ⟨f, (step_after hop).receiver_kept hf hon, hp⟩
  | some heard =>
    cases op with
    | receive carrier b =>
      refine ⟨f, ?_, hp⟩
      change (c.receive carrier b).2.receiver = some f
      rw [receive_of_overflow hf hp]
    | _ => cases hop

theorem overflow_run (h : c.InPhase .overflow) {ops : List Operation}
    (hon : c.Throughout (fun d => d.isReceiving = true) ops) : (c.run ops).InPhase .overflow := by
  induction ops generalizing c with
  | nil => exact h
  | cons op ops ih => exact ih (overflow_after h hon.next.now) hon.next

/-- What the chip holds of frames and events is as it was. -/
theorem held_of_overflow (h : c.InPhase .overflow) (carrier : Bool) (b : UInt8) :
    let d := (c.receive carrier b).2
    d.buffer = c.buffer ∧ d.registers.get .irqStatus = c.registers.get .irqStatus ∧
      d.sequence = c.sequence ∧ d.owed = c.owed := by
  obtain ⟨f, hf, hp⟩ := h
  have hnow := c.activity_advance c.surroundings.now
  have hbuffer : (c.advance c.surroundings.now).buffer = c.buffer := by
    rw [advance_eq]
  rw [receive_of_overflow hf hp]
  exact ⟨hbuffer, get_advance (by decide) _, (c.sameFrame_advance _).sequence_eq,
    congrArg Activity.owed hnow⟩

/-! ### The buffer and the air -/

/-- What the buffer of a chip with a frame holds, if the node has let the frame be since its length
octet. -/
theorem buffers_since {config : Configuration} {now : Instant} {g : G}
    {before since : List Operation} {b l : UInt8}
    (h : ((build config now g).run before).announced? true b = some l)
    (hw : ∀ op ∈ since, op.writesFrame = false ∧ op.written? .tstRxLength = none) :
    let opened := (((build config now g).run before).receive true b).2
    opened.Throughout HasFrame since →
    opened.Throughout (fun d => d.registers.autoFcs = opened.registers.autoFcs) since →
    (opened.run since).Buffers opened.registers.autoFcs l (octetsHeard since) ∧
      (opened.run since).registers.get .tstRxLength = l := by
  intro opened hframe hfcs
  have hreachable : opened.Reachable :=
    ((reachable_build config now g).run before).after (.receive true b)
  have hm : opened.Mirrors opened.registers.autoFcs l [] := by
    rw [autoFcs_receive]
    exact mirrors_announced h
  refine ⟨Buffers.run (.inl hm) hreachable (fun op hop => (hw op hop).1) hfcs hframe, ?_⟩
  rw [length_run (fun op hop => (hw op hop).2) hframe]
  have hlength := length_after ((build config now g).run before) (.receive true b)
  rw [lengthGiven?, h] at hlength
  exact hlength

/-- A frame that a chip has, coming in or just complete, goes back to the length octet that
announced it. If the node has not written to the buffer or to the length since, and the automatic
check octets have not been switched on or off, the buffer is marked as received and holds that
length, as its register does, with the octets of the frame so far behind it. Of a complete frame
these are all of its octets, but for the link quality in place of the last one if the check octets
were looked at.

As long as nothing disturbs a frame coming in the framer never gives up. Once it has, no octet on
the medium changes the buffer, the interrupts, the sequence number or what is owed, until the
receiver is stopped. -/
theorem buffer_mirrors_air (config : Configuration) (now : Instant) (g : G)
    (ops : List Operation) :
    let start := build config now g
    let c := start.run ops
    (c.HasFrame → ∃ before b since l, ops = before ++ .receive true b :: since ∧
      (start.run before).announced? true b = some l ∧
      let opened := ((start.run before).receive true b).2
      let octets := octetsHeard since
      opened.Throughout HasFrame since ∧
      ((∀ op ∈ since, op.writesFrame = false ∧ op.written? .tstRxLength = none) →
        opened.Throughout (fun d => d.registers.autoFcs = opened.registers.autoFcs) since →
        c.buffer.received = true ∧ c.registers.get .tstRxLength = l ∧
        (c.InFrame → c.buffer.octets = l :: octets) ∧
        (c.InPhase .done → octets.length = l.toNat ∧
          match OctetStream.verdict opened.registers.autoFcs l.toNat octets with
          | none => c.buffer.octets = l :: octets
          | some valid => ∃ q < 0x80,
              c.buffer.octets = l :: octets.dropLast ++ [(if valid then 0x80 else 0) ||| q]))) ∧
    ((∀ i (hi : i < ops.length), ¬(start.run (ops.take i)).Disturbs ops[i]) →
      ¬c.InPhase .overflow) ∧
    (c.InPhase .overflow → ∀ more, c.Throughout (fun d => d.isReceiving = true) more →
      let d := c.run more
      d.InPhase .overflow ∧ ∀ carrier b,
        let e := (d.receive carrier b).2
        e.buffer = d.buffer ∧ e.registers.get .irqStatus = d.registers.get .irqStatus ∧
          e.sequence = d.sequence ∧ e.owed = d.owed) := by
  intro start c
  refine ⟨fun hframe => ?_, fun hops => ?_, fun ho more hon => ?_⟩
  · have hnone : ¬start.HasFrame := by
      rw [hasFrame_iff]
      rintro ⟨f, hf, -⟩
      cases hf
    obtain ⟨before, b, since, l, hsplit, hl, hsince⟩ := receiving_since hnone hframe
    refine ⟨before, b, since, l, hsplit, hl, hsince, fun hw hfcs => ?_⟩
    obtain ⟨hbuffers, hlength⟩ := buffers_since hl hw hsince hfcs
    have hc : (((start.run before).receive true b).2).run since = c := by
      rw [show c = start.run ops from rfl, hsplit, run_append]
      rfl
    rw [hc] at hbuffers hlength
    rcases hbuffers with hm | hd
    · refine ⟨hm.received_eq, hlength, fun _ => hm.octets_eq, ?_⟩
      rintro ⟨g, hg, hp⟩
      obtain ⟨f, hf, hin⟩ := hm.inFrame
      cases hf.symm.trans hg
      exact absurd hp hin.ne_done
    · refine ⟨hd.received_eq, hlength, ?_, fun _ => ⟨hd.length_eq, hd.octets_eq⟩⟩
      rintro ⟨g, hg, hin⟩
      obtain ⟨f, hf, hp⟩ := hd.framer
      cases hf.symm.trans hg
      exact absurd hp hin.ne_done
  · exact (keepsUp_run (reachable_build config now g) (keepsUp_of_none rfl) hops).not_overflow
  · have hd := overflow_run ho hon
    exact ⟨hd, held_of_overflow hd⟩

/-- A node that writes to the last cell while a frame comes in leaves it no room. -/
example :
    let config : Configuration := ⟨.at86rf231, Vector.replicate 8 0, none, 0⟩
    let ops : List Operation := .command Command.rxOn.code ::
      (syncHeader ++ [5, 0x01]).map (.receive true) ++ [.pokeFrame 127 0, .receive true 0x08]
    ((build config (Instant.mk 0) (Mixer.mk 0)).run ops).receiver.map (·.phase) =
      some .overflow := by
  decide +kernel

end Chip

end Transceiver
