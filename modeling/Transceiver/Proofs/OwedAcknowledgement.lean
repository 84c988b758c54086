import Mathlib.Tactic.ByContra
import Transceiver.Proofs.SessionRecord
import Transceiver.Proofs.TransmitFraming

/-!
# Owed acknowledgements

An acknowledgement is owed from the check octets of the frame it answers until its own sequence
number has been sent. In between the chip waits for the frame to pass, and then sends. `Fresh` says
that nothing is owed at any other time. Whoever interferes ends the obligation at once: what is
still owed is what the frame called for, and the only sessions in question are the one in which the
frame came and the one to which the chip turns around from there.
-/

namespace Transceiver

namespace Activity

variable {a b : Activity}

/-- The frame to acknowledge was right and is just over. -/
def Waiting (a : Activity) : Prop :=
  a.transmitter = none ∧ a.lastValid = true ∧ ∃ f, a.receiver = some f ∧ f.phase = .done

def Sending (a : Activity) : Prop :=
  a.receiver = none ∧ ∃ f, a.transmitter = some f ∧ f.SequencePending

def Fresh (a : Activity) : Prop := a.owed ≠ none → a.Waiting ∨ a.Sending

/-- The chip has turned around from receiving to sending what it owes. -/
def TurnsAround (a b : Activity) : Prop :=
  b.receiver = none ∧ b.transmitter = some .start ∧ b.owed = a.owed ∧
    b.marks = a.marks ++ [.closed .reception, .opened .transmission]

def Shifts (a b : Activity) : Prop := ∃ s code, b = { a with state := s, status := code }

/-! ### Steps without an octet on the medium -/

theorem shifts_refl (a : Activity) : a.Shifts a := ⟨a.state, a.status, rfl⟩

theorem shifts_enter (a : Activity) (s : OperatingState) : a.Shifts (a.enter s) := ⟨s, s.code, rfl⟩

theorem shifts_sleepPin (a : Activity) (level : Bool) : a.Shifts (a.sleepPin level) := by
  unfold Activity.sleepPin
  split
  · exact a.shifts_enter _
  · exact a.shifts_refl

theorem execute_owed_or_shifts (a : Activity) (command : Command) :
    (a.execute command).owed = none ∨ a.Shifts (a.execute command) := by
  cases command with
  | nop | forcePllOn | txOn => exact .inr (a.shifts_enter _)
  | _ => exact .inl rfl

theorem Shifts.owed_eq (h : a.Shifts b) : b.owed = a.owed := by
  obtain ⟨s, code, rfl⟩ := h
  rfl

theorem Shifts.marks_eq (h : a.Shifts b) : b.marks = a.marks := by
  obtain ⟨s, code, rfl⟩ := h
  rfl

theorem Shifts.trans {d : Activity} (h : a.Shifts b) (hb : b.Shifts d) : a.Shifts d := by
  obtain ⟨s, code, rfl⟩ := h
  obtain ⟨s', code', rfl⟩ := hb
  exact ⟨s', code', rfl⟩

theorem Waiting.shifts (h : a.Waiting) (hb : a.Shifts b) : b.Waiting := by
  obtain ⟨s, code, rfl⟩ := hb
  exact h

theorem Sending.shifts (h : a.Sending) (hb : a.Shifts b) :
    b.Sending ∧ b.owed = a.owed ∧ b.marks = a.marks := by
  obtain ⟨s, code, rfl⟩ := hb
  exact ⟨h, rfl, rfl⟩

/-- Only an octet on the medium can bring up an obligation. -/
theorem Step.owed_eq_none (h : a.Step b) (ho : a.owed = none) : b.owed = none := by
  cases h with
  | rests => exact ho
  | executes command =>
    rcases a.execute_owed_or_shifts command with h | h
    · exact h
    · exact h.owed_eq.trans ho
  | seesSleepPin level => exact (a.shifts_sleepPin level).owed_eq.trans ho
  | resets => rfl
  | transmits i =>
    rcases a.transmit_cases i with ⟨ht, he⟩ | ⟨f, ht, ⟨hf, he⟩ | ⟨hf, he⟩⟩ <;> rw [he]
    · exact ho
    · rfl
    · simp only [ho, ite_self]

/-- Other than by its end, nothing happens to an obligation before the chip turns around. -/
theorem Waiting.step (h : a.Waiting) (hs : a.Step b) : b.owed = none ∨ a.Shifts b := by
  cases hs with
  | rests => exact .inr a.shifts_refl
  | executes command => exact a.execute_owed_or_shifts command
  | seesSleepPin level => exact .inr (a.shifts_sleepPin level)
  | resets => exact .inl rfl
  | transmits i =>
    rw [transmit_of_none h.1]
    exact .inr a.shifts_refl

theorem Sending.step (h : a.Sending) (hf : a.Framed) (hs : a.Step b) : b.owed = none ∨
    b.Sending ∧ b.owed = a.owed ∧ b.marks = a.marks := by
  by_cases ho : a.owed = none
  · exact .inl (hs.owed_eq_none ho)
  cases hs with
  | rests => exact .inr ⟨h, rfl, rfl⟩
  | executes command =>
    rcases a.execute_owed_or_shifts command with hc | hc
    · exact .inl hc
    · exact .inr (h.shifts hc)
  | seesSleepPin level => exact .inr (h.shifts (a.shifts_sleepPin level))
  | resets => exact .inl rfl
  | transmits i hi =>
    obtain ⟨hr, f, ht, hp⟩ := h
    have hi : i.owed.isSome := by
      rw [hi]
      exact Option.isSome_iff_ne_none.2 ho
    cases hm : (f.step i).2.finished with
    | true =>
      rw [transmit_of_last ht hm]
      exact .inl rfl
    | false =>
      rw [transmit_of_more ht hm]
      rcases hp.step i (hf f ht) hi with hack | ⟨-, hp'⟩
      · exact .inl (if_pos hack)
      · by_cases hack : (f.step i).2.acknowledged = true
        · exact .inl (if_pos hack)
        · exact .inr ⟨⟨hr, _, rfl, hp'⟩, if_neg hack, rfl⟩

/-! ### Octets on the medium -/

/-- The next octet on the medium makes a waiting chip turn around, whatever it is. -/
theorem Waiting.hear (h : a.Waiting) (ho : a.owed ≠ none) (hh : a.Heard b) : a.TurnsAround b := by
  obtain ⟨ht, hv, f, hr, hp⟩ := h
  cases hh with
  | deaf hn => cases hr.symm.trans hn
  | hears hr' hp' =>
    cases hr.symm.trans hr'
    exact absurd hp hp'
  | schedules hr' hp' =>
    cases hr.symm.trans hr'
    cases hp.symm.trans hp'
  | turnsAround =>
    have hc : a.closeReception.transmitter = none := ht
    rw [openTransmission_of_none hc, closeReception_of_some hr]
    exact ⟨rfl, rfl, rfl, List.append_assoc ..⟩
  | passes _ _ hn => exact absurd ⟨Option.isSome_iff_ne_none.2 ho, hv⟩ hn

theorem eq_of_heard_of_none (hr : a.receiver = none) (hh : a.Heard b) : b = a := by
  cases hh with
  | deaf => rfl
  | hears hr' | schedules hr' | turnsAround hr' | passes hr' => cases hr.symm.trans hr'

theorem TurnsAround.sending (h : a.TurnsAround b) : b.Sending :=
  ⟨h.1, .start, h.2.1, TransmitFramer.sequencePending_start⟩

/-! ### Obligations are fresh -/

theorem fresh_of_none (h : a.owed = none) : a.Fresh := fun ho => absurd h ho

theorem Fresh.step (h : a.Fresh) (hf : a.Framed) (hs : a.Step b) : b.Fresh := by
  intro ho
  have hao : a.owed ≠ none := fun hn => ho (hs.owed_eq_none hn)
  rcases h hao with hw | hsend
  · rcases hw.step hs with hn | hb
    · exact absurd hn ho
    · exact .inl (hw.shifts hb)
  · rcases hsend.step hf hs with hn | ⟨hb, -⟩
    · exact absurd hn ho
    · exact .inr hb

theorem Heard.waiting (hh : a.Heard b) (hx : a.Orderly) (ho : a.owed = none) (hb : b.owed ≠ none) :
    b.Waiting := by
  cases hh with
  | deaf | passes => exact absurd ho hb
  | hears hr hp h =>
    obtain ⟨f, o, v, ho', rfl⟩ := h
    rcases ho' with ho' | ho'
    · exact absurd ho' hb
    · exact absurd (ho'.trans ho) hb
  | schedules hr hp hd => exact ⟨hx.transmitter_eq_none hr, rfl, _, rfl, hd⟩
  | turnsAround => exact absurd ho hb

theorem Fresh.hear (h : a.Fresh) (hx : a.Orderly) (hh : a.Heard b) : b.Fresh := by
  intro hb
  by_cases ho : a.owed = none
  · exact .inl (hh.waiting hx ho hb)
  · rcases h ho with hw | hs
    · exact .inr (hw.hear ho hh).sending
    · rw [eq_of_heard_of_none hs.1 hh]
      exact .inr hs

end Activity

namespace Chip

variable {G : Type} {c : Chip G}

theorem isReceiving_of_waiting (h : c.activity.Waiting) : c.isReceiving = true := by
  obtain ⟨-, -, f, hf, -⟩ := h
  have hf : c.receiver = some f := hf
  simp [isReceiving, hf]

theorem owed_of_command {k : Command} (hk : k ∈ [Command.txStart, .txAretOn]) :
    (c.command k.code).owed = none := by
  have hexecute : (c.command k.code).activity = c.activity.execute k := by
    rw [activity_command, Command.ofCode?_code]
    rfl
  have howed : (c.command k.code).owed = (c.activity.execute k).owed :=
    congrArg Activity.owed hexecute
  rw [howed]
  simp only [List.mem_cons, List.not_mem_nil, or_false] at hk
  rcases hk with rfl | rfl
  · rfl
  · rfl

variable [RandomWords G]

theorem Reachable.fresh (h : Reachable c) : c.activity.Fresh :=
  h.activity_induction (Activity.fresh_of_none rfl) (fun _ _ hd hs h => h.step hd.framed hs)
    fun _ _ hd hh h => h.hear hd.orderly hh

def Throughout (c : Chip G) (P : Chip G → Prop) (ops : List Operation) : Prop :=
  ∀ l, l <+: ops → P (c.run l)

theorem Throughout.now {P : Chip G → Prop} {ops : List Operation} (h : c.Throughout P ops) : P c :=
  h [] List.nil_prefix

theorem Throughout.next {P : Chip G → Prop} {op : Operation} {ops : List Operation}
    (h : c.Throughout P (op :: ops)) : (c.after op).Throughout P ops :=
  fun l hl => h (op :: l) (List.cons_prefix_cons.2 ⟨rfl, hl⟩)

theorem throughout_nil {P : Chip G → Prop} (hc : P c) : c.Throughout P [] := by
  intro l hl
  rw [List.prefix_nil.1 hl]
  exact hc

theorem throughout_cons {P : Chip G → Prop} {op : Operation} {ops : List Operation} (hc : P c)
    (h : (c.after op).Throughout P ops) : c.Throughout P (op :: ops) := by
  intro l hl
  cases l with
  | nil => exact hc
  | cons x r =>
    obtain ⟨rfl, hr⟩ := List.cons_prefix_cons.1 hl
    exact h r hr

theorem throughout_cons_iff {P : Chip G → Prop} {op : Operation} {ops : List Operation} :
    c.Throughout P (op :: ops) ↔ P c ∧ (c.after op).Throughout P ops :=
  ⟨fun h => ⟨h.now, h.next⟩, fun h => throughout_cons h.1 h.2⟩

instance decidableThroughout (P : Chip G → Prop) [DecidablePred P] (c : Chip G) :
    (ops : List Operation) → Decidable (c.Throughout P ops)
  | [] => decidable_of_iff (P c) ⟨throughout_nil, Throughout.now⟩
  | op :: ops =>
    have := decidableThroughout P (c.after op) ops
    decidable_of_iff _ throughout_cons_iff.symm

theorem owed_of_owed_run {ops : List Operation} (hops : ∀ op ∈ ops, op.heard? = none)
    (ho : (c.run ops).owed ≠ none) : c.owed ≠ none := by
  induction ops generalizing c with
  | nil => exact ho
  | cons op ops ih =>
    have hafter := ih (fun x hx => hops x (List.mem_cons_of_mem op hx)) ho
    exact fun hn => hafter ((step_after (hops op List.mem_cons_self)).owed_eq_none hn)

theorem run_of_sending (h : Reachable c) (hs : c.activity.Sending) {ops : List Operation}
    (ho : c.Throughout (fun d => d.owed ≠ none) ops) :
    (c.run ops).owed = c.owed ∧ (c.run ops).sessionMarks = c.sessionMarks := by
  induction ops generalizing c with
  | nil => exact ⟨rfl, rfl⟩
  | cons op ops ih =>
    have hnext : (c.after op).activity.Sending ∧ (c.after op).owed = c.owed ∧
        (c.after op).sessionMarks = c.sessionMarks := by
      rcases step_or_heard_after c op with hstep | hheard
      · rcases hs.step h.framed hstep with hn | hnext
        · exact absurd hn ho.next.now
        · exact hnext
      · have heq := Activity.eq_of_heard_of_none hs.1 hheard
        exact ⟨heq ▸ hs, congrArg Activity.owed heq, congrArg Activity.marks heq⟩
    obtain ⟨hs', howed, hmarks⟩ := hnext
    obtain ⟨hro, hrm⟩ := ih (h.after op) hs' ho.next
    exact ⟨hro.trans howed, hrm.trans hmarks⟩

theorem run_of_waiting (hw : c.activity.Waiting) {ops : List Operation}
    (hops : ∀ op ∈ ops, op.heard? = none) (ho : (c.run ops).owed ≠ none) :
    c.activity.Shifts (c.run ops).activity := by
  induction ops generalizing c with
  | nil => exact c.activity.shifts_refl
  | cons op ops ih =>
    have hrest : ∀ x ∈ ops, x.heard? = none := fun x hx => hops x (List.mem_cons_of_mem op hx)
    have hafter : (c.after op).owed ≠ none := owed_of_owed_run hrest ho
    rcases hw.step (step_after (hops op List.mem_cons_self)) with hn | hb
    · exact absurd hn hafter
    · exact hb.trans (ih (hw.shifts hb) hrest ho)

theorem run_of_waiting_owed (h : Reachable c) (hw : c.activity.Waiting) {ops : List Operation}
    (ho : c.Throughout (fun d => d.owed ≠ none) ops) :
    (c.run ops).owed = c.owed ∧ ((c.run ops).sessionMarks = c.sessionMarks ∨
      (c.run ops).sessionMarks =
        c.sessionMarks ++ [.closed .reception, .opened .transmission]) := by
  induction ops generalizing c with
  | nil => exact ⟨rfl, .inl rfl⟩
  | cons op ops ih =>
    rw [run_cons]
    rcases step_or_heard_after c op with hstep | hheard
    · rcases hw.step hstep with hn | hb
      · exact absurd hn ho.next.now
      · obtain ⟨hro, hrm⟩ := ih (h.after op) (hw.shifts hb) ho.next
        have hm : (c.after op).sessionMarks = c.sessionMarks := hb.marks_eq
        rw [hm] at hrm
        exact ⟨hro.trans hb.owed_eq, hrm⟩
    · have hturn := hw.hear ho.now hheard
      obtain ⟨hro, hrm⟩ := run_of_sending (h.after op) hturn.sending ho.next
      obtain ⟨-, -, howed, hmarks⟩ := hturn
      exact ⟨hro.trans howed, .inr (hrm.trans hmarks)⟩

/-- As long as something is owed it is the same, and no session opens or closes but for the turn. -/
theorem run_of_owed (h : Reachable c) {ops : List Operation}
    (ho : c.Throughout (fun d => d.owed ≠ none) ops) :
    (c.run ops).owed = c.owed ∧ ((c.run ops).sessionMarks = c.sessionMarks ∨
      c.isReceiving ∧ (c.run ops).sessionMarks =
        c.sessionMarks ++ [.closed .reception, .opened .transmission]) := by
  rcases h.fresh ho.now with hw | hs
  · obtain ⟨hro, hrm⟩ := run_of_waiting_owed h hw ho
    exact ⟨hro, hrm.imp_right fun hrm => ⟨isReceiving_of_waiting hw, hrm⟩⟩
  · obtain ⟨hro, hrm⟩ := run_of_sending h hs ho
    exact ⟨hro, .inl hrm⟩

theorem owed_of_reception_opens (h : Reachable c) {op : Operation} (hr : c.receiver = none)
    (hop : (c.after op).receiver ≠ none) : (c.after op).owed = none := by
  by_contra hb
  rcases step_or_heard_after c op with hstep | hheard
  · have ho : c.owed ≠ none := fun hn => hb (hstep.owed_eq_none hn)
    rcases h.fresh ho with ⟨-, -, f, hf, -⟩ | hs
    · cases hr.symm.trans hf
    · rcases hs.step h.framed hstep with hn | ⟨hs', -⟩
      · exact hb hn
      · exact hop hs'.1
  · have heq := congrArg Activity.receiver (Activity.eq_of_heard_of_none hr hheard)
    exact hop (heq.trans hr)

theorem owed_of_transmission_opens (h : Reachable c) {op : Operation} (hheard : op.heard? = none)
    (ht : c.transmitter = none) (hop : (c.after op).transmitter ≠ none) :
    (c.after op).owed = none := by
  by_contra hb
  have hstep := step_after (c := c) hheard
  have ho : c.owed ≠ none := fun hn => hb (hstep.owed_eq_none hn)
  rcases h.fresh ho with hw | ⟨-, f, hf, -⟩
  · rcases hw.step hstep with hn | hs
    · exact hb hn
    · exact hop (hw.shifts hs).1
  · cases ht.symm.trans hf

/-- Nothing comes to be owed while a transmission lasts. -/
theorem owed_of_transmitting (h : Reachable c) (ho : c.owed = none) {ops : List Operation}
    (ht : c.Throughout (fun d => d.isTransmitting = true) ops) : (c.run ops).owed = none := by
  induction ops generalizing c with
  | nil => exact ho
  | cons op ops ih =>
    refine ih (h.after op) ?_ ht.next
    rcases step_or_heard_after c op with hstep | hheard
    · exact hstep.owed_eq_none ho
    · -- A chip that transmits is deaf.
      obtain ⟨f, hf⟩ := Option.isSome_iff_exists.1 ht.now
      have hr : c.receiver = none := h.orderly.receiver_eq_none hf
      exact (congrArg Activity.owed (Activity.eq_of_heard_of_none hr hheard)).trans ho

/-- An obligation that an octet brings up and that lasts until the next octet makes the chip turn
around then. -/
theorem turnsAround_of_scheduled (h : Reachable c) (carrier : Bool) (b : UInt8)
    {ops : List Operation} (hops : ∀ op ∈ ops, op.heard? = none) (hn : c.owed = none)
    (ho : ((c.receive carrier b).2.run ops).owed ≠ none) (carrier' : Bool) (b' : UInt8) :
    (c.receive carrier b).2.activity.TurnsAround
      (((c.receive carrier b).2.run ops).receive carrier' b').2.activity := by
  have hw : (c.receive carrier b).2.activity.Waiting :=
    (heard_receive c carrier b).waiting h.orderly hn (owed_of_owed_run hops ho)
  have hs := run_of_waiting hw hops ho
  obtain ⟨hr, ht, howed, hmarks⟩ :=
    (hw.shifts hs).hear ho (heard_receive ((c.receive carrier b).2.run ops) carrier' b')
  exact ⟨hr, ht, howed.trans hs.owed_eq, hs.marks_eq ▸ hmarks⟩

/-- An acknowledgement that is owed never goes stale. It is owed while the chip waits for a right
frame to pass, or before its sequence number is sent, and at no other time: not when a reception
opens or another frame comes in, nor when the node starts the transmitter. As long as it is owed
nothing happens to the sessions but the turn from the one in which the frame came to the one that
answers it, and the first octet behind the frame brings that turn about if it is still owed. -/
theorem owed_never_stale (config : Configuration) (now : Instant) (g : G) (ops : List Operation) :
    let c := (build config now g).run ops
    (c.owed ≠ none →
      (c.transmitter = none ∧ c.lastValid = true ∧ ∃ f, c.receiver = some f ∧ f.phase = .done) ∨
      (c.receiver = none ∧ ∃ f, c.transmitter = some f ∧
        ((f.phase = .preamble ∨ f.phase = .delimiter ∨ f.phase = .length) ∨
          f.phase = .inPacket ∧ f.isAck = true ∧ f.counter ≤ 2))) ∧
    (∀ op, c.receiver = none → (c.after op).receiver ≠ none → (c.after op).owed = none) ∧
    (∀ f, c.receiver = some f → f.phase ≠ .done → c.owed = none) ∧
    (∀ op, op.heard? = none → c.transmitter = none → (c.after op).transmitter ≠ none →
      (c.after op).owed = none) ∧
    (∀ k ∈ [Command.txStart, .txAretOn], (c.command k.code).owed = none) ∧
    (∀ more, c.owed = none → c.Throughout (fun d => d.isTransmitting = true) more →
      (c.run more).owed = none) ∧
    (∀ more, c.Throughout (fun d => d.owed ≠ none) more →
      (c.run more).owed = c.owed ∧ ((c.run more).sessionMarks = c.sessionMarks ∨
        c.isReceiving ∧ (c.run more).sessionMarks =
          c.sessionMarks ++ [.closed .reception, .opened .transmission])) ∧
    ∀ carrier b more, c.owed = none → (∀ op ∈ more, op.heard? = none) →
      let scheduled := (c.receive carrier b).2
      (scheduled.run more).owed ≠ none → ∀ carrier' b',
        let d := ((scheduled.run more).receive carrier' b').2
        d.receiver = none ∧ d.transmitter = some .start ∧ d.owed = scheduled.owed ∧
          d.sessionMarks =
            scheduled.sessionMarks ++ [.closed .reception, .opened .transmission] := by
  intro c
  have h : Reachable c := (reachable_build config now g).run ops
  refine ⟨h.fresh, fun op => owed_of_reception_opens h, ?_, fun op => owed_of_transmission_opens h,
    fun k => owed_of_command, fun more ho => owed_of_transmitting h ho, fun more => run_of_owed h,
    ?_⟩
  · intro f hf hp
    by_contra ho
    rcases h.fresh ho with ⟨-, -, g, hg, hd⟩ | ⟨hn, -⟩
    · cases hf.symm.trans hg
      exact hp hd
    · cases hf.symm.trans hn
  · intro carrier b more hn hmore scheduled ho carrier' b'
    exact turnsAround_of_scheduled h carrier b hmore hn ho carrier' b'

end Chip

end Transceiver
