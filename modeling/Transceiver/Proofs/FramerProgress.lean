import Mathlib.Data.List.Induction
import Transceiver.Proofs.AcknowledgedDestination
import Transceiver.Proofs.RegisterSettings

/-!
# How the framer comes to be where it is

A framer inside a frame, or at the end of one, has come there from the length octet of that frame,
one octet after the other. By `hasFrame_after` there is no other way in, and so `receiving_since`
finds that octet in the history of the chip.
-/

namespace Transceiver

namespace Activity

variable {a b : Activity}

/-- Other than by an octet on the medium, a framer is taken away or left alone. -/
theorem Step.receiver_kept (h : a.Step b) {f : ReceiveFramer} (hf : a.receiver = some f)
    (hb : b.receiver ≠ none) : b.receiver = some f := by
  cases h with
  | rests => exact hf
  | executes command =>
    cases command with
    | nop | forcePllOn | txOn => exact hf
    | txStart | forceTrxOff | trxOff | txAretOn => exact absurd rfl hb
    | rxOn | rxAackOn =>
      change some (a.receiver.getD .start) = some f
      rw [hf]
      rfl
  | seesSleepPin level =>
    obtain ⟨s, code, he⟩ := a.shifts_sleepPin level
    rw [he]
    exact hf
  | resets => exact absurd rfl hb
  | transmits i =>
    rcases a.transmit_cases i with ⟨ht, he⟩ | ⟨g, ht, ⟨hg, he⟩ | ⟨hg, he⟩⟩ <;> rw [he] <;>
      exact hf

end Activity

namespace Chip

variable {G : Type} {c d : Chip G}

def InPhase (c : Chip G) (phase : ReceivePhase) : Prop :=
  ∃ f, c.receiver = some f ∧ f.phase = phase

/-- A frame is coming in, or is complete with the octet before. -/
def HasFrame (c : Chip G) : Prop := c.InFrame ∨ c.InPhase .done

theorem hasFrame_iff : c.HasFrame ↔ ∃ f, c.receiver = some f ∧ (f.InFrame ∨ f.phase = .done) := by
  simp only [HasFrame, InFrame, InPhase, ← exists_or, and_or_left]

variable [RandomWords G]

theorem Throughout.concat {P : Chip G → Prop} {ops : List Operation} {op : Operation}
    (h : c.Throughout P ops) (hop : P ((c.run ops).after op)) : c.Throughout P (ops ++ [op]) := by
  intro l hl
  rcases List.prefix_concat_iff.1 hl with rfl | hl
  · rw [run_append]
    exact hop
  · exact h l hl

/-- A framer is where an octet has taken it, unless it was made to give the frame up or to pass over
it. -/
theorem receiver_of_receive {f g : ReceiveFramer} (hf : c.receiver = some f) {carrier : Bool}
    {b : UInt8} (h : (c.receive carrier b).2.receiver = some g) :
    let r := f.step ⟨b, carrier, c.registers.autoFcs⟩
    r.1 = g ∨ (∃ x ∈ r.2.effects, ¬x.IsQuiet) ∧ (g.phase = .waiting ∨ g.phase = .overflow) := by
  rw [receive_of_some hf] at h
  exact (receiver_of_carryOut h).imp_left Option.some.inj

/-- A chip that has a frame behind an octet has it as the framer does. -/
theorem hasFrame_receive {f : ReceiveFramer} (hf : c.receiver = some f) {carrier : Bool} {b : UInt8}
    (h : (c.receive carrier b).2.HasFrame) :
    let g := (f.step ⟨b, carrier, c.registers.autoFcs⟩).1
    g.InFrame ∨ g.phase = .done := by
  obtain ⟨g, hg, hframe⟩ := hasFrame_iff.1 h
  rcases receiver_of_receive hf hg with rfl | ⟨-, hphase⟩
  · exact hframe
  · rcases hframe with (hp | hp | hp) | hp <;> simp [hp] at hphase

/-- A chip that has a frame had it before, or the frame has just been announced. -/
theorem hasFrame_after {op : Operation} (h : (c.after op).HasFrame) :
    c.HasFrame ∨ ∃ b l, op = .receive true b ∧ c.announced? true b = some l := by
  obtain ⟨g, hg, hframe⟩ := hasFrame_iff.1 h
  cases hop : op.heard? with
  | none =>
    have hscanning : g.phase ≠ .scanning := by rcases hframe with (hp | hp | hp) | hp <;> simp [hp]
    exact .inl (hasFrame_iff.2 ⟨g, (step_after hop).receiver_eq hg hscanning, hframe⟩)
  | some heard =>
    cases op with
    | receive carrier b =>
      cases hf : c.receiver with
      | none => cases (receiver_receive_of_none hf carrier b).symm.trans hg
      | some f =>
        by_cases hin : f.InFrame
        · exact .inl (.inl ⟨f, hf, hin⟩)
        · obtain ⟨l, hl, -⟩ := ReceiveFramer.announced?_of_enters hin (hasFrame_receive hf h)
          obtain rfl : carrier = true := (ReceiveFramer.announced?_eq_some.1 hl).2.1
          refine .inr ⟨b, l, rfl, ?_⟩
          rw [announced?, hf]
          exact hl
    | _ => cases hop

/-- A frame that the chip has goes back to the length octet that announced it, and has been there
ever since. -/
theorem receiving_since (hc : ¬c.HasFrame) {ops : List Operation} (h : (c.run ops).HasFrame) :
    ∃ before b since l, ops = before ++ .receive true b :: since ∧
      (c.run before).announced? true b = some l ∧
      ((c.run before).receive true b).2.Throughout HasFrame since := by
  induction ops using List.reverseRecOn with
  | nil => exact absurd h hc
  | append_singleton ops op ih =>
    rw [run_append] at h
    rcases hasFrame_after (c := c.run ops) h with hframe | ⟨b, l, rfl, hl⟩
    · obtain ⟨before, b, since, l, rfl, hl, hsince⟩ := ih hframe
      refine ⟨before, b, since ++ [op], l, by simp, hl, hsince.concat ?_⟩
      rw [run_append] at h
      exact h
    · exact ⟨ops, b, [], l, rfl, hl, throughout_nil h⟩

end Chip

end Transceiver
