import Transceiver.Proofs.Listening
import Transceiver.Proofs.OperatingStates
import Transceiver.Proofs.RegisterSettings

/-!
# Commands given again

What a command asks for is not a change to the chip but a way for it to be: in an operating state,
with framers that run or rest, with nothing owed and an outcome that is not valid. `Follows` says
that a chip is as a transition has it. Every command leaves such a chip behind, and to a chip that
is so already it does nothing (`execute_eq_self_iff`), however far its framers are. So it makes no
difference how often in a row a command is given.
-/

namespace Transceiver

/-- An outcome that is invalid already stays as it is. -/
theorem RegisterFile.setOutcome_of_invalid {f : RegisterFile} {v : UInt8}
    (h : f.get .trxState = v &&& 0x1F ||| 0xE0) : f.setOutcome 0xE0 = f := by
  have hcommand : (v &&& 0x1F ||| 0xE0) &&& 0x1F = v &&& 0x1F := Chip.masked_or rfl rfl
  rw [setOutcome, modify, h, hcommand, ← h, set_get_self]

/-- Where a command leads does not depend on where it has led before. -/
theorem Command.transition_next (k : Command) (s : OperatingState) :
    k.transition (k.transition s).next = k.transition s := by
  cases k <;> rfl

namespace Activity

structure Follows (a : Activity) (t : Transition) : Prop where
  state_eq : a.state = t.next
  status_eq : a.status = t.next.code
  owed_eq : t.transmitter = .stop ∨ t.receiver = .stop → a.owed = none
  silent : t.transmitter = .stop → a.transmitter = none
  deaf : t.receiver = .stop → a.receiver = none
  transmitting : t.transmitter = .start → a.transmitter.isSome
  receiving : t.receiver = .start → a.receiver.isSome

/-- What is stopped is stopped before anything starts, and nothing that starts stops anything. -/
theorem follows_execute (a : Activity) (k : Command) :
    (a.execute k).Follows (k.transition a.state) := by
  unfold execute steer
  obtain ⟨next, transmitter, receiver, invalid⟩ := k.transition a.state
  cases transmitter <;> cases receiver <;> constructor <;>
    simp [enter, forget, closeTransmission, closeReception, openTransmission, openReception]

end Activity

namespace Chip

variable {G : Type} {c : Chip G} {t : Transition}

structure Follows (c : Chip G) (t : Transition) : Prop where
  activity : c.activity.Follows t
  outcome_eq : t.outcomeInvalid = true → c.registers.setOutcome 0xE0 = c.registers

/-! ### Nothing left to do -/

theorem enter_of_shown {s : OperatingState} (hs : c.state = s)
    (hshown : c.registers.get .trxStatus = s.code) : c.enter s = c := by
  have hregisters : c.registers.set .trxStatus s.code = c.registers := by
    rw [← hshown, RegisterFile.set_get_self]
  unfold enter
  rw [hregisters, ← hs]

theorem forget_of_none (h : c.owed = none) : { c with owed := none } = c := by
  cases c
  cases h
  rfl

theorem abandonTransmission_of_none (ho : c.owed = none) (ht : c.transmitter = none) :
    c.abandonTransmission = c := by
  unfold abandonTransmission
  rw [forget_of_none ho, endTransmission, ht]

theorem abandonReception_of_none (ho : c.owed = none) (hr : c.receiver = none) :
    c.abandonReception = c := by
  unfold abandonReception
  rw [forget_of_none ho, endReception, hr]

theorem beginTransmission_of_isSome (h : c.transmitter.isSome) : c.beginTransmission = c := by
  obtain ⟨f, hf⟩ := Option.isSome_iff_exists.1 h
  rw [beginTransmission, hf]

theorem beginReception_of_isSome (h : c.receiver.isSome) : c.beginReception = c := by
  obtain ⟨f, hf⟩ := Option.isSome_iff_exists.1 h
  rw [beginReception, hf]

theorem steer_of_follows (h : c.activity.Follows t) : c.steer t = c := by
  have hsilent : (if t.transmitter = .stop then c.abandonTransmission else c) = c :=
    ite_eq_right_iff.2 fun ht => abandonTransmission_of_none (h.owed_eq (.inl ht)) (h.silent ht)
  have hdeaf : (if t.receiver = .stop then c.abandonReception else c) = c :=
    ite_eq_right_iff.2 fun hr => abandonReception_of_none (h.owed_eq (.inr hr)) (h.deaf hr)
  have hsending : (if t.transmitter = .start then c.beginTransmission else c) = c :=
    ite_eq_right_iff.2 fun ht => beginTransmission_of_isSome (h.transmitting ht)
  have hhearing : (if t.receiver = .start then c.beginReception else c) = c :=
    ite_eq_right_iff.2 fun hr => beginReception_of_isSome (h.receiving hr)
  unfold steer
  simp only [hsilent, hdeaf, hsending, hhearing]

theorem execute_of_follows {k : Command} (h : c.Follows (k.transition c.state)) :
    c.execute k = c := by
  have houtcome : (if (k.transition c.state).outcomeInvalid then
      { c with registers := c.registers.setOutcome 0xE0 } else c) = c := by
    refine ite_eq_right_iff.2 fun hinvalid => ?_
    rw [h.outcome_eq hinvalid]
  unfold execute
  simp only [houtcome, enter_of_shown h.activity.state_eq h.activity.status_eq,
    steer_of_follows h.activity]

/-! ### What a command leaves behind -/

theorem follows_execute (c : Chip G) (k : Command) :
    (c.execute k).Follows (k.transition c.state) where
  activity := by
    rw [activity_execute]
    exact c.activity.follows_execute k
  outcome_eq hinvalid := by
    refine RegisterFile.setOutcome_of_invalid (v := c.registers.get .trxState) ?_
    unfold execute
    simp only [if_pos hinvalid]
    rw [get_steer _ _ (by decide)]
    exact (RegisterFile.get_set_of_ne _ _ (by decide)).trans (RegisterFile.get_set_self _ _ _)

/-- A command does nothing exactly to a chip that is as the command has it. -/
theorem execute_eq_self_iff {k : Command} :
    c.execute k = c ↔ c.Follows (k.transition c.state) := by
  refine ⟨fun h => ?_, execute_of_follows⟩
  have hfollows := c.follows_execute k
  rwa [h] at hfollows

theorem follows_again (c : Chip G) (k : Command) :
    (c.execute k).Follows (k.transition (c.execute k).state) := by
  have hfollows := c.follows_execute k
  have hstate : (c.execute k).state = (k.transition c.state).next := hfollows.activity.state_eq
  rwa [hstate, k.transition_next]

/-- It makes no difference whether somebody has seen the signals. -/
theorem Follows.collect (h : c.Follows t) : c.collect.2.Follows t where
  activity := { h.activity with }
  outcome_eq := h.outcome_eq

variable [RandomWords G]

theorem Reachable.follows_nop (h : c.Reachable) : c.Follows (Command.nop.transition c.state) where
  activity :=
    { state_eq := rfl
      status_eq := h.consistent.status_eq
      owed_eq := by rintro (ht | hr) <;> contradiction
      silent := nofun
      deaf := nofun
      transmitting := nofun
      receiving := nofun }
  outcome_eq := nofun

/-- A command given to a chip that has just carried it out changes nothing: registers and operating
state, the framers and the frame in the buffer, the acknowledgement owed, the timer and the
statistics are as before, and no signal is given. A code that is no command's changes nothing even
when it is given for the first time. -/
theorem command_again (config : Configuration) (now : Instant) (g : G) (ops : List Operation)
    (code : UInt8) :
    let c := (build config now g).run ops
    let d := c.command code
    d.command code = d ∧
      (d.collect.2.command code).surroundings.signals = [] ∧
      (Command.ofCode? code = none → d = c) := by
  intro c d
  have hc : c.Reachable := (reachable_build config now g).run ops
  have hagain := c.follows_again ((Command.ofCode? code).getD .nop)
  refine ⟨execute_eq_self_iff.2 hagain, ?_, fun hcode => ?_⟩
  · have hsilent : d.collect.2.command code = d.collect.2 := execute_eq_self_iff.2 hagain.collect
    rw [hsilent]
    rfl
  · have hnop : d = c.execute .nop := by
      simp only [d, command, hcode, Option.getD_none]
    rw [hnop]
    exact execute_eq_self_iff.2 hc.follows_nop

end Chip

end Transceiver
