import Transceiver.Proofs.Hearing

/-!
# The steps of an activity

`Activity.Step` lists what the node, the clock and the transmitter can do to the activity of a chip.
By `step_after` and `heard_receive` an operation does either one of these or what an octet on the
medium can do, so that a property which both relations keep holds of every reachable chip.
-/

namespace Transceiver

def Operation.heard? : Operation → Option (Bool × UInt8)
  | .receive carrier b => some (carrier, b)
  | _ => none

/-- `a.Step b`: something other than an octet on the medium may lead from `a` to `b`. -/
inductive Activity.Step (a : Activity) : Activity → Prop where
  | rests : Step a a
  | executes (command : Command) : Step a (a.execute command)
  | seesSleepPin (level : Bool) : Step a (a.sleepPin level)
  | resets : Step a a.reset
  | transmits (i : TransmitInput) (h : i.owed = a.owed) : Step a (a.transmit i)

namespace Chip

variable {G : Type} [RandomWords G] {c : Chip G}

theorem step_after {op : Operation} (h : op.heard? = none) :
    c.activity.Step (c.after op).activity := by
  cases op with
  | writeRegister r v =>
    change c.activity.Step (c.writeRegister r v).activity
    rw [activity_writeRegister]
    split
    · exact .executes _
    · exact .rests
  | readRegister r =>
    change c.activity.Step (c.readRegister r).2.activity
    rw [activity_readRegister]
    exact .rests
  | command code =>
    change c.activity.Step (c.command code).activity
    rw [activity_command]
    exact .executes _
  | sleepPin level =>
    change c.activity.Step (c.sleepPin level).activity
    rw [activity_sleepPin]
    exact .seesSleepPin level
  | reset =>
    change c.activity.Step c.reset.activity
    rw [activity_reset]
    exact .resets
  | transmit =>
    change c.activity.Step c.transmit.2.activity
    rw [activity_transmit]
    exact .transmits _ rfl
  | setRssi dbm =>
    change c.activity.Step (c.setRssi dbm).activity
    rw [setRssi, activity_setRssi]
    exact .rests
  | advance now =>
    change c.activity.Step (c.advance now).activity
    rw [activity_advance]
    exact .rests
  | receive carrier b => cases h
  | setDataWaiting | pushFrame | popFrame | uploadFrame | pokeFrame | clearFrame | prepareFrame
  | recordBitErrors | takePacketErrorRate | setTime => exact .rests

theorem step_or_heard_after (c : Chip G) (op : Operation) :
    c.activity.Step (c.after op).activity ∨ c.activity.Heard (c.after op).activity := by
  cases h : op.heard? with
  | none => exact .inl (step_after h)
  | some heard =>
    cases op with
    | receive carrier b => exact .inr (heard_receive c carrier b)
    | _ => cases h

/-- To prove a property of every reachable chip it is enough to look at one step of one that is
reachable, and whose other properties are known. -/
theorem Reachable.activity_induction {P : Activity → Prop} (h : Reachable c) (initial : P .initial)
    (step : ∀ (d : Chip G) b, Reachable d → d.activity.Step b → P d.activity → P b)
    (heard : ∀ (d : Chip G) b, Reachable d → d.activity.Heard b → P d.activity → P b) :
    P c.activity := by
  have hboth : Reachable c ∧ P c.activity := by
    refine Reachable.induction (P := fun c => Reachable c ∧ P c.activity) h ?_ ?_
    · intro config now g
      rw [activity_build]
      exact ⟨reachable_build config now g, initial⟩
    · intro d op ⟨hd, ih⟩
      refine ⟨hd.after op, ?_⟩
      rcases step_or_heard_after d op with hs | hh
      · exact step d _ hd hs ih
      · exact heard d _ hd hh ih
  exact hboth.2

end Chip

end Transceiver
