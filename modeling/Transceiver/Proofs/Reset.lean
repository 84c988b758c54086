import Transceiver.Proofs.SessionRecord
import Transceiver.Proofs.SignalMeter
import Transceiver.Proofs.WrittenSettings

/-!
# Reset

A reset takes a chip back to the state in which it was switched on. It does so in an order of its
own: the registers are cleared while a framer may still run, and the framer that is stopped after
them writes to the strength register and has the timer cancelled only if there is one. That it makes
no difference rests on what all histories have in common: no two framers run at once, and without a
receiver the timer rests.
-/

namespace Transceiver

namespace RegisterFile

/-- After a reset there is no signal strength to take away. -/
theorem setRssi_reset (ieee : Vector UInt8 8) : (reset ieee).setRssi 0 = reset ieee := by
  have hget : (reset ieee).get .phyRssi = 0 := get_reset ieee .phyRssi (by decide)
  have hcleared : ((reset ieee).get .phyRssi &&& 0xE0) ||| 0 = (reset ieee).get .phyRssi := by
    rw [hget]
    rfl
  rw [setRssi, modify, hcleared, set_get_self]

end RegisterFile

def Session.endSignal : Session → Signal
  | .transmission => .endTransmission
  | .reception => .endReception

namespace Chip

variable {G : Type}

/-- A chip that is switched on again. It keeps its generator, the sequence number and the bit
errors, and its surroundings see these signals. -/
def restarted (c : Chip G) (config : Configuration) (signals : List Signal) : Chip G :=
  { build config c.surroundings.now c.generator with
    surroundings := ⟨c.surroundings.now, c.surroundings.signals ++ signals⟩
    sequence := c.sequence
    bitErrors := c.bitErrors }

def resetSignals (c : Chip G) : List Signal :=
  (c.activity.openSession?.map Session.endSignal).toList ++ [.power .idle]

variable {c : Chip G} {config : Configuration}

theorem reset_of_orderly (hvariant : c.variant = config.variant)
    (hline : c.interruptLine = config.interruptLine) (hieee : c.ieee = config.ieee)
    (horderly : c.activity.Orderly) (hrest : c.meter.AtRest) :
    c.reset = c.restarted config c.resetSignals := by
  cases config with
  | mk variant ieee line seed =>
    subst hvariant hline hieee
    cases hr : c.receiver with
    | some f =>
      have ht : c.transmitter = none := horderly.transmitter_eq_none hr
      have hsession := Activity.openSession?_of_receiver (a := c.activity) ht hr
      simp [reset, abandonTransmission, endTransmission, abandonReception, endReception, ht, hr,
        resetSignals, hsession, restarted, build, enter, give, RegisterFile.setRssi_reset,
        Session.endSignal, Surroundings.give]
    | none =>
      have htimer : c.rssiTimer = .idle := hrest (congrArg Option.isSome hr)
      cases ht : c.transmitter with
      | some f =>
        have hsession := Activity.openSession?_of_transmitter (a := c.activity) ht
        simp [reset, abandonTransmission, endTransmission, abandonReception, endReception, ht, hr,
          resetSignals, hsession, restarted, build, enter, give, htimer, Session.endSignal,
          Surroundings.give]
      | none =>
        have hsession := Activity.openSession?_of_none (a := c.activity) ht hr
        simp [reset, abandonTransmission, endTransmission, abandonReception, endReception, ht, hr,
          resetSignals, hsession, restarted, build, enter, give, htimer, Surroundings.give]

variable [RandomWords G]

theorem reset_run (config : Configuration) (now : Instant) (g : G) (ops : List Operation) :
    let c := (build config now g).run ops
    c.reset = c.restarted config c.resetSignals := by
  intro c
  have hc : c.Reachable := (reachable_build config now g).run ops
  have hfollow : c.settings.Follow config ops := follow_run config now g ops
  exact reset_of_orderly hfollow.variant_eq hfollow.interruptLine_eq hfollow.ieee_eq hc.orderly
    hc.meter_atRest

/-- Whatever a chip has been through, a reset leaves it as it was when it was switched on. It keeps
its generator, the sequence number and the bit errors. The session that is open, if one is, is
ended, and the chip goes idle. A second reset only says once more that the chip is idle. -/
theorem reset_erases_history (config : Configuration) (now : Instant) (g : G)
    (ops : List Operation) :
    let c := (build config now g).run ops
    ∃ current : Option Session,
      (current = some .transmission ↔ c.isTransmitting) ∧
      (current = some .reception ↔ c.isReceiving) ∧
      c.reset = { build config now g with
        surroundings := ⟨c.surroundings.now, c.surroundings.signals ++
          ((current.map Session.endSignal).toList ++ [.power .idle])⟩
        generator := c.generator
        sequence := c.sequence
        bitErrors := c.bitErrors } ∧
      c.reset.reset = c.reset.give (.power .idle) := by
  intro c
  have hc : c.Reachable := (reachable_build config now g).run ops
  have hreset : c.reset = c.restarted config c.resetSignals := reset_run config now g ops
  have hagain : c.reset.reset = c.reset.restarted config c.reset.resetSignals := by
    have h := reset_run config now g (ops ++ [.reset])
    rw [run_append] at h
    exact h
  refine ⟨c.activity.openSession?, Activity.openSession?_eq_transmission_iff,
    hc.orderly.openSession?_eq_reception_iff, hreset, ?_⟩
  rw [hagain, hreset]
  rfl

end Chip

end Transceiver
