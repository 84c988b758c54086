import Transceiver.Reception
import Transceiver.Transmission

/-!
# Histories of a chip

`Operation` lists what can happen to a chip from its three sides: the node, the medium and the
clock. `run` carries out a list of operations, and the `Reachable` chips are those that some list
leads to from power-on. `Reachable.induction` proves a property of all of them from its steps.
-/

namespace Transceiver

inductive Operation where
  | readRegister (r : Register)
  | writeRegister (r : Register) (v : UInt8)
  | command (code : UInt8)
  | sleepPin (level : Bool)
  | reset
  | setDataWaiting (waiting : Bool)
  | pushFrame (b : UInt8)
  | popFrame
  | uploadFrame (index : Nat) (b : UInt8)
  | pokeFrame (index : Nat) (b : UInt8)
  | clearFrame
  | prepareFrame
  | transmit
  | receive (carrier : Bool) (b : UInt8)
  | setRssi (dbm : Float)
  | recordBitErrors (rate : Float) (n : Nat)
  | takePacketErrorRate
  | advance (now : Instant)
  | setTime (now : Instant)

namespace Chip

variable {G : Type} [RandomWords G]

def after (c : Chip G) : Operation → Chip G
  | .readRegister r => (c.readRegister r).2
  | .writeRegister r v => c.writeRegister r v
  | .command code => c.command code
  | .sleepPin level => c.sleepPin level
  | .reset => c.reset
  | .setDataWaiting waiting => c.setDataWaiting waiting
  | .pushFrame b => (c.pushFrame b).2
  | .popFrame => c.popFrame.2
  | .uploadFrame index b => (c.uploadFrame index b).2
  | .pokeFrame index b => (c.pokeFrame index b).2
  | .clearFrame => c.clearFrame
  | .prepareFrame => c.prepareFrame
  | .transmit => c.transmit.2
  | .receive carrier b => (c.receive carrier b).2
  | .setRssi dbm => c.setRssi dbm
  | .recordBitErrors rate n => c.recordBitErrors rate n
  | .takePacketErrorRate => c.takePacketErrorRate.2
  | .advance now => c.advance now
  | .setTime now => c.setTime now

def run (c : Chip G) (ops : List Operation) : Chip G := ops.foldl after c

/-- Some history leads from power-on to this chip. -/
def Reachable (c : Chip G) : Prop := ∃ config now g ops, c = (build config now g).run ops

@[simp] theorem run_nil (c : Chip G) : c.run [] = c := rfl

@[simp] theorem run_cons (c : Chip G) (op : Operation) (ops : List Operation) :
    c.run (op :: ops) = (c.after op).run ops := rfl

theorem run_append (c : Chip G) (l m : List Operation) : c.run (l ++ m) = (c.run l).run m := by
  simp [run]

theorem reachable_build (config : Configuration) (now : Instant) (g : G) :
    Reachable (build config now g) := ⟨config, now, g, [], rfl⟩

theorem Reachable.run {c : Chip G} (h : Reachable c) (ops : List Operation) :
    Reachable (c.run ops) := by
  obtain ⟨config, now, g, l, rfl⟩ := h
  exact ⟨config, now, g, l ++ ops, (run_append _ l ops).symm⟩

theorem Reachable.after {c : Chip G} (h : Reachable c) (op : Operation) : Reachable (c.after op) :=
  h.run [op]

/-- What holds at power-on and is kept by every operation holds of every reachable chip. -/
theorem Reachable.induction {P : Chip G → Prop} {c : Chip G} (h : Reachable c)
    (build : ∀ config now g, P (build config now g))
    (after : ∀ c op, P c → P (c.after op)) : P c := by
  obtain ⟨config, now, g, ops, rfl⟩ := h
  have hrun (c : Chip G) (hc : P c) : P (c.run ops) := by
    induction ops generalizing c with
    | nil => exact hc
    | cons op ops ih => exact ih _ (after c op hc)
  exact hrun _ (build config now g)

end Chip

end Transceiver
