import Transceiver.Command
import Transceiver.Time

/-!
# The surroundings of a transceiver

What the transceiver sees of the simulation is the clock. What the simulation sees of it are
signals: sessions on the medium that open and close, interrupts, and changes of power mode. They are
kept in the order in which they were given until someone collects them.
-/

namespace Transceiver

inductive Signal where
  /-- A transmission begins, with its power in tenths of a dBm and its frequency in MHz. -/
  | beginTransmission (power frequency : Int)
  | endTransmission
  /-- The transceiver begins to listen at a frequency in MHz. -/
  | beginReception (frequency : Int)
  | endReception
  | interrupt (vector : UInt8)
  | power (mode : PowerMode)
  deriving DecidableEq

structure Surroundings where
  now : Instant
  signals : List Signal
  deriving DecidableEq

namespace Surroundings

def give (s : Surroundings) (x : Signal) : Surroundings := { s with signals := s.signals ++ [x] }

def collect (s : Surroundings) : List Signal × Surroundings := (s.signals, { s with signals := [] })

def pass (s : Surroundings) (d : Duration) : Surroundings := { s with now := s.now.after d }

@[simp] theorem now_give (s : Surroundings) (x : Signal) : (s.give x).now = s.now := rfl

@[simp] theorem signals_give (s : Surroundings) (x : Signal) :
    (s.give x).signals = s.signals ++ [x] := rfl

end Surroundings

end Transceiver
