import Transceiver.OperatingState

/-!
# Commands and what they ask for

A command names the next operating state and says what becomes of the two framers. Which command is
given decides everything: the present state never stands in its way. The sleep pin is a second way
to change state, and only four of its edges do.
-/

namespace Transceiver

inductive Command where
  | nop
  | txStart
  | forceTrxOff
  | forcePllOn
  | rxOn
  | trxOff
  | txOn
  | rxAackOn
  | txAretOn
  deriving DecidableEq

/-- What a command does to a framer: `start` and `stop` leave one alone that runs, or rests,
already. -/
inductive FramerAction where
  | keep
  | start
  | stop
  deriving DecidableEq

/-- The demand on the power supply. A transmit level counts down from 15 at full power. -/
inductive PowerMode where
  | off
  | idle
  | receive
  | transmit (level : UInt8)
  deriving DecidableEq

structure Transition where
  next : OperatingState
  transmitter : FramerAction
  receiver : FramerAction
  /-- The outcome of the last transaction becomes invalid. -/
  outcomeInvalid : Bool
  deriving DecidableEq

namespace Command

def all : List Command :=
  [nop, txStart, forceTrxOff, forcePllOn, rxOn, trxOff, txOn, rxAackOn, txAretOn]

def code : Command → UInt8
  | nop => 0x00
  | txStart => 0x02
  | forceTrxOff => 0x03
  | forcePllOn => 0x04
  | rxOn => 0x06
  | trxOff => 0x08
  | txOn => 0x09
  | rxAackOn => 0x16
  | txAretOn => 0x19

def ofCode? (b : UInt8) : Option Command := all.find? (·.code == b)

theorem ofCode?_code (c : Command) : ofCode? c.code = some c := by
  cases c <;> rfl

theorem code_of_ofCode? {b : UInt8} {c : Command} (h : ofCode? b = some c) : c.code = b := by
  have := List.find?_some h
  simpa using this

def transition (s : OperatingState) : Command → Transition
  | nop => ⟨s, .keep, .keep, false⟩
  | txStart => ⟨.busyTx, .start, .stop, false⟩
  | forceTrxOff | trxOff => ⟨.trxOff, .stop, .stop, false⟩
  | forcePllOn | txOn => ⟨.pllOn, .keep, .keep, false⟩
  | rxOn => ⟨.rxOn, .stop, .start, false⟩
  | rxAackOn => ⟨.rxAackOn, .stop, .start, true⟩
  | txAretOn => ⟨.busyTxAret, .start, .stop, true⟩

end Command

/-- Where an edge of the sleep pin leads, with the power mode to announce; `none` for an edge
without effect. -/
def OperatingState.sleepEdge? : OperatingState → Bool → Option (OperatingState × Option PowerMode)
  | trxOff, true => some (sleep, some .off)
  | pllOn, true => some (busyTx, none)
  | txAretOn, true => some (busyTxAret, none)
  | sleep, false => some (trxOff, some .idle)
  | _, _ => none

end Transceiver
