import Transceiver.RegisterBus
import Transceiver.Transaction

/-!
# The transceiver on a serial bus

The stand-alone chip with its select, reset and sleep pins. Select and reset are active when low. A
chip that is not selected, or is held in reset, shifts out zeros and hears nothing.
-/

namespace Transceiver

structure SerialRadio (G : Type) where
  chip : Chip G
  transaction : Transaction
  selectPin : Bool
  resetPin : Bool
  sleepPin : Bool

namespace SerialRadio

variable {G : Type}

def attach (c : Chip G) : SerialRadio G := ⟨c, .initial, true, true, false⟩

variable (s : SerialRadio G)

/-- Either edge of the select pin begins a new transaction. -/
def setSelect (level : Bool) : SerialRadio G :=
  if s.selectPin = level then s
  else { s with selectPin := level, transaction := s.transaction.restart }

def setResetPin (level : Bool) : SerialRadio G :=
  if s.resetPin = level then s
  else { s with resetPin := level, chip := if level then s.chip else s.chip.reset }

def setSleepPin (level : Bool) : SerialRadio G :=
  if s.sleepPin = level then s
  else { s with sleepPin := level, chip := s.chip.sleepPin level }

def exchange (b : UInt8) : UInt8 × SerialRadio G :=
  if s.selectPin || !s.resetPin then (0, s)
  else
    let (out, transaction, chip) := s.transaction.exchange s.chip b
    (out, { s with transaction, chip })

def exchangeAll (s : SerialRadio G) : List UInt8 → List UInt8 × SerialRadio G
  | [] => ([], s)
  | b :: r =>
    let (out, s) := s.exchange b
    let (outs, s) := s.exchangeAll r
    (out :: outs, s)

def transfer (octets : List UInt8) : List UInt8 × SerialRadio G :=
  let (outs, s) := (s.setSelect false).exchangeAll octets
  (outs, s.setSelect true)

instance : RegisterBus (SerialRadio G) where
  readRegister s r :=
    let (outs, s) := s.transfer [(Access.readRegister r).toByte, 0]
    (outs.getD 1 0, s)
  writeRegister s r v := (s.transfer [(Access.writeRegister r).toByte, v]).2
  readFrame s index :=
    let (outs, s) := s.transfer [Access.readMemory.toByte, index, 0]
    (outs.getD 2 0, s)
  writeFrame s index v := (s.transfer [Access.writeMemory.toByte, index, v]).2
  setSleep := setSleepPin
  setReset s asserted := s.setResetPin (!asserted)
  upload s image := (s.transfer (Access.writeFrame.toByte :: image)).2

end SerialRadio

end Transceiver
