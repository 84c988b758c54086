import Transceiver.Control

/-!
# Transmission

One octet sent by the chip. The framer says what goes on air and the chip follows it: it takes the
octet out of the frame buffer, raises the events, and leaves for `pllOn` when the frame is over.
-/

namespace Transceiver.Chip

variable {G : Type} (c : Chip G)

/-- The frame is over, and with it the transaction, which succeeded. -/
def finishTransmission : Chip G :=
  let c := c.enter .pllOn
  let c : Chip G := { c with registers := c.registers.setOutcome 0 }
  (c.raise .txEnd).abandonTransmission

def afterOctet (out : TransmitOutput) : Chip G :=
  let c : Chip G := if out.consumed then { c with buffer := c.buffer.pop.2 } else c
  let c : Chip G := if out.acknowledged then { c with owed := none } else c
  let c := if out.underrun then c.raise .underrun else c
  if out.finished then c.finishTransmission else c

def transmitInput : TransmitInput where
  owed := c.owed
  sequence := c.sequence
  autoFcs := c.registers.autoFcs
  next := c.buffer.front?

def transmit : UInt8 × Chip G :=
  match c.transmitter with
  | none => (0, c)
  | some f =>
    let (f', out) := f.step c.transmitInput
    (out.octet, { c with transmitter := some f' }.afterOctet out)

end Transceiver.Chip
