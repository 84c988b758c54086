import Transceiver.Reception
import Transceiver.Transmission

/-!
# Octets on the medium

Time on the medium goes in octet periods. In each of them time passes for a chip and then it sends
or hears one octet; `Slot` keeps the octet with the signals that the chip gave since they were last
collected.
-/

namespace Transceiver

structure Slot where
  octet : UInt8
  signals : List Signal
  deriving DecidableEq

namespace Chip

variable {G : Type}

def transmitSlot (c : Chip G) : Slot × Chip G :=
  let (octet, c) := (c.pass octetPeriod).transmit
  let (signals, c) := c.collect
  (⟨octet, signals⟩, c)

def transmitSlots (c : Chip G) : Nat → List Slot × Chip G
  | 0 => ([], c)
  | n + 1 =>
    let (slot, c) := c.transmitSlot
    let (slots, c) := c.transmitSlots n
    (slot :: slots, c)

/-- The rest of a transmission, cut off after `limit` octets. -/
def transmitRest (c : Chip G) : Nat → List Slot × Chip G
  | 0 => ([], c)
  | limit + 1 =>
    if c.isTransmitting then
      let (slot, c) := c.transmitSlot
      let (slots, c) := c.transmitRest limit
      (slot :: slots, c)
    else ([], c)

variable [RandomWords G]

def hearSlot (c : Chip G) (carrier : Bool) (b : UInt8) : Slot × Chip G :=
  let (octet, c) := (c.pass octetPeriod).receive carrier b
  let (signals, c) := c.collect
  (⟨octet, signals⟩, c)

def hearSlots (c : Chip G) (carrier : Bool) : List UInt8 → List Slot × Chip G
  | [] => ([], c)
  | b :: r =>
    let (slot, c) := c.hearSlot carrier b
    let (slots, c) := c.hearSlots carrier r
    (slot :: slots, c)

end Chip

end Transceiver
