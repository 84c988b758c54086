import Transceiver.Command
import Transceiver.Register

/-!
# What a node does to its transceiver

`RegisterBus` is what both ways of attaching a transceiver offer: single registers, single frame
buffer octets with the length at index 0, and the two control lines. The rest is made of these.
-/

namespace Transceiver

class RegisterBus (B : Type) where
  readRegister : B → Register → UInt8 × B
  writeRegister : B → Register → UInt8 → B
  readFrame : B → UInt8 → UInt8 × B
  writeFrame : B → UInt8 → UInt8 → B
  setSleep : B → Bool → B
  /-- Asserts or releases the reset. -/
  setReset : B → Bool → B
  upload : B → List UInt8 → B

namespace RegisterBus

variable {B : Type} [RegisterBus B] (bus : B)

def pulseReset : B := setReset (setReset bus true) false

def modifyRegister (r : Register) (g : UInt8 → UInt8) : B :=
  let (v, bus) := readRegister bus r
  writeRegister bus r (g v)

def command (c : Command) : B := writeRegister bus .trxState c.code

def readFrom (bus : B) (index : UInt8) : Nat → List UInt8 × B
  | 0 => ([], bus)
  | n + 1 =>
    let (b, bus) := readFrame bus index
    let (r, bus) := readFrom bus (index + 1) n
    (b :: r, bus)

/-- The received frame: its length octet, as many octets as that says and the link quality, though
no more than `limit` octets in all. -/
def download (limit : Nat) : List UInt8 × B :=
  let (length, bus) := readFrame bus 0
  readFrom bus 0 (min ((length &&& 0x7F).toNat + 1) limit)

end RegisterBus

end Transceiver
