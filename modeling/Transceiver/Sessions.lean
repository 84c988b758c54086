import Transceiver.Chip

/-!
# Sessions on the medium

A session opens when a framer is started and closes when it is removed, and the medium is told both
times. Opening leaves a running framer alone and closing an absent one. Abandoning a session also
forgets an acknowledgement that is owed.
-/

namespace Transceiver.Chip

variable {G : Type} (c : Chip G)

/-- The signal strength settles eight symbols after the receiver starts. -/
def settlingTime : Duration := ⟨128⟩

/-- The frame buffer is emptied for a new frame but keeps the one that an acknowledgement answers.
-/
def beginTransmission : Chip G :=
  match c.transmitter with
  | some _ => c
  | none =>
    let c := if c.owed.isNone then { c with buffer := .empty } else c
    let level := UInt8.ofNat (15 - c.registers.powerSetting.val)
    let c := c.give (.power (.transmit level))
    { c.give (.beginTransmission c.power c.frequency) with transmitter := some .start }

def endTransmission : Chip G :=
  match c.transmitter with
  | some _ => { c.give .endTransmission with transmitter := none }
  | none => c

def abandonTransmission : Chip G := endTransmission { c with owed := none }

def beginReception : Chip G :=
  match c.receiver with
  | some _ => c
  | none =>
    let c := c.give (.power .receive)
    { c.give (.beginReception c.frequency) with
      buffer := .empty
      receiver := some .start
      bitErrors := .empty
      rssiTimer := .arm (c.surroundings.now.after settlingTime) }

def endReception : Chip G :=
  match c.receiver with
  | some _ =>
    { c.give .endReception with
      receiver := none
      registers := c.registers.setRssi 0
      rssiTimer := .idle }
  | none => c

def abandonReception : Chip G := endReception { c with owed := none }

end Transceiver.Chip
