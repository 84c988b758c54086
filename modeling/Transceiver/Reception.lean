import Transceiver.Control

/-!
# Reception

One octet heard by the chip. The framer turns it into effects, which the chip carries out one after
the other: it stores the octet, asks the filter, writes the link quality, and decides whether an
acknowledgement is owed. An effect that gives the frame up cancels those behind it.
-/

namespace Transceiver.Chip

variable {G : Type} (c : Chip G)

def storeOctet (b : UInt8) : Bool × Chip G :=
  match c.buffer.push b with
  | (.ok _, buffer) => (true, { c with buffer })
  | (.error _, buffer) => (false, { c with buffer, receiver := c.receiver.map .overflow })

def startFrame (length : UInt8) : Bool × Chip G :=
  storeOctet { c with
    buffer := .forReception
    registers := c.registers.set .tstRxLength length } length

/-- A new sequence number ends what was owed for the frame before. -/
def noteSequence : Option UInt8 → Chip G
  | some sequence => { c with sequence, lastValid := false, owed := none }
  | none => c

/-- Asks the filter about the frame so far. Only a node that acknowledges on its own, and is not the
coordinator, acts on the verdict. -/
def filter (offset : Nat) : Bool × Chip G :=
  let verdict := FrameFilter.check c.buffer.octets offset c.localAddress
  let c' := c.noteSequence verdict.sequence
  if c.state ≠ .rxAackOn ∨ c.registers.isCoordinator then (true, c')
  else if verdict.accepted then
    (true, if offset = FrameFilter.matchOffset then c'.raise .addressMatch else c')
  else (false, { c' with receiver := c'.receiver.map .reject })

def acknowledgement? : Option Acknowledgement :=
  let fc := FrameControl.ofFrame c.buffer.octets
  if c.state = .rxAackOn ∧ fc.ackRequest ∧ fc.frameType ≠ .ack ∧ ¬c.registers.ackDisabled then
    some (if c.dataWaiting || c.registers.ackPending then .pending else .plain)
  else none

section

variable [RandomWords G]

/-- Puts the link quality in place of the last octet, below the verdict on the check octets. -/
def storeLinkQuality (valid : Bool) : Chip G :=
  let (rate, bitErrors) := c.bitErrors.take
  let (correlation, generator) := drawCorrelation rate c.generator
  let quality := (correlation &&& 0x7F) ||| (if valid then 0x80 else 0)
  let buffer := (c.buffer.poke (c.buffer.octets.length - 1) quality).2
  { c with bitErrors, generator, buffer }

def completeChecked (valid : Bool) : Chip G :=
  let c := (c.storeLinkQuality valid).raise .rxEnd
  if valid then
    { c with lastValid := true, owed := c.acknowledgement?.or c.owed }
  else { c with lastValid := false, owed := none }

def completeUnchecked : Chip G :=
  raise { c with bitErrors := .empty, lastValid := false } .rxEnd

/-- The frame has passed. If an acknowledgement is owed the chip turns around to send it. -/
def turnAround : Chip G :=
  if c.owed.isSome ∧ c.lastValid then c.endReception.beginTransmission else c

/-- Carries out one effect and says whether the next one is to follow. -/
def apply : ReceiveEffect → Bool × Chip G
  | .raise e => (true, c.raise e)
  | .frameStart length => c.startFrame length
  | .push b => c.storeOctet b
  | .filterCheck offset => c.filter offset
  | .frameComplete (some valid) => (true, c.completeChecked valid)
  | .frameComplete none => (true, c.completeUnchecked)
  | .endOfFrame _ => (true, c.turnAround)
  | .discarded => (true, { c with bitErrors := .empty, owed := none })

def carryOut (c : Chip G) : List ReceiveEffect → Chip G
  | [] => c
  | x :: xs =>
    match c.apply x with
    | (true, c') => c'.carryOut xs
    | (false, c') => c'

/-- An octet on the medium, with or without a carrier. The clock is looked at first. The octet
passes unchanged. -/
def receive (carrier : Bool) (b : UInt8) : UInt8 × Chip G :=
  let c := c.advance c.surroundings.now
  match c.receiver with
  | none => (b, c)
  | some f =>
    let (f', out) := f.step ⟨b, carrier, c.registers.autoFcs⟩
    (out.octet, { c with receiver := some f' }.carryOut out.effects)

end

end Transceiver.Chip
