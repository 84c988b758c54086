import Transceiver.Sessions

/-!
# Control by the node

The registers as the node sees them, the commands it gives through one of them, and the sleep and
reset pins.
-/

namespace Transceiver.Chip

variable {G : Type} (c : Chip G)

/-- Does to the framers what a transition asks for. Those that are to stop do so before others
start. -/
def steer (t : Transition) : Chip G :=
  let c := if t.transmitter = .stop then c.abandonTransmission else c
  let c := if t.receiver = .stop then c.abandonReception else c
  let c := if t.transmitter = .start then c.beginTransmission else c
  if t.receiver = .start then c.beginReception else c

def execute (command : Command) : Chip G :=
  let t := command.transition c.state
  let c := if t.outcomeInvalid then { c with registers := c.registers.setOutcome 0xE0 } else c
  (c.enter t.next).steer t

/-- Executes the command with the given code. A code without a command does what `nop` does. -/
def command (code : UInt8) : Chip G := c.execute ((Command.ofCode? code).getD .nop)

/-- A register write by the node. The status cannot be written, and writing the state register gives
the command in its low five bits. -/
def writeRegister (r : Register) (v : UInt8) : Chip G :=
  if r = .trxStatus then c
  else
    let c' : Chip G := { c with registers := c.registers.set r v }
    if r = .trxState then c'.command (v &&& 0x1F) else c'

def readRegister (r : Register) : UInt8 × Chip G :=
  ((c.registers.read r).1, { c with registers := (c.registers.read r).2 })

def sleepPin (level : Bool) : Chip G :=
  match c.state.sleepEdge? level with
  | some (next, some mode) => (c.give (.power mode)).enter next
  | some (next, none) => c.enter next
  | none => c

def reset : Chip G :=
  let c : Chip G := { c with
    registers := .reset c.ieee
    owed := none
    dataWaiting := false
    lastValid := false }
  let c := c.abandonTransmission.abandonReception
  ({ c with buffer := .empty }.enter .trxOff).give (.power .idle)

def advance (now : Instant) : Chip G :=
  let (fired, timer) := c.rssiTimer.poll now
  let c : Chip G := { c with rssiTimer := timer }
  if fired && c.isReceiving then { c with registers := c.registers.setRssi settledRssi } else c

def setRssi (dbm : Float) : Chip G :=
  { c with registers := c.registers.setRssi (rssiOfDbm dbm) }

def recordBitErrors (rate : Float) (n : Nat) : Chip G :=
  { c with bitErrors := c.bitErrors.recordMany rate n }

def takePacketErrorRate : Float × Chip G :=
  (c.bitErrors.take.1, { c with bitErrors := c.bitErrors.take.2 })

def setDataWaiting (waiting : Bool) : Chip G := { c with dataWaiting := waiting }

def pass (d : Duration) : Chip G := { c with surroundings := c.surroundings.pass d }

def setTime (now : Instant) : Chip G := { c with surroundings := { c.surroundings with now } }

def collect : List Signal × Chip G :=
  (c.surroundings.collect.1, { c with surroundings := c.surroundings.collect.2 })

/-! ### The frame buffer -/

def pushFrame (b : UInt8) : Except BufferError Unit × Chip G :=
  ((c.buffer.push b).1, { c with buffer := (c.buffer.push b).2 })

def popFrame : Option UInt8 × Chip G := (c.buffer.pop.1, { c with buffer := c.buffer.pop.2 })

def uploadFrame (index : Nat) (b : UInt8) : Except BufferError Unit × Chip G :=
  ((c.buffer.upload index b).1, { c with buffer := (c.buffer.upload index b).2 })

def pokeFrame (index : Nat) (b : UInt8) : Except BufferError Unit × Chip G :=
  ((c.buffer.poke index b).1, { c with buffer := (c.buffer.poke index b).2 })

def clearFrame : Chip G := { c with buffer := .empty }

def prepareFrame : Chip G := { c with buffer := .forReception }

end Transceiver.Chip
