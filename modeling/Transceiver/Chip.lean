import Transceiver.BitErrors
import Transceiver.Configuration
import Transceiver.Correlation
import Transceiver.FrameBuffer
import Transceiver.FrameFilter
import Transceiver.ReceiveFramer
import Transceiver.RegisterFile
import Transceiver.SignalStrength
import Transceiver.Surroundings

/-!
# The transceiver chip

`Chip` is all that the transceiver remembers. A framer is there exactly as long as its session on
the medium is open. This module has what can be read off a chip and the small changes that the
larger activities share: entering a state, raising an event, giving a signal.
-/

namespace Transceiver

structure Chip (G : Type) where
  variant : Variant
  interruptLine : Option UInt8
  ieee : Vector UInt8 8
  surroundings : Surroundings
  registers : RegisterFile
  buffer : FrameBuffer
  state : OperatingState
  transmitter : Option TransmitFramer
  receiver : Option ReceiveFramer
  /-- The acknowledgement that the last frame calls for. -/
  owed : Option Acknowledgement
  /-- The node has data waiting, which the next acknowledgement is to announce. -/
  dataWaiting : Bool
  lastValid : Bool
  /-- The sequence number of the last frame that the filter saw. -/
  sequence : UInt8
  generator : G
  bitErrors : BitErrors
  /-- Runs until the signal strength has settled. -/
  rssiTimer : Timer

/-- Transmit power in tenths of a dBm, by power setting. -/
def transmitPower : Vector Int 16 :=
  #v[30, 28, 23, 18, 13, 7, 0, -10, -20, -30, -40, -50, -70, -90, -120, -170]

namespace Chip

variable {G : Type}

def build (config : Configuration) (now : Instant) (generator : G) : Chip G where
  variant := config.variant
  interruptLine := config.interruptLine
  ieee := config.ieee
  surroundings := ⟨now, []⟩
  registers := (RegisterFile.reset config.ieee).set .trxStatus OperatingState.trxOff.code
  buffer := .empty
  state := .trxOff
  transmitter := none
  receiver := none
  owed := none
  dataWaiting := false
  lastValid := false
  sequence := 0
  generator := generator
  bitErrors := .empty
  rssiTimer := .idle

def ofConfiguration (config : Configuration) : Chip Mixer := build config ⟨0⟩ ⟨config.seed⟩

variable (c : Chip G)

def isTransmitting : Bool := c.transmitter.isSome

def isReceiving : Bool := c.receiver.isSome

def isOn : Bool := c.isTransmitting || c.isReceiving

/-- Frequency in MHz. Channels are 5 MHz apart and channel 11 is the lowest of the band. -/
def frequency : Int := 2405 + 5 * ((c.registers.channel.toNat : Int) - 11)

def power : Int := transmitPower[c.registers.powerSetting]

def channelClear (_ : Chip G) : Bool := true

def rssiDbm : Int := dbmOfRssi (c.registers.get .phyRssi)

def peekRegister (r : Register) : UInt8 := c.registers.get r

def localAddress : LocalAddress where
  pan := c.registers.getMany 2 .panId
  short := c.registers.getMany 2 .shortAddr
  ieee := c.registers.getMany 8 .ieeeAddr
  isCoordinator := c.registers.isCoordinator

def give (x : Signal) : Chip G := { c with surroundings := c.surroundings.give x }

def enter (s : OperatingState) : Chip G :=
  { c with state := s, registers := c.registers.set .trxStatus s.code }

def latch (e : Event) : Chip G :=
  { c with registers := c.registers.modify .irqStatus (· ||| e.statusBit) }

def post (e : Event) : Chip G :=
  match e.vector? c.interruptLine c.variant with
  | some v => c.give (.interrupt v)
  | none => c

/-- Lets an event happen: posted unless it is masked, and recorded unless it is masked and masked
events are not to be recorded. -/
def raise (e : Event) : Chip G :=
  if c.registers.unmasked e.statusBit then (c.latch e).post e
  else if c.registers.recordMasked then c.latch e
  else c

end Chip

end Transceiver
