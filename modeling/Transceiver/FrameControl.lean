/-!
# The frame control field

The two octets that open every MAC frame. The low octet holds the frame type in three bits and the
flags; the high octet holds the addressing mode of the destination in bits 2 and 3 and that of the
source in bits 6 and 7.
-/

namespace Transceiver

inductive FrameType where
  | beacon
  | data
  | ack
  | command
  | reserved (bits : UInt8)
  deriving DecidableEq

namespace FrameType

def ofBits (b : UInt8) : FrameType :=
  match b &&& 0x07 with
  | 0 => beacon
  | 1 => data
  | 2 => ack
  | 3 => command
  | n => reserved n

def bits : FrameType → UInt8
  | beacon => 0
  | data => 1
  | ack => 2
  | command => 3
  | reserved n => n &&& 0x07

end FrameType

inductive AddressingMode where
  | absent
  | reserved
  | short
  | long
  deriving DecidableEq

def AddressingMode.ofBits (b : UInt8) : AddressingMode :=
  match b &&& 0x03 with
  | 0 => absent
  | 1 => reserved
  | 2 => short
  | _ => long

structure FrameControl where
  low : UInt8
  high : UInt8
  deriving DecidableEq

namespace FrameControl

variable (fc : FrameControl)

def frameType : FrameType := .ofBits fc.low

/-- Frame types 4 to 7, which bit 2 tells from the others. -/
def isReserved : Bool := fc.low &&& 0x04 != 0

def framePending : Bool := fc.low &&& 0x10 != 0

def ackRequest : Bool := fc.low &&& 0x20 != 0

/-- The source PAN identifier is left out because it equals that of the destination. -/
def panCompressed : Bool := fc.low &&& 0x40 != 0

def destMode : AddressingMode := .ofBits (fc.high >>> 2)

def sourceMode : AddressingMode := .ofBits (fc.high >>> 6)

def destPanPresent : Bool := (fc.high >>> 2) &&& 0x02 != 0

def sourcePanPresent : Bool := (fc.high >>> 6) &&& 0x02 != 0

/-- The field of a stored frame, whose first octet is the length; octets not yet there count as
zero. -/
def ofFrame (frame : List UInt8) : FrameControl := ⟨frame.getD 1 0, frame.getD 2 0⟩

end FrameControl

end Transceiver
