import Transceiver.FrameControl
import Transceiver.Octets

/-!
# Outgoing frames

`Header` is the MAC header of a frame to be sent and `Header.image?` lays it out as the octets that
are loaded into the frame buffer: the length octet, the header, the payload. The length counts the
two check octets that the transmitter adds, and no frame may exceed 127 octets.
-/

namespace Transceiver

/-- Most octets in a frame, check octets included and length octet not. -/
def maxFrameLength : Nat := 127

inductive Address where
  | absent
  | short (octets : UInt16)
  | long (octets : UInt64)
  deriving DecidableEq

namespace Address

def modeBits : Address → UInt8
  | absent => 0
  | short _ => 2
  | long _ => 3

def octets : Address → List UInt8
  | absent => []
  | short a => littleEndian 2 a.toNat
  | long a => littleEndian 8 a.toNat

end Address

structure Header where
  frameType : FrameType
  framePending : Bool
  ackRequest : Bool
  sequence : UInt8
  destPan : UInt16
  dest : Address
  /-- Without a source PAN identifier of its own, the source is in the destination's PAN. -/
  sourcePan : Option UInt16
  source : Address
  deriving DecidableEq

namespace Header

def data (sequence : UInt8) (destPan : UInt16) (dest source : Address) : Header where
  frameType := .data
  framePending := false
  ackRequest := false
  sequence := sequence
  destPan := destPan
  dest := dest
  sourcePan := none
  source := source

def withAckRequest (h : Header) (ackRequest : Bool) : Header := { h with ackRequest }

variable (h : Header)

def panCompressed : Bool :=
  h.sourcePan.isNone && h.dest != .absent && h.source != .absent

def control : FrameControl where
  low := h.frameType.bits ||| (if h.framePending then 0x10 else 0) |||
    (if h.ackRequest then 0x20 else 0) ||| (if h.panCompressed then 0x40 else 0)
  high := (h.dest.modeBits <<< 2) ||| (h.source.modeBits <<< 6)

def destFields : List UInt8 :=
  match h.dest with
  | .absent => []
  | a => littleEndian 2 h.destPan.toNat ++ a.octets

def writtenSourcePan : Option UInt16 :=
  match h.source, h.sourcePan, h.dest with
  | .absent, _, _ => none
  | _, some pan, _ => some pan
  | _, none, .absent => some h.destPan
  | _, none, _ => none

def sourceFields : List UInt8 :=
  match h.writtenSourcePan with
  | some pan => littleEndian 2 pan.toNat ++ h.source.octets
  | none => h.source.octets

def octets : List UInt8 :=
  [h.control.low, h.control.high, h.sequence] ++ h.destFields ++ h.sourceFields

/-- The frame buffer image of the header with a payload, or `none` for a frame that is too long. -/
def image? (payload : List UInt8) : Option (List UInt8) :=
  let body := h.octets ++ payload
  let length := body.length + 2
  if length ≤ maxFrameLength then some (UInt8.ofNat length :: body) else none

end Header

end Transceiver
