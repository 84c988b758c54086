import Transceiver.FrameCheck

/-!
# The transmit framer

Turns a frame into octets on air, one at each step: four zeros of preamble, the start delimiter, the
length, the octets of the frame and, if asked for, the check octets. The frame comes out of the
frame buffer octet by octet, unless an acknowledgement is owed: that one the framer makes up itself.
What the framer is told may change at every step; it looks for an owed acknowledgement when it sends
the length, and again for its first octet.
-/

namespace Transceiver

/-- An acknowledgement that is owed. It may announce that data is waiting. -/
inductive Acknowledgement where
  | plain
  | pending
  deriving DecidableEq

def preambleLength : UInt8 := 4

def startDelimiter : UInt8 := 0x7A

def ackLength : UInt8 := 5

/-- What a length leaves for the frame beside its two check octets. -/
def withoutFcs (length : UInt8) : UInt8 := if length < 2 then 0 else length - 2

inductive TransmitPhase where
  | preamble
  | delimiter
  | length
  | inPacket
  | check1
  | check2
  | done
  deriving DecidableEq

structure TransmitInput where
  owed : Option Acknowledgement
  sequence : UInt8
  autoFcs : Bool
  /-- The next octet in the frame buffer, if it has one. -/
  next : Option UInt8
  deriving DecidableEq

structure TransmitOutput where
  octet : UInt8
  consumed : Bool
  /-- The sequence number of an acknowledgement went out. -/
  acknowledged : Bool
  /-- There was no octet to take, so a zero was sent. -/
  underrun : Bool
  finished : Bool
  deriving DecidableEq

structure TransmitFramer where
  phase : TransmitPhase
  /-- Octets sent of the preamble, then of the frame. -/
  counter : UInt8
  length : UInt8
  /-- Octets of the frame before its check octets. -/
  payload : UInt8
  crc : UInt16
  isAck : Bool
  deriving DecidableEq

namespace TransmitOutput

def silent : TransmitOutput := ⟨0, false, false, false, false⟩

def send (b : UInt8) : TransmitOutput := { silent with octet := b }

def relay : Option UInt8 → TransmitOutput
  | some b => { silent with octet := b, consumed := true }
  | none => { silent with underrun := true }

end TransmitOutput

namespace TransmitFramer

def start : TransmitFramer := ⟨.preamble, 0, 0, 0, 0, false⟩

/-- The octets of an acknowledgement: frame control, a zero, the sequence number. -/
def ackOctet (counter : UInt8) (i : TransmitInput) : TransmitOutput :=
  match counter with
  | 0 => .send (if i.owed = some .pending then 0x12 else 0x02)
  | 2 => { TransmitOutput.send i.sequence with acknowledged := true }
  | _ => .send 0

variable (f : TransmitFramer) (i : TransmitInput)

def stepPreamble : TransmitFramer × TransmitOutput :=
  let counter := f.counter + 1
  ({ f with counter, phase := if preambleLength ≤ counter then .delimiter else .preamble }, .silent)

def stepLength : TransmitFramer × TransmitOutput :=
  let out := if i.owed.isSome then .send ackLength else .relay i.next
  let payload := if i.autoFcs then withoutFcs out.octet else out.octet
  let phase := if payload ≠ 0 then .inPacket else if i.autoFcs then .check1 else .done
  ({ phase, counter := 0, length := out.octet, payload, crc := 0, isAck := i.owed.isSome }, out)

def stepInPacket : TransmitFramer × TransmitOutput :=
  let out := if f.isAck then ackOctet f.counter i else .relay i.next
  let counter := f.counter + 1
  if i.autoFcs then
    ({ f with
        counter
        crc := Crc.feed f.crc out.octet
        phase := if f.payload ≤ counter then .check1 else .inPacket }, out)
  else ({ f with counter, phase := if f.length ≤ counter then .done else .inPacket }, out)

def advance : TransmitFramer × TransmitOutput :=
  match f.phase with
  | .preamble => f.stepPreamble
  | .delimiter => ({ f with phase := .length }, .send startDelimiter)
  | .length => stepLength i
  | .inPacket => f.stepInPacket i
  | .check1 => ({ f with phase := .check2 }, .send (Crc.first f.crc))
  | .check2 => ({ f with phase := .done }, .send (Crc.second f.crc))
  | .done => (f, .silent)

/-- One octet on air. The last one is marked as such, and silence follows. -/
def step : TransmitFramer × TransmitOutput :=
  if f.phase = .done then (f, .silent)
  else
    let (f', out) := f.advance i
    (f', { out with finished := f'.phase = .done })

def run (f : TransmitFramer) : List TransmitInput → TransmitFramer × List TransmitOutput
  | [] => (f, [])
  | i :: is => ((run (f.step i).1 is).1, (f.step i).2 :: (run (f.step i).1 is).2)

end TransmitFramer

end Transceiver
