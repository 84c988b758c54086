import Transceiver.Event
import Transceiver.TransmitFramer

/-!
# The receive framer

Looks for the end of a preamble and the start delimiter in the octets off the air and takes the
frame behind them apart. It touches nothing itself: every step gives the effects it asks for, in
order, and whoever carries them out may tell the framer to pass over the rest of the frame. `step`
is one octet and `run` many.
-/

namespace Transceiver

inductive ReceivePhase where
  | scanning
  /-- The octet before was a zero. -/
  | matched1
  /-- The start delimiter is complete and the length comes next. -/
  | matched2
  | inPacket
  | check1
  | check2
  /-- The frame was complete with the octet before. -/
  | done
  /-- The frame buffer was full. -/
  | overflow
  /-- The rest of a refused frame passes. -/
  | waiting
  deriving DecidableEq

structure ReceiveInput where
  octet : UInt8
  carrier : Bool
  autoFcs : Bool
  deriving DecidableEq

inductive ReceiveEffect where
  | raise (event : Event)
  /-- A frame of this length begins. -/
  | frameStart (length : UInt8)
  | push (octet : UInt8)
  /-- The filter is to look at the frame up to this offset. -/
  | filterCheck (offset : Nat)
  /-- The frame is there, with the verdict on its check octets if they were checked. -/
  | frameComplete (valid : Option Bool)
  /-- The first octet after a complete frame passed. -/
  | endOfFrame (carrier : Bool)
  /-- A refused frame is over. -/
  | discarded
  deriving DecidableEq

structure ReceiveOutput where
  /-- The octet heard, which passes unchanged. -/
  octet : UInt8
  effects : List ReceiveEffect
  deriving DecidableEq

structure ReceiveFramer where
  phase : ReceivePhase
  counter : UInt8
  length : UInt8
  crc : UInt16
  /-- The first of the check octets received. -/
  firstCheck : UInt8
  deriving DecidableEq

/-- The offsets at which the filter is asked. -/
def checkOffsets : List Nat := [1, 3, 5, 7, 13]

namespace ReceiveFramer

def start : ReceiveFramer := ⟨.scanning, 0, 0, 0, 0⟩

variable (f : ReceiveFramer)

def reject : ReceiveFramer := { f with phase := .waiting }

def overflow : ReceiveFramer := { f with phase := .overflow }

def loseCarrier : ReceiveFramer × List ReceiveEffect :=
  match f.phase with
  | .matched2 | .inPacket | .check1 | .check2 =>
      ({ f with phase := .scanning }, [.raise .pllUnlock, .raise .rxStart])
  | .matched1 => ({ f with phase := .scanning }, [.raise .rxStart])
  | .waiting => ({ f with phase := .scanning }, [.discarded])
  | _ => (f, [])

def scan (b : UInt8) : ReceiveFramer × List ReceiveEffect :=
  ({ f with phase := if b = 0 then .matched1 else .scanning }, [])

/-- The octet after the start delimiter, whose low seven bits are the length. A frame that has no
room for its check octets is none. -/
def openFrame (b : UInt8) (autoFcs : Bool) : ReceiveFramer × List ReceiveEffect :=
  let length := b &&& 0x7F
  let fcsLength : UInt8 := if autoFcs then 2 else 0
  if length = 0 ∨ length < fcsLength then ({ f with phase := .scanning }, [])
  else
    let phase := if length = fcsLength then .check1 else .inPacket
    ({ f with phase, length, counter := 0, crc := 0 }, [.frameStart length])

def takeOctet (b : UInt8) (autoFcs : Bool) : ReceiveFramer × List ReceiveEffect :=
  let counter := f.counter + 1
  let offset := counter.toNat
  let stored := .push b :: if offset ∈ checkOffsets then [.filterCheck offset] else []
  if autoFcs then
    ({ f with
        counter
        crc := Crc.feed f.crc b
        phase := if withoutFcs f.length ≤ counter then .check1 else .inPacket }, stored)
  else if f.length ≤ counter then
    ({ f with counter, phase := .done }, stored ++ [.frameComplete none])
  else ({ f with counter }, stored)

def passOver : ReceiveFramer × List ReceiveEffect :=
  let counter := if f.counter = 255 then 255 else f.counter + 1
  if f.length ≤ counter then ({ f with counter, phase := .scanning }, [.discarded])
  else ({ f with counter }, [])

def hear (b : UInt8) (autoFcs : Bool) : ReceiveFramer × List ReceiveEffect :=
  match f.phase with
  | .scanning => f.scan b
  | .matched1 =>
      if b = startDelimiter then ({ f with phase := .matched2 }, [.raise .rxStart]) else f.scan b
  | .matched2 => f.openFrame b autoFcs
  | .inPacket => f.takeOctet b autoFcs
  | .check1 => ({ f with phase := .check2, firstCheck := b }, [.push b])
  | .check2 =>
      ({ f with phase := .done },
        [.push b, .frameComplete (some (Crc.accepts f.crc f.firstCheck b))])
  | .waiting => f.passOver
  | .done | .overflow => (f, [])

/-- One octet. The one after a complete frame only ends it. -/
def step (i : ReceiveInput) : ReceiveFramer × ReceiveOutput :=
  let (f', effects) :=
    if f.phase = .done then ({ f with phase := .scanning }, [.endOfFrame i.carrier])
    else if i.carrier then f.hear i.octet i.autoFcs
    else f.loseCarrier
  (f', ⟨i.octet, effects⟩)

def run (f : ReceiveFramer) : List ReceiveInput → ReceiveFramer × List ReceiveOutput
  | [] => (f, [])
  | i :: is => ((run (f.step i).1 is).1, (f.step i).2 :: (run (f.step i).1 is).2)

end ReceiveFramer

end Transceiver
