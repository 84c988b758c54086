/-!
# Bit errors of a frame

While a frame comes in, the medium tells the bit error rate of every octet. From the octets after
the synchronisation header the statistics give the probability that the frame is damaged, and
answering it starts them over.
-/

namespace Transceiver

structure BitErrors where
  /-- Octets reported so far, which wrap around at 32 bits. -/
  count : UInt32
  total : Float

namespace BitErrors

def headerLength : UInt32 := 5

def empty : BitErrors := ⟨0, 0⟩

def record (e : BitErrors) (rate : Float) : BitErrors where
  count := e.count + 1
  total := if headerLength < e.count + 1 then e.total + rate else e.total

def recordMany (e : BitErrors) (rate : Float) : Nat → BitErrors
  | 0 => e
  | n + 1 => recordMany (e.record rate) rate n

/-- Probability that some bit of the counted octets is wrong, if bits fail independently at the mean
rate. -/
def packetErrorRate (e : BitErrors) : Float :=
  if headerLength < e.count then
    let octets := e.count - headerLength
    1 - (1 - e.total / octets.toFloat).pow (octets * 8).toFloat
  else 0

def take (e : BitErrors) : Float × BitErrors := (e.packetErrorRate, empty)

end BitErrors

end Transceiver
