/-!
# The frame check sequence

A frame ends in two octets computed from the ones before it. The engine is a 16-bit shift register
with the polynomial `x ^ 16 + x ^ 12 + x ^ 5 + 1`, preset to zero, that is clocked with the bits of
each octet from the least significant one on. The register itself shifts towards its top bit, so
an octet is turned around on its way in and both octets of the result on their way out.
-/

namespace Transceiver

def reverseBits (b : UInt8) : UInt8 := ⟨b.toBitVec.reverse⟩

theorem reverseBits_reverseBits (b : UInt8) : reverseBits (reverseBits b) = b := by
  cases b with
  | ofBitVec v => simp [reverseBits]

namespace Crc

def polynomial : UInt16 := 0x1021

def shift (crc : UInt16) : UInt16 :=
  if crc &&& 0x8000 = 0 then crc <<< 1 else (crc <<< 1) ^^^ polynomial

def shifts : Nat → UInt16 → UInt16
  | 0, crc => crc
  | n + 1, crc => shifts n (shift crc)

def feed (crc : UInt16) (b : UInt8) : UInt16 :=
  shifts 8 (crc ^^^ ((reverseBits b).toUInt16 <<< 8))

def ofList (octets : List UInt8) : UInt16 := octets.foldl feed 0

/-- The registers passed on the way, one after each octet. -/
def trace : UInt16 → List UInt8 → List UInt16
  | _, [] => []
  | crc, b :: r => feed crc b :: trace (feed crc b) r

def first (crc : UInt16) : UInt8 := reverseBits (crc >>> 8).toUInt8

def second (crc : UInt16) : UInt8 := reverseBits crc.toUInt8

/-- The check octets in the order of transmission. -/
def octets (crc : UInt16) : List UInt8 := [first crc, second crc]

def accepts (crc : UInt16) (a b : UInt8) : Bool := first crc == a && second crc == b

@[simp] theorem ofList_nil : ofList [] = 0 := rfl

theorem ofList_concat (l : List UInt8) (b : UInt8) : ofList (l ++ [b]) = feed (ofList l) b := by
  simp [ofList]

theorem accepts_iff (crc : UInt16) (a b : UInt8) :
    accepts crc a b = true ↔ octets crc = [a, b] := by
  simp [accepts, octets]

@[simp] theorem accepts_first_second (crc : UInt16) :
    accepts crc (first crc) (second crc) = true := (accepts_iff _ _ _).2 rfl

end Crc

end Transceiver
