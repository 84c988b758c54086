/-!
# Received signal strength

The strength register counts steps of 3 dB, with 1 standing for -90 dBm, 0 for anything weaker and
28 for the strongest signals.
-/

namespace Transceiver

def maxRssi : UInt8 := 28

/-- The reading that a running receiver shows once it has settled. -/
def settledRssi : UInt8 := 20

/-- The reading for a received power, taken to the nearest whole dBm with halves away from zero.
Powers beyond the range of 32-bit integers count as its ends and a power that is no number as 0. The
sums are of 32 bits too. -/
def rssiOfDbm (dbm : Float) : UInt8 :=
  let steps := (dbm.round.toInt32 + 90) / 3 + 1
  UInt8.ofNat (min steps.toNatClampNeg maxRssi.toNat)

def dbmOfRssi (rssi : UInt8) : Int := -90 + 3 * (((rssi &&& 0x1F).toNat : Int) - 1)

theorem rssiOfDbm_le (dbm : Float) : rssiOfDbm dbm ≤ maxRssi := by
  have hmax : maxRssi.toNat < 2 ^ 8 := maxRssi.toNat_lt
  have hle : min ((dbm.round.toInt32 + 90) / 3 + 1).toNatClampNeg maxRssi.toNat ≤ maxRssi.toNat :=
    Nat.min_le_right _ _
  rw [rssiOfDbm, UInt8.le_iff_toNat_le, UInt8.toNat_ofNat_of_lt' (Nat.lt_of_le_of_lt hle hmax)]
  exact hle

end Transceiver
