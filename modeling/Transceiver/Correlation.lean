import Transceiver.RandomWords

/-!
# Link quality

A frame that was received is followed by its correlation value. The value is drawn evenly from a
range that the packet error rate decides: `correlationRanges` has the lowest and highest value for
each whole percentage.
-/

namespace Transceiver

structure CorrelationRange where
  low : UInt8
  high : UInt8
  deriving DecidableEq

def correlationRanges : Vector CorrelationRange 101 := #v[
  ⟨95, 110⟩, ⟨95, 109⟩, ⟨94, 109⟩, ⟨91, 109⟩, ⟨90, 107⟩, ⟨90, 107⟩, ⟨89, 107⟩, ⟨89, 107⟩, ⟨89, 107⟩,
  ⟨88, 107⟩, ⟨88, 107⟩, ⟨88, 107⟩, ⟨82, 103⟩, ⟨82, 102⟩, ⟨82, 102⟩, ⟨82, 102⟩, ⟨76, 101⟩, ⟨76, 101⟩,
  ⟨76, 101⟩, ⟨76, 101⟩, ⟨76, 99⟩, ⟨76, 94⟩, ⟨74, 92⟩, ⟨74, 94⟩, ⟨74, 101⟩, ⟨74, 97⟩, ⟨74, 98⟩,
  ⟨74, 97⟩, ⟨72, 97⟩, ⟨72, 97⟩, ⟨72, 97⟩, ⟨72, 97⟩, ⟨72, 94⟩, ⟨72, 94⟩, ⟨72, 94⟩, ⟨72, 94⟩,
  ⟨69, 94⟩, ⟨69, 94⟩, ⟨69, 94⟩, ⟨69, 94⟩, ⟨69, 94⟩, ⟨69, 94⟩, ⟨69, 94⟩, ⟨69, 94⟩, ⟨69, 92⟩,
  ⟨69, 89⟩, ⟨69, 89⟩, ⟨69, 89⟩, ⟨69, 89⟩, ⟨69, 89⟩, ⟨69, 88⟩, ⟨69, 88⟩, ⟨69, 88⟩, ⟨69, 88⟩,
  ⟨69, 88⟩, ⟨69, 86⟩, ⟨67, 86⟩, ⟨67, 86⟩, ⟨67, 86⟩, ⟨67, 86⟩, ⟨67, 86⟩, ⟨67, 86⟩, ⟨65, 86⟩,
  ⟨65, 86⟩, ⟨65, 85⟩, ⟨65, 85⟩, ⟨65, 85⟩, ⟨65, 85⟩, ⟨65, 85⟩, ⟨64, 85⟩, ⟨64, 83⟩, ⟨63, 83⟩,
  ⟨63, 83⟩, ⟨63, 83⟩, ⟨63, 83⟩, ⟨63, 83⟩, ⟨63, 83⟩, ⟨63, 83⟩, ⟨63, 79⟩, ⟨63, 78⟩, ⟨61, 78⟩,
  ⟨61, 78⟩, ⟨61, 78⟩, ⟨60, 78⟩, ⟨60, 76⟩, ⟨60, 76⟩, ⟨58, 76⟩, ⟨58, 74⟩, ⟨56, 74⟩, ⟨56, 74⟩,
  ⟨56, 74⟩, ⟨55, 74⟩, ⟨55, 74⟩, ⟨55, 74⟩, ⟨50, 74⟩, ⟨50, 74⟩, ⟨50, 74⟩, ⟨50, 66⟩, ⟨50, 65⟩,
  ⟨50, 65⟩, ⟨50, 65⟩]

/-- The percentage of a rate, with the fraction dropped; what is below 0, above 100 or no number
counts as the nearest end, the last as 0. -/
def percentage (rate : Float) : Fin 101 :=
  ⟨min (rate * 100).toUInt64.toNat 100, by omega⟩

def CorrelationRange.pick (r : CorrelationRange) (word : UInt64) : UInt8 :=
  let count := r.high.toUInt32 - r.low.toUInt32 + 1
  let offset := (count.toFloat * unitInterval word).toUInt32
  (r.low.toUInt32 + min offset (count - 1)).toUInt8

def drawCorrelation {G : Type} [RandomWords G] (rate : Float) (g : G) : UInt8 × G :=
  let (word, g') := RandomWords.next g
  (correlationRanges[percentage rate].pick word, g')

end Transceiver
