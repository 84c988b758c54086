/-!
# Events

What the transceiver can interrupt for. The status register has one bit for each cause, and the two
ends of a frame share theirs. The part built into the microcontroller has interrupt vectors of its
own; the stand-alone part pulls a single line, for which the board chooses the vector.
-/

namespace Transceiver

inductive Variant where
  /-- The stand-alone part on a serial bus. -/
  | at86rf231
  /-- The part built into a microcontroller, reached through its data memory. -/
  | atmega128rfa1
  deriving DecidableEq

inductive Event where
  | pllUnlock
  | rxStart
  | rxEnd
  | txEnd
  | addressMatch
  | underrun
  deriving DecidableEq

namespace Event

def statusBit : Event → UInt8
  | pllUnlock => 0x02
  | rxStart => 0x04
  | rxEnd | txEnd => 0x08
  | addressMatch => 0x20
  | underrun => 0x40

def builtinVector : Event → UInt8
  | pllUnlock => 58
  | rxStart => 60
  | rxEnd => 61
  | addressMatch => 63
  | txEnd | underrun => 64

/-- The vector to post for the event, if there is one; `line` is the one on the interrupt line. -/
def vector? (e : Event) (line : Option UInt8) : Variant → Option UInt8
  | .at86rf231 => line
  | .atmega128rfa1 => some e.builtinVector

end Event

end Transceiver
