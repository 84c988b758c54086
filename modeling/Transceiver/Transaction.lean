import Transceiver.Control

/-!
# Transactions on the serial bus

Selecting the chip opens a transaction. Its first octet says what is accessed, and every octet
exchanged after it carries data in one direction or the other. A register access is over after one
data octet; the frame buffer is streamed; the memory access takes an address first and then runs on
from there, around the end. The chip shifts out one octet for each that it shifts in.
-/

namespace Transceiver

inductive Access where
  | readRegister (r : Register)
  | writeRegister (r : Register)
  | readFrame
  | writeFrame
  | readMemory
  | writeMemory
  deriving DecidableEq

namespace Access

/-- Bit 7 of the command octet selects the registers, bit 5 the frame buffer stream and bit 6 the
direction; the register address is in the low six bits. -/
def ofByte (b : UInt8) : Access :=
  let isWrite := b &&& 0x40 != 0
  if b &&& 0x80 != 0 then
    if isWrite then writeRegister (.ofByte b) else readRegister (.ofByte b)
  else if b &&& 0x20 != 0 then
    if isWrite then writeFrame else readFrame
  else if isWrite then writeMemory else readMemory

def registerByte (r : Register) : UInt8 := UInt8.ofNat r.val

def toByte : Access → UInt8
  | readRegister r => 0x80 ||| registerByte r
  | writeRegister r => 0xC0 ||| registerByte r
  | readFrame => 0x20
  | writeFrame => 0x60
  | readMemory => 0x00
  | writeMemory => 0x40

theorem ofByte_toByte (a : Access) : ofByte a.toByte = a := by
  cases a with
  | readRegister r => revert r; decide
  | writeRegister r => revert r; decide
  | _ => rfl

end Access

inductive Stage where
  | command
  /-- The octet after the command comes next. -/
  | first (access : Access)
  | later (access : Access)
  deriving DecidableEq

structure Transaction where
  stage : Stage
  /-- Where the memory access goes on. It outlives the transaction. -/
  address : FrameIndex
  deriving DecidableEq

namespace Transaction

variable {G : Type} (t : Transaction)

def initial : Transaction := ⟨.command, .ofNat 0⟩

def restart : Transaction := { t with stage := .command }

def access? : Option Access :=
  match t.stage with
  | .command => none
  | .first a | .later a => some a

/-- The memory access moves on by one cell, from the last to the first. -/
def moveOn : Transaction := { t with address := t.address.next }

def exchangeRead (c : Chip G) : UInt8 × Transaction × Chip G :=
  ((c.popFrame.1).getD 0, t, c.popFrame.2)

def exchangeFirst (c : Chip G) (b : UInt8) : Access → UInt8 × Transaction × Chip G
  | .readRegister r => ((c.readRegister r).1, t, (c.readRegister r).2)
  | .writeRegister r => (0, t, c.writeRegister r b)
  | .readFrame => t.exchangeRead c
  | .writeFrame => (0, t, (c.pushFrame b).2)
  | .readMemory | .writeMemory => (0, { t with address := .ofByte b }, c)

def exchangeLater (c : Chip G) (b : UInt8) : Access → UInt8 × Transaction × Chip G
  | .readRegister _ | .writeRegister _ => (0, t, c)
  | .readFrame => t.exchangeRead c
  | .writeFrame => (0, t, (c.pushFrame b).2)
  | .readMemory => (c.buffer.octets.getD t.address 0, t.moveOn, c)
  | .writeMemory => (0, t.moveOn, (c.uploadFrame t.address b).2)

def exchange (c : Chip G) (b : UInt8) : UInt8 × Transaction × Chip G :=
  match t.stage with
  | .command => (0, { t with stage := .first (.ofByte b) }, c)
  | .first a => { t with stage := .later a }.exchangeFirst c b a
  | .later a => t.exchangeLater c b a

end Transaction

end Transceiver
