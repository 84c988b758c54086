import Transceiver.Control
import Transceiver.RegisterBus

/-!
# The transceiver in data memory

The transceiver inside the microcontroller. Its registers and its frame buffer each have a window in
the data memory, and one more cell holds the sleep and reset lines. The window on the frame buffer
begins with the length octet of a frame that the node put there, but behind the one of a frame off
the air, whose length is in a register.
-/

namespace Transceiver

inductive AddressError where
  | unmapped (address : UInt16)
  deriving DecidableEq

def hexDigits (address : UInt16) : String :=
  let digits := Nat.toDigits 16 address.toNat
  String.ofList (List.replicate (4 - digits.length) '0' ++ digits)

def AddressError.message : AddressError → String
  | unmapped address =>
      "data address 0x" ++ hexDigits address ++ " is not mapped to the transceiver"

def Register.address (r : Register) : UInt16 := .ofNat (0x140 + r.val)

def FrameIndex.address (i : FrameIndex) : UInt16 := .ofNat (0x180 + i.val)

inductive Cell where
  /-- The sleep and reset lines. -/
  | lines
  | register (r : Register)
  | frame (index : FrameIndex)
  deriving DecidableEq

namespace Cell

def ofAddress? (address : UInt16) : Option Cell :=
  let a := address.toNat
  if a = 0x139 then some .lines
  else if 0x140 ≤ a ∧ a < 0x180 then some (.register (.ofNat (a - 0x140)))
  else if 0x180 ≤ a ∧ a < 0x200 then some (.frame (.ofNat (a - 0x180)))
  else none

theorem ofAddress?_register (r : Register) : ofAddress? r.address = some (.register r) := by
  have hr : r.val < 64 := r.isLt
  have haddress : r.address.toNat = 0x140 + r.val := by
    unfold Register.address
    rw [UInt16.toNat_ofNat']
    omega
  unfold ofAddress?
  simp only [haddress]
  rw [if_neg (by omega), if_pos (by omega), Nat.add_sub_cancel_left]
  exact congrArg (some ∘ register) (Fin.ext (Nat.mod_eq_of_lt hr))

theorem ofAddress?_frame (i : FrameIndex) : ofAddress? i.address = some (.frame i) := by
  have hi : i.val < 128 := i.isLt
  have haddress : i.address.toNat = 0x180 + i.val := by
    unfold FrameIndex.address
    rw [UInt16.toNat_ofNat']
    omega
  unfold ofAddress?
  simp only [haddress]
  rw [if_neg (by omega), if_neg (by omega), if_pos (by omega), Nat.add_sub_cancel_left]
  exact congrArg (some ∘ frame) (Fin.ext (Nat.mod_eq_of_lt hi))

end Cell

structure MappedRadio (G : Type) where
  chip : Chip G
  sleepLine : Bool

namespace MappedRadio

variable {G : Type}

def attach (c : Chip G) : MappedRadio G := ⟨c, false⟩

variable (m : MappedRadio G)

/-- The cell of the lines. The reset is a pulse and reads as zero. -/
def lines : UInt8 := if m.sleepLine then 0x02 else 0

/-- Drives both lines. The reset comes first; the sleep line counts when it changes. -/
def setLines (reset sleep : Bool) : MappedRadio G :=
  let chip := if reset then m.chip.reset else m.chip
  { chip := if m.sleepLine = sleep then chip else chip.sleepPin sleep
    sleepLine := sleep }

def writeLines (v : UInt8) : MappedRadio G := m.setLines (v &&& 0x01 != 0) (v &&& 0x02 != 0)

def frameOctet (index : FrameIndex) : UInt8 :=
  let start := if m.chip.buffer.received then 1 else 0
  ((m.chip.buffer.peek (start + index.val)).toOption).getD 0

def readCell : Cell → UInt8 × MappedRadio G
  | .lines => (m.lines, m)
  | .register r => ((m.chip.readRegister r).1, { m with chip := (m.chip.readRegister r).2 })
  | .frame index => (m.frameOctet index, m)

def writeCell (v : UInt8) : Cell → MappedRadio G
  | .lines => m.writeLines v
  | .register r => { m with chip := m.chip.writeRegister r v }
  | .frame index => { m with chip := (m.chip.uploadFrame index v).2 }

def read (address : UInt16) : Except AddressError UInt8 × MappedRadio G :=
  match Cell.ofAddress? address with
  | some cell => (.ok (m.readCell cell).1, (m.readCell cell).2)
  | none => (.error (.unmapped address), m)

def write (address : UInt16) (v : UInt8) : Except AddressError Unit × MappedRadio G :=
  match Cell.ofAddress? address with
  | some cell => (.ok (), m.writeCell v cell)
  | none => (.error (.unmapped address), m)

/-- What an address reads as, zero if it stands for nothing. -/
def load (address : UInt16) : UInt8 × MappedRadio G :=
  ((m.read address).1.toOption.getD 0, (m.read address).2)

/-- The length of a received frame is in its register and the rest of it in the window. -/
def readFrame (index : UInt8) : UInt8 × MappedRadio G :=
  let i := FrameIndex.ofByte index
  if m.chip.buffer.received then
    if i.val = 0 then m.load Register.tstRxLength.address
    else m.load (FrameIndex.ofNat (i.val - 1)).address
  else m.load i.address

def writeFrames (m : MappedRadio G) (index : FrameIndex) : List UInt8 → MappedRadio G
  | [] => m
  | v :: r => (m.write index.address v).2.writeFrames index.next r

instance : RegisterBus (MappedRadio G) where
  readRegister m r := m.load r.address
  writeRegister m r v := (m.write r.address v).2
  readFrame := readFrame
  writeFrame m index v := (m.write (FrameIndex.ofByte index).address v).2
  setSleep m level := m.writeLines (if level then m.lines ||| 0x02 else m.lines &&& ~~~0x02)
  setReset m asserted := if asserted then m.writeLines (m.lines ||| 0x01) else m
  upload m image := m.writeFrames (.ofNat 0) image

end MappedRadio

end Transceiver
