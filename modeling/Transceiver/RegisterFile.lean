import Transceiver.Register

/-!
# The register file

The contents of the 64 registers and the fields of them that the transceiver reads. Reading is free
of effects except for the interrupt status, which a read by the microcontroller acknowledges.
`get_set` describes writing through `get`.
-/

namespace Transceiver

structure RegisterFile where
  cells : Vector UInt8 64
  deriving DecidableEq

namespace RegisterFile

def reset (ieee : Vector UInt8 8) : RegisterFile :=
  ⟨Vector.ofFn fun r : Register =>
    if h : 0x24 ≤ r.val ∧ r.val < 0x2C then ieee[r.val - 0x24] else r.resetValue⟩

variable (f : RegisterFile)

def get (r : Register) : UInt8 := f.cells[r]

def set (r : Register) (v : UInt8) : RegisterFile := ⟨f.cells.set r v⟩

def modify (r : Register) (g : UInt8 → UInt8) : RegisterFile := f.set r (g (f.get r))

/-- A read by the microcontroller, which clears the interrupt status. -/
def read (r : Register) : UInt8 × RegisterFile :=
  (f.get r, if r = .irqStatus then f.set r 0 else f)

def getMany (n : Nat) (start : Register) : Vector UInt8 n :=
  Vector.ofFn fun i => f.get (start.plus i.val)

@[simp] theorem get_set_self (r : Register) (v : UInt8) : (f.set r v).get r = v := by
  simp [get, set]

theorem get_set_of_ne {r s : Register} (v : UInt8) (h : r ≠ s) :
    (f.set r v).get s = f.get s := by
  have : r.val ≠ s.val := fun e => h (Fin.ext e)
  simp [get, set, this]

theorem get_set (r s : Register) (v : UInt8) :
    (f.set r v).get s = if r = s then v else f.get s := by
  by_cases h : r = s
  · simp [h]
  · simp [h, f.get_set_of_ne v h]

theorem get_modify (r s : Register) (g : UInt8 → UInt8) :
    (f.modify r g).get s = if r = s then g (f.get s) else f.get s := by
  rw [modify, get_set]
  split
  · rename_i h
    rw [h]
  · rfl

theorem get_reset (ieee : Vector UInt8 8) (r : Register) (h : ¬(0x24 ≤ r.val ∧ r.val < 0x2C)) :
    (reset ieee).get r = r.resetValue := by
  simp [get, reset, h]

/-! ### Fields -/

/-- The transmitter appends and the receiver checks the frame check sequence. -/
def autoFcs : Bool := f.get .trxCtrl1 &&& 0x20 != 0

/-- Masked interrupts are recorded in the interrupt status nevertheless. -/
def recordMasked : Bool := f.get .trxCtrl1 &&& 0x02 != 0

def unmasked (bit : UInt8) : Bool := f.get .irqMask &&& bit != 0

def channel : UInt8 := f.get .phyCcCca &&& 0x1F

def powerSetting : Fin 16 := Fin.ofNat 16 (f.get .phyTxPwr).toNat

/-- This node coordinates its network and takes frames that are not addressed to it. -/
def isCoordinator : Bool := f.get .csmaSeed1 &&& 0x08 != 0

def ackDisabled : Bool := f.get .csmaSeed1 &&& 0x10 != 0

def ackPending : Bool := f.get .csmaSeed1 &&& 0x20 != 0

def setRssi (rssi : UInt8) : RegisterFile :=
  f.modify .phyRssi fun v => (v &&& 0xE0) ||| rssi

def setOutcome (outcome : UInt8) : RegisterFile :=
  f.modify .trxState fun v => (v &&& 0x1F) ||| outcome

end RegisterFile

end Transceiver
