/-!
# The frame buffer

The single buffer of 128 octets that holds a frame, its length octet at index 0. It is a queue for
streaming, with octets appended at the end and taken from a read position, and at the same time a
memory in which every cell can be read and written. `Fits` is the shape that every operation keeps:
no more than 128 octets, and the read position among them.
-/

namespace Transceiver

inductive BufferError where
  | overflow
  | outOfRange (index : Nat)
  deriving DecidableEq

def BufferError.message : BufferError → String
  | overflow => "frame buffer is full"
  | outOfRange index => "frame buffer index " ++ toString index ++ " is out of range"

structure FrameBuffer where
  octets : List UInt8
  readPosition : Nat
  /-- The contents came off the air rather than from the microcontroller. -/
  received : Bool
  deriving DecidableEq

abbrev FrameIndex := Fin 128

namespace FrameIndex

/-- Address bits above the seventh are not decoded. -/
def ofNat (n : Nat) : FrameIndex := Fin.ofNat 128 n

def ofByte (b : UInt8) : FrameIndex := ofNat b.toNat

def next (i : FrameIndex) : FrameIndex := ofNat (i.val + 1)

end FrameIndex

namespace FrameBuffer

def capacity : Nat := 128

def empty : FrameBuffer := ⟨[], 0, false⟩

def forReception : FrameBuffer := { empty with received := true }

variable (f : FrameBuffer)

def remaining : Nat := f.octets.length - f.readPosition

def push (b : UInt8) : Except BufferError Unit × FrameBuffer :=
  if f.octets.length < capacity then (.ok (), { f with octets := f.octets ++ [b] })
  else (.error .overflow, f)

def front? : Option UInt8 := f.octets[f.readPosition]?

def pop : Option UInt8 × FrameBuffer :=
  match f.front? with
  | some b => (some b, { f with readPosition := f.readPosition + 1 })
  | none => (none, f)

def popMany (f : FrameBuffer) : Nat → List (Option UInt8) × FrameBuffer
  | 0 => ([], f)
  | n + 1 => (f.pop.1 :: (popMany f.pop.2 n).1, (popMany f.pop.2 n).2)

def peek (index : Nat) : Except BufferError UInt8 :=
  if index < capacity then .ok (f.octets.getD index 0) else .error (.outOfRange index)

/-- Writes a cell. Cells skipped on the way become written zeros. -/
def poke (index : Nat) (b : UInt8) : Except BufferError Unit × FrameBuffer :=
  if index < capacity then
    let filled := f.octets ++ List.replicate (index + 1 - f.octets.length) 0
    (.ok (), { f with octets := filled.set index b })
  else (.error (.outOfRange index), f)

/-- A write by the microcontroller, after which the buffer no longer holds a frame off the air,
whether or not there is such a cell. -/
def upload (index : Nat) (b : UInt8) : Except BufferError Unit × FrameBuffer :=
  poke { f with received := false } index b

structure Fits : Prop where
  length_le : f.octets.length ≤ capacity
  readPosition_le : f.readPosition ≤ f.octets.length

theorem fits_empty : Fits empty := ⟨Nat.zero_le _, Nat.le_refl _⟩

theorem fits_forReception : Fits forReception := ⟨Nat.zero_le _, Nat.le_refl _⟩

variable {f}

theorem Fits.push (h : f.Fits) (b : UInt8) : (f.push b).2.Fits := by
  have hl := h.length_le
  have hr := h.readPosition_le
  unfold FrameBuffer.push
  split
  · constructor <;> simp <;> omega
  · exact h

theorem Fits.pop (h : f.Fits) : f.pop.2.Fits := by
  unfold FrameBuffer.pop
  split
  · rename_i hb
    obtain ⟨hlt, -⟩ := List.getElem?_eq_some_iff.1 hb
    exact ⟨h.length_le, hlt⟩
  · exact h

theorem Fits.poke (h : f.Fits) (index : Nat) (b : UInt8) : (f.poke index b).2.Fits := by
  have hl := h.length_le
  have hr := h.readPosition_le
  unfold FrameBuffer.poke
  split
  · constructor <;> simp <;> omega
  · exact h

theorem Fits.upload (h : f.Fits) (index : Nat) (b : UInt8) : (f.upload index b).2.Fits := by
  have hf : Fits { f with received := false } := ⟨h.length_le, h.readPosition_le⟩
  exact hf.poke index b

end FrameBuffer

end Transceiver
