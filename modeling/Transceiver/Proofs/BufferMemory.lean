import Transceiver.Proofs.BufferCells

/-!
# The frame buffer as a memory with two cursors

A `FrameMemory` is all that a user of the frame buffer has to know of it: 128 cells, how many of
them are written, and how many of those are taken. Every operation on a buffer answers what it
answers for the memory that the buffer stands for, and leaves the buffer that stands for what it
makes of that memory (`memory_perform`). No sequence of operations can tell the two apart, and what
is taken between two times that the buffer is emptied are the cells from the first on, each of them
once (`behaves_as_memory`).
-/

namespace Transceiver

inductive BufferOperation where
  | push (b : UInt8)
  | pop
  | front
  | peek (index : Nat)
  | poke (index : Nat) (b : UInt8)
  | upload (index : Nat) (b : UInt8)
  | clear
  | prepare

abbrev BufferAnswer := Except BufferError (Option UInt8)

namespace FrameBuffer

variable (f : FrameBuffer)

def perform : BufferOperation → BufferAnswer × FrameBuffer
  | .push b => ((f.push b).1.map fun _ => none, (f.push b).2)
  | .pop => (.ok f.pop.1, f.pop.2)
  | .front => (.ok f.front?, f)
  | .peek index => ((f.peek index).map some, f)
  | .poke index b => ((f.poke index b).1.map fun _ => none, (f.poke index b).2)
  | .upload index b => ((f.upload index b).1.map fun _ => none, (f.upload index b).2)
  | .clear => (.ok none, empty)
  | .prepare => (.ok none, forReception)

def run (f : FrameBuffer) : List BufferOperation → List BufferAnswer × FrameBuffer
  | [] => ([], f)
  | op :: ops =>
    let (answer, f) := f.perform op
    let (answers, f) := f.run ops
    (answer :: answers, f)

def poppedBy (cells : List Nat) : BufferOperation → List Nat
  | .pop => if f.front?.isSome then cells ++ [f.readPosition] else cells
  | .clear | .prepare => []
  | _ => cells

/-- The cells taken since the buffer was last emptied, in the order in which they were taken. -/
def poppedAlong (f : FrameBuffer) (cells : List Nat) : List BufferOperation → List Nat
  | [] => cells
  | op :: ops => (f.perform op).2.poppedAlong (f.poppedBy cells op) ops

end FrameBuffer

@[ext] structure FrameMemory where
  cells : FrameIndex → UInt8
  written : Nat
  taken : Nat
  taken_le : taken ≤ written
  written_le : written ≤ 128

namespace FrameMemory

def blank : FrameMemory := ⟨fun _ => 0, 0, 0, Nat.le_refl 0, Nat.zero_le 128⟩

variable (m : FrameMemory)

def octets : List UInt8 := (List.ofFn m.cells).take m.written

def push (b : UInt8) : Except BufferError Unit × FrameMemory :=
  if h : m.written < 128 then
    (.ok (), { m with
      cells := Function.update m.cells ⟨m.written, h⟩ b
      written := m.written + 1
      taken_le := Nat.le_succ_of_le m.taken_le
      written_le := h })
  else (.error .overflow, m)

def front? : Option UInt8 :=
  if h : m.taken < m.written then some (m.cells ⟨m.taken, Nat.lt_of_lt_of_le h m.written_le⟩)
  else none

def pop : Option UInt8 × FrameMemory :=
  (m.front?, if h : m.taken < m.written then { m with taken := m.taken + 1, taken_le := h } else m)

def peek (index : Nat) : Except BufferError UInt8 :=
  if h : index < 128 then .ok (m.cells ⟨index, h⟩) else .error (.outOfRange index)

def poke (index : Nat) (b : UInt8) : Except BufferError Unit × FrameMemory :=
  if h : index < 128 then
    (.ok (), { m with
      cells := Function.update m.cells ⟨index, h⟩ b
      written := max m.written (index + 1)
      taken_le := Nat.le_trans m.taken_le (Nat.le_max_left _ _)
      written_le := Nat.max_le.2 ⟨m.written_le, h⟩ })
  else (.error (.outOfRange index), m)

def perform : BufferOperation → BufferAnswer × FrameMemory
  | .push b => ((m.push b).1.map fun _ => none, (m.push b).2)
  | .pop => (.ok m.pop.1, m.pop.2)
  | .front => (.ok m.front?, m)
  | .peek index => ((m.peek index).map some, m)
  | .poke index b | .upload index b => ((m.poke index b).1.map fun _ => none, (m.poke index b).2)
  | .clear | .prepare => (.ok none, blank)

def run (m : FrameMemory) : List BufferOperation → List BufferAnswer × FrameMemory
  | [] => ([], m)
  | op :: ops =>
    let (answer, m) := m.perform op
    let (answers, m) := m.run ops
    (answer :: answers, m)

end FrameMemory

namespace FrameBuffer

variable {f : FrameBuffer}

def memory (f : FrameBuffer) (h : f.Fits) : FrameMemory :=
  ⟨f.cell, f.octets.length, f.readPosition, h.readPosition_le, h.length_le⟩

theorem Fits.perform (h : f.Fits) (op : BufferOperation) : (f.perform op).2.Fits := by
  cases op with
  | push b => exact h.push b
  | pop => exact h.pop
  | front | peek index => exact h
  | poke index b => exact h.poke index b
  | upload index b => exact h.upload index b
  | clear => exact fits_empty
  | prepare => exact fits_forReception

theorem Fits.run (h : f.Fits) (ops : List BufferOperation) : (f.run ops).2.Fits := by
  induction ops generalizing f with
  | nil => exact h
  | cons op ops ih => exact ih (h.perform op)

theorem memory_push (h : f.Fits) (b : UInt8) :
    (f.memory h).push b = ((f.push b).1, (f.push b).2.memory (h.push b)) := by
  unfold FrameMemory.push
  by_cases hroom : (f.memory h).written < 128
  · have hcells := f.cell_push hroom b
    have hpush := push_of_room hroom b
    rw [dif_pos hroom]
    refine Prod.ext (congrArg Prod.fst hpush).symm (FrameMemory.ext hcells.symm ?_ ?_)
    · simp only [memory, hpush, List.length_append, List.length_singleton]
    · simp only [memory, hpush]
  · have hpush : f.push b = (.error .overflow, f) := if_neg hroom
    rw [dif_neg hroom]
    simp only [hpush]

theorem memory_front? (h : f.Fits) : (f.memory h).front? = f.front? := by
  unfold FrameMemory.front? front?
  by_cases hlt : (f.memory h).taken < (f.memory h).written
  · rw [dif_pos hlt]
    exact (f.getElem?_octets (i := ⟨f.readPosition, _⟩) hlt).symm
  · rw [dif_neg hlt]
    exact (List.getElem?_eq_none (Nat.le_of_not_lt hlt)).symm

theorem memory_pop (h : f.Fits) : (f.memory h).pop = (f.pop.1, f.pop.2.memory h.pop) := by
  unfold FrameMemory.pop
  rw [memory_front?, fst_pop]
  by_cases hlt : (f.memory h).taken < (f.memory h).written
  · have htaken : f.readPosition < f.octets.length := hlt
    rw [dif_pos hlt]
    simp only [snd_pop, if_pos htaken]
    rfl
  · have htaken : ¬f.readPosition < f.octets.length := hlt
    rw [dif_neg hlt]
    simp only [snd_pop, if_neg htaken]
    rfl

theorem memory_peek (h : f.Fits) (index : Nat) : (f.memory h).peek index = f.peek index := by
  unfold FrameMemory.peek
  by_cases hi : index < 128
  · rw [dif_pos hi]
    exact (f.peek_eq_cell ⟨index, hi⟩).symm
  · rw [dif_neg hi]
    exact (if_neg hi).symm

theorem memory_poke (h : f.Fits) (index : Nat) (b : UInt8) :
    (f.memory h).poke index b = ((f.poke index b).1, (f.poke index b).2.memory (h.poke index b)) := by
  unfold FrameMemory.poke
  by_cases hi : index < 128
  · have hcells := f.cell_poke ⟨index, hi⟩ b
    have hlength := f.length_poke ⟨index, hi⟩ b
    rw [dif_pos hi]
    refine Prod.ext (congrArg Prod.fst (poke_of_lt hi b)).symm
      (FrameMemory.ext hcells.symm hlength.symm ?_)
    simp only [memory, poke_of_lt hi]
  · have hpoke : f.poke index b = (.error (.outOfRange index), f) := if_neg hi
    rw [dif_neg hi]
    simp only [hpoke]

theorem memory_upload (h : f.Fits) (index : Nat) (b : UInt8) : (f.memory h).poke index b =
    ((f.upload index b).1, (f.upload index b).2.memory (h.upload index b)) :=
  memory_poke (f := { f with received := false }) ⟨h.length_le, h.readPosition_le⟩ index b

/-- An operation does to the memory that a buffer stands for what it does to the buffer. -/
theorem memory_perform (h : f.Fits) (op : BufferOperation) :
    (f.memory h).perform op = ((f.perform op).1, (f.perform op).2.memory (h.perform op)) := by
  cases op with
  | push b => simp only [FrameMemory.perform, perform, memory_push]
  | pop => simp only [FrameMemory.perform, perform, memory_pop]
  | front => simp only [FrameMemory.perform, perform, memory_front?]
  | peek index => simp only [FrameMemory.perform, perform, memory_peek]
  | poke index b => simp only [FrameMemory.perform, perform, memory_poke]
  | upload index b => simp only [FrameMemory.perform, perform, memory_upload]
  | clear => rfl
  | prepare => rfl

theorem memory_run (h : f.Fits) (ops : List BufferOperation) :
    (f.memory h).run ops = ((f.run ops).1, (f.run ops).2.memory (h.run ops)) := by
  induction ops generalizing f with
  | nil => rfl
  | cons op ops ih => simp only [FrameMemory.run, run, memory_perform, ih (h.perform op)]

/-! ### The order in which cells are taken -/

theorem poppedBy_range (op : BufferOperation) :
    f.poppedBy (List.range f.readPosition) op = List.range (f.perform op).2.readPosition := by
  cases op with
  | push b =>
    simp only [poppedBy, perform, push]
    split
    · rfl
    · rfl
  | pop =>
    simp only [poppedBy, perform, snd_pop, front?, isSome_getElem?]
    split
    · exact List.range_succ.symm
    · rfl
  | front | peek index => rfl
  | poke index b | upload index b =>
    simp only [poppedBy, perform, upload, poke]
    split
    · rfl
    · rfl
  | clear | prepare => rfl

theorem poppedAlong_range (ops : List BufferOperation) :
    f.poppedAlong (List.range f.readPosition) ops = List.range (f.run ops).2.readPosition := by
  induction ops generalizing f with
  | nil => rfl
  | cons op ops ih => simp only [poppedAlong, run, poppedBy_range, ih]

/-- Whatever is done to a frame buffer that was empty, it answers as the memory does and holds the
written cells of the memory. There are never more than 128 of these, and never are more of them
taken than there are. The cells taken since it was last emptied are the first ones, in order and
each of them once. -/
theorem behaves_as_memory (ops : List BufferOperation) :
    let f := empty.run ops
    let m := FrameMemory.blank.run ops
    f.1 = m.1 ∧ f.2.octets = m.2.octets ∧ f.2.octets.length = m.2.written ∧
      f.2.readPosition = m.2.taken ∧ f.2.remaining + f.2.readPosition = f.2.octets.length ∧
      f.2.octets.length ≤ capacity ∧ empty.poppedAlong [] ops = List.range m.2.taken := by
  intro f m
  have hf : f.2.Fits := fits_empty.run ops
  have hm : m = (f.1, f.2.memory hf) := memory_run fits_empty ops
  rw [hm]
  exact ⟨rfl, hf.octets_eq, rfl, rfl, Nat.sub_add_cancel hf.readPosition_le, hf.length_le,
    poppedAlong_range (f := empty) ops⟩

end FrameBuffer

end Transceiver
