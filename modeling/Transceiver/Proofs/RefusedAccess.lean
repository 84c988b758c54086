import Transceiver.Proofs.BufferMemory

/-!
# Refused accesses to the frame buffer

An octet for which there is no room, or no cell, is refused with an error, and `refusal?` says when
that is. A refused operation leaves the octets, their number and the read position as they were, and
with them every answer that the buffer will give. What it may change is the mark of a frame off the
air: a refused write by the node takes the mark away, though nothing was written
(`refused_access`).
-/

namespace Transceiver

def BufferOperation.isUpload : BufferOperation → Bool
  | .upload _ _ => true
  | _ => false

namespace FrameBuffer

variable {f : FrameBuffer}

/-- The error with which an operation is refused, if it is. -/
def refusal? (f : FrameBuffer) : BufferOperation → Option BufferError
  | .push _ => if f.octets.length = capacity then some .overflow else none
  | .peek index | .poke index _ | .upload index _ =>
      if capacity ≤ index then some (.outOfRange index) else none
  | .pop | .front | .clear | .prepare => none

theorem push_of_full (h : f.octets.length = capacity) (b : UInt8) :
    f.push b = (.error .overflow, f) := if_neg (Nat.not_lt_of_le (Nat.le_of_eq h.symm))

theorem peek_of_le {index : Nat} (h : capacity ≤ index) :
    f.peek index = .error (.outOfRange index) := if_neg (Nat.not_lt_of_le h)

theorem poke_of_le {index : Nat} (h : capacity ≤ index) (b : UInt8) :
    f.poke index b = (.error (.outOfRange index), f) := if_neg (Nat.not_lt_of_le h)

/-- What a refused operation answers and leaves behind. -/
theorem perform_of_refused {op : BufferOperation} {e : BufferError} (h : f.refusal? op = some e) :
    f.perform op = (.error e, if op.isUpload then { f with received := false } else f) := by
  cases op with
  | push b =>
    obtain ⟨hfull, he⟩ := Option.ite_none_right_eq_some.1 h
    cases he
    rw [perform, push_of_full hfull]
    rfl
  | peek index =>
    obtain ⟨hle, he⟩ := Option.ite_none_right_eq_some.1 h
    cases he
    rw [perform, peek_of_le hle]
    rfl
  | poke index b =>
    obtain ⟨hle, he⟩ := Option.ite_none_right_eq_some.1 h
    cases he
    rw [perform, poke_of_le hle]
    rfl
  | upload index b =>
    obtain ⟨hle, he⟩ := Option.ite_none_right_eq_some.1 h
    cases he
    rw [perform, upload, poke_of_le hle]
    rfl
  | pop | front | clear | prepare => cases h

/-- Whatever is not refused is answered. -/
theorem perform_of_granted (hf : f.Fits) {op : BufferOperation} (h : f.refusal? op = none) :
    ∃ answer, (f.perform op).1 = .ok answer := by
  cases op with
  | push b =>
    have hroom : f.octets.length ≠ capacity := by simpa [refusal?] using h
    rw [perform, push_of_room (Nat.lt_of_le_of_ne hf.length_le hroom)]
    exact ⟨none, rfl⟩
  | peek index =>
    have hlt : index < capacity := by simpa [refusal?] using h
    rw [perform, peek_of_lt hlt]
    exact ⟨_, rfl⟩
  | poke index b =>
    have hlt : index < capacity := by simpa [refusal?] using h
    rw [perform, poke_of_lt hlt]
    exact ⟨none, rfl⟩
  | upload index b =>
    have hlt : index < capacity := by simpa [refusal?] using h
    rw [perform, upload, poke_of_lt hlt]
    exact ⟨none, rfl⟩
  | pop | front | clear | prepare => exact ⟨_, rfl⟩

/-- The mark of a frame off the air makes no difference to the answers. -/
theorem answers_unmarked (hf : f.Fits) (ops : List BufferOperation) :
    (({ f with received := false } : FrameBuffer).run ops).1 = (f.run ops).1 := by
  have hunmarked : ({ f with received := false } : FrameBuffer).Fits :=
    ⟨hf.length_le, hf.readPosition_le⟩
  have hmemory : ({ f with received := false } : FrameBuffer).memory hunmarked = f.memory hf := rfl
  have hrun := memory_run hunmarked ops
  rw [hmemory, memory_run hf ops] at hrun
  exact (congrArg Prod.fst hrun).symm

/-- An operation that a frame buffer answers with an error was refused, for the reason that the
error gives. It leaves everything as it was, but for the mark of a frame off the air if it was a
write by the node, and by no answer that comes later can it be told that it was tried. -/
theorem refused_access (ops : List BufferOperation) (op : BufferOperation) {e : BufferError}
    (he : ((empty.run ops).2.perform op).1 = .error e) :
    let f := (empty.run ops).2
    let g := (f.perform op).2
    f.refusal? op = some e ∧ g = (if op.isUpload then { f with received := false } else f) ∧
      ∀ later, (g.run later).1 = (f.run later).1 := by
  intro f g
  have hf : f.Fits := fits_empty.run ops
  have hrefused : f.refusal? op = some e := by
    cases h : f.refusal? op with
    | none =>
      obtain ⟨answer, hanswer⟩ := perform_of_granted hf h
      cases he.symm.trans hanswer
    | some e' =>
      have herror : (f.perform op).1 = .error e' := congrArg Prod.fst (perform_of_refused h)
      cases he.symm.trans herror
      rfl
  have hg : g = if op.isUpload then { f with received := false } else f :=
    congrArg Prod.snd (perform_of_refused hrefused)
  refine ⟨hrefused, hg, fun later => ?_⟩
  rw [hg]
  cases op.isUpload with
  | true => exact answers_unmarked hf later
  | false => rfl

/-- A frame off the air fills the buffer, some of it is taken, and one more octet comes in. -/
theorem refused_access_of_full_buffer :
    let ops := .prepare :: List.replicate 128 (.push 0x41) ++ [.pop]
    let f := (empty.run ops).2
    (f.perform (.push 0x42)).1 = .error .overflow ∧ f.received = true ∧ f.remaining = 127 ∧
      (f.perform (.push 0x42)).2 = f := by
  intro ops f
  obtain ⟨hfull, hreceived, hremaining⟩ : f.octets.length = capacity ∧ f.received = true ∧
      f.remaining = 127 := by decide +kernel
  have he : (f.perform (.push 0x42)).1 = .error .overflow := by
    rw [perform, push_of_full hfull]
    rfl
  exact ⟨he, hreceived, hremaining, (refused_access ops (.push 0x42) he).2.1⟩

/-- A frame off the air is there, and the node writes behind the last cell. -/
theorem refused_write_takes_mark :
    let f := (empty.run [.prepare, .push 3, .push 0x41]).2
    let g := (f.perform (.upload 128 9)).2
    (f.perform (.upload 128 9)).1 = .error (.outOfRange 128) ∧ f.received = true ∧
      g.received = false ∧ g ≠ f := by
  intro f g
  have hf : f.received = true := rfl
  have hg : g.received = false := rfl
  refine ⟨rfl, hf, hg, fun hsame => ?_⟩
  rw [hsame, hf] at hg
  cases hg

end FrameBuffer

end Transceiver
