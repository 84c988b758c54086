import Transceiver.Proofs.AcknowledgedFrame
import Transceiver.Proofs.OctetStream

/-!
# The announcement of a frame

Of the octets outside of frames only one kind matters: behind a start delimiter, the length of a
frame that has room for its check octets. It announces the frame, and the framer is inside it from
there on. All others leave the framer outside and have nothing stored: `passesBy_step`.
-/

namespace Transceiver

namespace ReceiveFramer

variable {f : ReceiveFramer} {i : ReceiveInput}

def announced? (f : ReceiveFramer) (i : ReceiveInput) : Option UInt8 :=
  let length := i.octet &&& 0x7F
  if f.phase = .matched2 ∧ i.carrier = true ∧ ¬OctetStream.IsVoid i.autoFcs length then some length
  else none

theorem step_of_matched2 (hp : f.phase = .matched2) (hc : i.carrier = true) :
    f.step i = ((f.openFrame i.octet i.autoFcs).1,
      ⟨i.octet, (f.openFrame i.octet i.autoFcs).2⟩) := by
  have hd : f.phase ≠ .done := by simp [hp]
  have hheard : f.hear i.octet i.autoFcs = f.openFrame i.octet i.autoFcs := by
    unfold hear
    rw [hp]
  rw [step_of_carrier hd hc, hheard]

theorem announced?_eq_some {l : UInt8} : f.announced? i = some l ↔ f.phase = .matched2 ∧
    i.carrier = true ∧ ¬OctetStream.IsVoid i.autoFcs l ∧ i.octet &&& 0x7F = l := by
  unfold announced?
  simp only [Option.ite_none_right_eq_some, Option.some.injEq]
  constructor
  · rintro ⟨⟨hp, hc, hroom⟩, rfl⟩
    exact ⟨hp, hc, hroom, rfl⟩
  · rintro ⟨hp, hc, hroom, rfl⟩
    exact ⟨⟨hp, hc, hroom⟩, rfl⟩

/-- The octet that announces a frame leads into it. -/
theorem step_of_announced {l : UInt8} (h : f.announced? i = some l) :
    ∃ g, Within i.autoFcs l.toNat [] g ∧ f.step i = (g, ⟨i.octet, [.frameStart l]⟩) := by
  obtain ⟨hp, hc, hroom, rfl⟩ := announced?_eq_some.1 h
  rw [step_of_matched2 hp hc]
  rcases f.openFrame_void_or_within i.octet i.autoFcs with ⟨hvoid, -⟩ | ⟨-, g, hg, hopen⟩
  · exact absurd hvoid hroom
  · exact ⟨g, hg, by rw [hopen]⟩

/-- From `f` the framer comes no closer to a frame, and has nothing stored. -/
structure PassesBy (f : ReceiveFramer) (r : ReceiveFramer × List ReceiveEffect) : Prop where
  outside : ¬r.1.InFrame
  not_done : r.1.phase ≠ .done
  overflow : r.1.phase = .overflow → f.phase = .overflow
  quiet : ∀ x ∈ r.2, x.IsQuiet

theorem passesBy_of_scanning {r : ReceiveFramer × List ReceiveEffect}
    (hp : r.1.phase = .scanning) (hquiet : ∀ x ∈ r.2, x.IsQuiet) : f.PassesBy r :=
  ⟨by simp [InFrame, hp], by simp [hp], by simp [hp], hquiet⟩

theorem passesBy_loseCarrier (h : ¬f.InFrame) (hd : f.phase ≠ .done) :
    f.PassesBy f.loseCarrier := by
  unfold loseCarrier
  cases hp : f.phase with
  | inPacket | check1 | check2 => exact absurd (by simp [InFrame, hp]) h
  | done => exact absurd hp hd
  | scanning => exact passesBy_of_scanning hp (by simp)
  | matched1 | matched2 | waiting => exact passesBy_of_scanning rfl (by simp)
  | overflow => exact ⟨h, hd, fun _ => hp, by simp⟩

theorem passesBy_scan (f : ReceiveFramer) (b : UInt8) : f.PassesBy (f.scan b) := by
  unfold scan
  by_cases hb : b = 0
  · exact ⟨by simp [InFrame, hb], by simp [hb], by simp [hb], by simp⟩
  · exact passesBy_of_scanning (if_neg hb) (by simp)

theorem passesBy_passOver (h : f.phase = .waiting) : f.PassesBy f.passOver := by
  unfold passOver
  generalize (if f.counter = 255 then 255 else f.counter + 1) = counter
  simp only
  split
  · exact passesBy_of_scanning rfl (by simp)
  · exact ⟨by simp [InFrame, h], by simp [h], by simp [h], by simp⟩

/-- Outside of a frame only the octet that announces one matters. -/
theorem passesBy_step (h : ¬f.InFrame) (ha : f.announced? i = none) :
    f.PassesBy ((f.step i).1, (f.step i).2.effects) := by
  by_cases hd : f.phase = .done
  · rw [step_of_done hd]
    exact passesBy_of_scanning rfl (by simp)
  cases hc : i.carrier with
  | false =>
    rw [step_of_silence hd hc]
    exact passesBy_loseCarrier h hd
  | true =>
    by_cases hp : f.phase = .matched2
    · rw [step_of_matched2 hp hc]
      rcases f.openFrame_void_or_within i.octet i.autoFcs with ⟨-, g, hg, hopen⟩ | ⟨hroom, -⟩
      · rw [hopen]
        exact passesBy_of_scanning hg (by simp)
      · cases ha.symm.trans (announced?_eq_some.2 ⟨hp, hc, hroom, rfl⟩)
    rw [step_of_carrier hd hc]
    unfold hear
    cases hphase : f.phase with
    | inPacket | check1 | check2 => exact absurd (by simp [InFrame, hphase]) h
    | matched2 => exact absurd hphase hp
    | done => exact absurd hphase hd
    | scanning => exact passesBy_scan f i.octet
    | waiting => exact passesBy_passOver hphase
    | overflow => exact ⟨h, hd, fun _ => hphase, by simp⟩
    | matched1 =>
      simp only
      split
      · exact ⟨by simp [InFrame], by simp, by simp, by simp⟩
      · exact passesBy_scan f i.octet

theorem inFrame_of_within {autoFcs : Bool} {l : Nat} {p : List UInt8}
    (h : Within autoFcs l p f) : f.InFrame := by
  cases h with
  | body hp => exact .inl hp
  | checks _ hp => exact .inr (.inl hp)
  | lastCheck _ hp => exact .inr (.inr hp)

/-- The framer gets into a frame only with the octet that announces it, and to the end of one only
from inside. -/
theorem announced?_of_enters (h : ¬f.InFrame)
    (h' : (f.step i).1.InFrame ∨ (f.step i).1.phase = .done) :
    ∃ l, f.announced? i = some l ∧ (f.step i).1.InFrame := by
  cases ha : f.announced? i with
  | none =>
    have hpasses := passesBy_step h ha
    rcases h' with h' | h'
    · exact absurd h' hpasses.outside
    · exact absurd h' hpasses.not_done
  | some l =>
    obtain ⟨g, hg, hstep⟩ := step_of_announced ha
    rw [hstep]
    exact ⟨l, rfl, inFrame_of_within hg⟩

theorem frameStart_not_mem_takeOctet (f : ReceiveFramer) (b : UInt8) (autoFcs : Bool) (l : UInt8) :
    .frameStart l ∉ (f.takeOctet b autoFcs).2 := by
  unfold takeOctet
  simp only
  split
  · split <;> simp
  · split <;> split <;> simp

theorem frameStart_not_mem_loseCarrier (f : ReceiveFramer) (l : UInt8) :
    .frameStart l ∉ f.loseCarrier.2 := by
  unfold loseCarrier
  cases f.phase <;> simp

theorem frameStart_not_mem_step (h : f.announced? i = none) (l : UInt8) :
    .frameStart l ∉ (f.step i).2.effects := by
  by_cases hin : f.InFrame
  · cases hc : i.carrier with
    | false =>
      rw [step_of_silence hin.ne_done hc]
      exact f.frameStart_not_mem_loseCarrier l
    | true =>
      rw [step_of_carrier hin.ne_done hc]
      unfold hear
      rcases hin with hp | hp | hp <;> rw [hp]
      · exact f.frameStart_not_mem_takeOctet i.octet i.autoFcs l
      · simp
      · simp
  · exact fun hmem => (passesBy_step hin h).quiet _ hmem

end ReceiveFramer

end Transceiver
