import Transceiver.Proofs.ActivitySteps

/-!
# Acknowledgements in the transmit framer

The framer decides at the length octet whether it sends an acknowledgement and keeps to it: from
then on the acknowledgement has five octets and its sequence number among them, whatever becomes of
the check sequence flag meanwhile. `SequencePending` holds as long as the sequence number of an
acknowledgement is still to be sent.
-/

namespace Transceiver

namespace TransmitFramer

variable (f : TransmitFramer) (i : TransmitInput)

def BeforePacket : Prop := f.phase = .preamble ∨ f.phase = .delimiter ∨ f.phase = .length

/-- What every step keeps: only a frame under way can be an acknowledgement, and its sequence number
comes before its end. -/
structure Sound : Prop where
  isAck_eq_false : f.BeforePacket → f.isAck = false
  ack_length : f.isAck = true → 3 ≤ f.length.toNat ∧ 3 ≤ f.payload.toNat

def SequencePending : Prop :=
  f.BeforePacket ∨ f.phase = .inPacket ∧ f.isAck = true ∧ f.counter ≤ 2

theorem sound_start : start.Sound := ⟨fun _ => rfl, nofun⟩

theorem sequencePending_start : start.SequencePending := .inl (.inl rfl)

variable {f}

theorem step_of_ne_done (h : f.phase ≠ .done) : f.step i =
    ((f.advance i).1, { (f.advance i).2 with finished := (f.advance i).1.phase = .done }) := by
  simp only [step, if_neg h]

theorem fst_step : (f.step i).1 = if f.phase = .done then f else (f.advance i).1 := by
  by_cases h : f.phase = .done
  · simp only [step, if_pos h]
  · simp only [step, if_neg h]

theorem sound_of_isAck_eq_false (h : f.isAck = false) : f.Sound :=
  ⟨fun _ => h, fun ha => by rw [h] at ha; cases ha⟩

theorem Sound.of_behind {f' : TransmitFramer} (h : f.Sound) (hb : ¬f'.BeforePacket)
    (ha : f'.isAck = f.isAck) (hl : f'.length = f.length) (hp : f'.payload = f.payload) :
    f'.Sound := by
  refine ⟨fun hb' => absurd hb' hb, fun ha' => ?_⟩
  rw [hl, hp]
  exact h.ack_length (ha ▸ ha')

/-- The counter of the preamble leads to the delimiter with its fourth octet. -/
theorem stepPreamble_of_counter {n : Nat} (hc : f.counter.toNat = n) (hn : n < 4) :
    f.stepPreamble.1.counter.toNat = n + 1 ∧
      f.stepPreamble.1.phase = if n = 3 then .delimiter else .preamble := by
  have hnext : (f.counter + 1).toNat = n + 1 := by
    rw [octet_toNat_succ (by omega), hc]
  have hend : preambleLength ≤ f.counter + 1 ↔ n = 3 := by
    rw [UInt8.le_iff_toNat_le, hnext]
    change 4 ≤ n + 1 ↔ n = 3
    omega
  simp only [stepPreamble, hend]
  exact ⟨hnext, trivial⟩

theorem stepLength_of_owed (h : i.owed.isSome) : (stepLength i).1 =
    ⟨.inPacket, 0, ackLength, if i.autoFcs then 3 else 5, 0, true⟩ := by
  cases ha : i.autoFcs <;> simp [stepLength, h, ha, TransmitOutput.send] <;> decide

theorem sound_stepLength : (stepLength i).1.Sound := by
  by_cases h : i.owed.isSome
  · rw [stepLength_of_owed i h]
    refine ⟨?_, fun _ => ?_⟩
    · rintro (hp | hp | hp) <;> cases hp
    · cases i.autoFcs <;> exact ⟨by decide, by decide⟩
  · exact sound_of_isAck_eq_false (eq_false_of_ne_true h)

theorem stepInPacket_keeps : ¬(f.stepInPacket i).1.BeforePacket ∧
    (f.stepInPacket i).1.isAck = f.isAck ∧ (f.stepInPacket i).1.length = f.length ∧
    (f.stepInPacket i).1.payload = f.payload := by
  unfold stepInPacket
  simp only
  split
  · refine ⟨?_, rfl, rfl, rfl⟩
    by_cases hp : f.payload ≤ f.counter + 1 <;> simp [BeforePacket, hp]
  · refine ⟨?_, rfl, rfl, rfl⟩
    by_cases hl : f.length ≤ f.counter + 1 <;> simp [BeforePacket, hl]

theorem Sound.advance (h : f.Sound) : (f.advance i).1.Sound := by
  unfold TransmitFramer.advance
  cases hp : f.phase with
  | preamble => exact sound_of_isAck_eq_false (h.isAck_eq_false (.inl hp))
  | delimiter => exact sound_of_isAck_eq_false (h.isAck_eq_false (.inr (.inl hp)))
  | length => exact sound_stepLength i
  | inPacket =>
    obtain ⟨hb, ha, hl, hpayload⟩ := stepInPacket_keeps (f := f) i
    exact h.of_behind hb ha hl hpayload
  | check1 | check2 => exact h.of_behind (by simp [BeforePacket]) rfl rfl rfl
  | done => exact h

theorem Sound.step (h : f.Sound) : (f.step i).1.Sound := by
  rw [fst_step]
  split
  · exact h
  · exact h.advance i

/-- Once the length is out, the kind of the frame is settled. -/
theorem isAck_step_of_packet (hb : ¬f.BeforePacket) :
    ¬(f.step i).1.BeforePacket ∧ (f.step i).1.isAck = f.isAck := by
  rw [fst_step]
  split
  · exact ⟨hb, rfl⟩
  · unfold TransmitFramer.advance
    cases hp : f.phase with
    | preamble => exact absurd (.inl hp) hb
    | delimiter => exact absurd (.inr (.inl hp)) hb
    | length => exact absurd (.inr (.inr hp)) hb
    | inPacket =>
      obtain ⟨hpacket, hisAck, -⟩ := f.stepInPacket_keeps i
      exact ⟨hpacket, hisAck⟩
    | check1 | check2 => exact ⟨by simp [BeforePacket], rfl⟩
    | done => exact ⟨hb, rfl⟩

theorem isAck_step (h : f.Sound) (ha : f.isAck = true) : (f.step i).1.isAck = true := by
  have hb : ¬f.BeforePacket := by
    intro hb
    rw [h.isAck_eq_false hb] at ha
    cases ha
  exact (isAck_step_of_packet i hb).2.trans ha

/-- Only an acknowledgement has the sequence number that ends an obligation, as its third octet. -/
theorem third_of_acknowledged (h : (f.step i).2.acknowledged = true) :
    f.phase = .inPacket ∧ f.isAck = true ∧ f.counter = 2 := by
  have hrelay (b : Option UInt8) : (TransmitOutput.relay b).acknowledged = false := by
    cases b <;> rfl
  have hnumber {counter : UInt8} (h : (ackOctet counter i).acknowledged = true) : counter = 2 := by
    unfold ackOctet at h
    split at h
    · cases h
    · rfl
    · cases h
  by_cases hd : f.phase = .done
  · rw [step, if_pos hd] at h
    cases h
  · rw [step_of_ne_done i hd] at h
    have h : (f.advance i).2.acknowledged = true := h
    unfold TransmitFramer.advance at h
    cases hp : f.phase with
    | inPacket =>
      simp only [hp, stepInPacket, apply_ite Prod.snd, ite_self] at h
      by_cases ha : f.isAck = true
      · rw [if_pos ha] at h
        exact ⟨rfl, ha, hnumber h⟩
      · rw [if_neg ha, hrelay] at h
        cases h
    | length =>
      simp only [hp, stepLength] at h
      split at h
      · cases h
      · simp [hrelay] at h
    | preamble | delimiter | check1 | check2 | done =>
      simp only [hp] at h
      cases h

theorem stepInPacket_goes_on (h : f.Sound) (ha : f.isAck = true) (hc : f.counter.toNat < 2) :
    (f.stepInPacket i).1.phase = .inPacket ∧ (f.stepInPacket i).1.counter ≤ 2 := by
  obtain ⟨hl, hp⟩ := h.ack_length ha
  have hnext : (f.counter + 1).toNat = f.counter.toNat + 1 := octet_toNat_succ (by omega)
  have hc2 : f.counter + 1 ≤ 2 := by
    rw [UInt8.le_iff_toNat_le, hnext]
    change f.counter.toNat + 1 ≤ 2
    omega
  have hl' : ¬f.length ≤ f.counter + 1 := by
    rw [UInt8.le_iff_toNat_le, hnext]
    omega
  have hp' : ¬f.payload ≤ f.counter + 1 := by
    rw [UInt8.le_iff_toNat_le, hnext]
    omega
  unfold stepInPacket
  simp only [if_neg hl', if_neg hp']
  split
  · exact ⟨rfl, hc2⟩
  · exact ⟨rfl, hc2⟩

theorem acknowledged_of_third (hp : f.phase = .inPacket) (ha : f.isAck = true)
    (hc : f.counter = 2) : (f.step i).2.acknowledged = true := by
  have hd : f.phase ≠ .done := by rw [hp]; decide
  rw [step_of_ne_done i hd]
  cases hf : i.autoFcs <;> simp [TransmitFramer.advance, hp, stepInPacket, ha, hc, ackOctet, hf]

/-- As long as an acknowledgement is owed, each step either sends its sequence number or leads on to
it, and then it is not the last. -/
theorem SequencePending.step (hp : f.SequencePending) (h : f.Sound) (ho : i.owed.isSome) :
    (f.step i).2.acknowledged = true ∨
      (f.step i).2.finished = false ∧ (f.step i).1.SequencePending := by
  have hnext (hd : f.phase ≠ .done) (hn : (f.advance i).1.SequencePending) :
      (f.step i).2.finished = false ∧ (f.step i).1.SequencePending := by
    rw [step_of_ne_done i hd]
    refine ⟨?_, hn⟩
    rcases hn with (hn | hn | hn) | ⟨hn, -⟩ <;> simp [hn]
  rcases hp with (hp | hp | hp) | ⟨hp, ha, hc⟩
  · refine .inr (hnext (by rw [hp]; decide) (.inl ?_))
    simp only [TransmitFramer.advance, hp, stepPreamble, BeforePacket]
    split <;> simp
  · refine .inr (hnext (by rw [hp]; decide) (.inl ?_))
    simp [TransmitFramer.advance, hp, BeforePacket]
  · refine .inr (hnext (by rw [hp]; decide) (.inr ?_))
    simp only [TransmitFramer.advance, hp, stepLength_of_owed i ho]
    decide
  · by_cases h2 : f.counter = 2
    · exact .inl (acknowledged_of_third i hp ha h2)
    · have hlt : f.counter.toNat < 2 := by
        have hle : f.counter.toNat ≤ 2 := UInt8.le_iff_toNat_le.1 hc
        have hne : f.counter.toNat ≠ 2 := fun he => h2 (UInt8.toNat_inj.1 he)
        omega
      obtain ⟨hphase, hcounter⟩ := stepInPacket_goes_on i h ha hlt
      refine .inr (hnext (by rw [hp]; decide) (.inr ?_))
      simp only [TransmitFramer.advance, hp]
      exact ⟨hphase, (stepInPacket_keeps i).2.1.trans ha, hcounter⟩

end TransmitFramer

namespace Activity

def Framed (a : Activity) : Prop := ∀ f, a.transmitter = some f → f.Sound

variable {a b : Activity}

theorem framed_of_none (h : a.transmitter = none) : a.Framed := by
  intro f hf
  rw [h] at hf
  cases hf

theorem Framed.openTransmission (h : a.Framed) : a.openTransmission.Framed := by
  intro f hf
  cases ht : a.transmitter with
  | some g =>
    rw [openTransmission_of_some ht] at hf
    exact h f hf
  | none =>
    rw [openTransmission_of_none ht] at hf
    cases hf
    exact TransmitFramer.sound_start

theorem Framed.transmit (h : a.Framed) (i : TransmitInput) : (a.transmit i).Framed := by
  rcases a.transmit_cases i with ⟨ht, he⟩ | ⟨f, ht, ⟨hf, he⟩ | ⟨hf, he⟩⟩ <;> rw [he]
  · exact h
  · exact framed_of_none rfl
  · intro g hg
    cases hg
    exact (h f ht).step i

theorem Framed.execute (h : a.Framed) (command : Command) : (a.execute command).Framed := by
  cases command with
  | nop | forcePllOn | txOn => exact h
  | txStart | txAretOn => exact Framed.openTransmission (a := (a.enter _).forget.closeReception) h
  | forceTrxOff | trxOff | rxOn | rxAackOn => exact framed_of_none rfl

theorem Framed.step (h : a.Framed) (hs : a.Step b) : b.Framed := by
  cases hs with
  | rests => exact h
  | executes command => exact h.execute command
  | seesSleepPin level =>
    unfold Activity.sleepPin
    split
    · exact h
    · exact h
  | resets => exact framed_of_none rfl
  | transmits i => exact h.transmit i

theorem Framed.hear (h : a.Framed) (hh : a.Heard b) : b.Framed := by
  cases hh with
  | hears hr hp hb =>
    obtain ⟨f, o, v, -, rfl⟩ := hb
    exact h
  | turnsAround => exact Framed.openTransmission (a := a.closeReception) h
  | deaf | schedules | passes => exact h

end Activity

theorem Chip.Reachable.framed {G : Type} [RandomWords G] {c : Chip G} (h : Reachable c) :
    c.activity.Framed :=
  h.activity_induction (Activity.framed_of_none rfl) (fun _ _ _ hs h => h.step hs)
    fun _ _ _ hh h => h.hear hh

end Transceiver
