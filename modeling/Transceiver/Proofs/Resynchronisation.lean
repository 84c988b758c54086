import Transceiver.Proofs.EffectOrder

/-!
# Octets without a carrier

When the carrier is gone the framer looks for the next preamble, and leaves in place what it had
counted and computed of a frame. `Alike` framers differ at most in what they will not read again: in
all of it until a frame is announced, and from there on in the first check octet until it comes. By
`Alike.stepFiltered` they ask for the same and remain alike. One silent octet makes all framers
alike that have not given up, and so their pasts are forgotten: `silence_resynchronises`.
-/

namespace Transceiver

def ReceiveEffect.isFilterCheck : ReceiveEffect → Bool
  | .filterCheck _ => true
  | _ => false

/-- An octet, and whether the filter is to refuse the frame if it is asked about it then. -/
structure FilteredInput where
  input : ReceiveInput
  refused : Bool
  deriving DecidableEq

namespace ReceiveFramer

def stepFiltered (f : ReceiveFramer) (x : FilteredInput) : ReceiveFramer × List ReceiveEffect :=
  let (f', out) := f.step x.input
  (if x.refused && out.effects.any ReceiveEffect.isFilterCheck then f'.reject else f', out.effects)

def course (f : ReceiveFramer) : List FilteredInput → List (List ReceiveEffect × ReceivePhase)
  | [] => []
  | x :: xs =>
    ((f.stepFiltered x).2, (f.stepFiltered x).1.phase) :: (f.stepFiltered x).1.course xs

/-- The framer looks for a frame, or has given up. -/
@[simp] def Hunts (f : ReceiveFramer) : Prop :=
  f.phase = .scanning ∨ f.phase = .matched1 ∨ f.phase = .matched2 ∨ f.phase = .overflow

/-- The framers differ at most in what they will not read again. -/
inductive Alike : ReceiveFramer → ReceiveFramer → Prop where
  | same (f : ReceiveFramer) : Alike f f
  | hunting {f g : ReceiveFramer} (hunts : f.Hunts) (phase_eq : g.phase = f.phase) : Alike f g
  | inFrame (f : ReceiveFramer) (firstCheck : UInt8) (ne_check2 : f.phase ≠ .check2) :
      Alike f { f with firstCheck }

def AlikeResults (r s : ReceiveFramer × List ReceiveEffect) : Prop := r.2 = s.2 ∧ Alike r.1 s.1

variable {f g : ReceiveFramer}

theorem Alike.phase_eq (h : Alike f g) : g.phase = f.phase := by
  cases h with
  | same => rfl
  | hunting _ hp => exact hp
  | inFrame => rfl

theorem Alike.reject (h : Alike f g) (hf : ¬f.Hunts) : Alike f.reject g.reject := by
  cases h with
  | same => exact .same _
  | hunting hunts => exact absurd hunts hf
  | inFrame firstCheck => exact .inFrame f.reject firstCheck (by simp [ReceiveFramer.reject])

/-! ### Framers that look for a frame -/

theorem alikeResults_loseCarrier (hf : f.Hunts) (hp : g.phase = f.phase) :
    AlikeResults f.loseCarrier g.loseCarrier := by
  unfold loseCarrier
  rw [hp]
  rcases hf with h | h | h | h <;> rw [h] at hp ⊢ <;> refine ⟨rfl, .hunting ?_ ?_⟩ <;> simp [h, hp]

theorem alikeResults_scan (f g : ReceiveFramer) (b : UInt8) :
    AlikeResults (f.scan b) (g.scan b) := by
  refine ⟨rfl, .hunting ?_ rfl⟩
  by_cases hb : b = 0 <;> simp [scan, hb]

/-- Nothing that was there before an announcement is read after it, but for the first check octet. -/
theorem alikeResults_openFrame (f g : ReceiveFramer) (b : UInt8) (autoFcs : Bool) :
    AlikeResults (f.openFrame b autoFcs) (g.openFrame b autoFcs) := by
  unfold openFrame
  generalize (if autoFcs then 2 else 0 : UInt8) = fcsLength
  simp only
  split
  · exact ⟨rfl, .hunting (.inl rfl) rfl⟩
  · refine ⟨rfl, .inFrame _ g.firstCheck ?_⟩
    dsimp only
    split <;> simp

theorem alikeResults_hear (hf : f.Hunts) (hp : g.phase = f.phase) (b : UInt8) (autoFcs : Bool) :
    AlikeResults (f.hear b autoFcs) (g.hear b autoFcs) := by
  unfold hear
  rw [hp]
  rcases hf with h | h | h | h <;> rw [h] at hp ⊢
  · exact alikeResults_scan f g b
  · simp only
    split
    · exact ⟨rfl, .hunting (by simp) rfl⟩
    · exact alikeResults_scan f g b
  · exact alikeResults_openFrame f g b autoFcs
  · exact ⟨rfl, .hunting (by simp [h]) (hp.trans h.symm)⟩

/-! ### Framers inside of a frame -/

theorem loseCarrier_with (f : ReceiveFramer) (x : UInt8) :
    loseCarrier { f with firstCheck := x } =
      ({ f.loseCarrier.1 with firstCheck := x }, f.loseCarrier.2) := by
  obtain ⟨phase, counter, length, crc, firstCheck⟩ := f
  cases phase <;> rfl

theorem hear_with (h1 : f.phase ≠ .check1) (h2 : f.phase ≠ .check2) (b : UInt8) (autoFcs : Bool)
    (x : UInt8) : hear { f with firstCheck := x } b autoFcs =
      ({ (f.hear b autoFcs).1 with firstCheck := x }, (f.hear b autoFcs).2) := by
  obtain ⟨phase, counter, length, crc, firstCheck⟩ := f
  cases phase with
  | check1 => exact absurd rfl h1
  | check2 => exact absurd rfl h2
  | scanning | done | overflow => rfl
  | matched1 =>
    simp only [hear, scan]
    split <;> rfl
  | matched2 =>
    simp only [hear, openFrame]
    generalize (if autoFcs then 2 else 0 : UInt8) = fcsLength
    split <;> rfl
  | inPacket =>
    simp only [hear, takeOctet]
    cases autoFcs with
    | true => rfl
    | false =>
      simp only [Bool.false_eq_true, if_false]
      split <;> rfl
  | waiting =>
    simp only [hear, passOver]
    generalize (if counter = 255 then 255 else counter + 1) = counter
    split <;> rfl

theorem step_with (h1 : f.phase ≠ .check1) (h2 : f.phase ≠ .check2) (i : ReceiveInput)
    (x : UInt8) : step { f with firstCheck := x } i =
      ({ (f.step i).1 with firstCheck := x }, (f.step i).2) := by
  unfold step
  dsimp only
  split
  · rfl
  · split
    · rw [hear_with h1 h2]
    · rw [loseCarrier_with]

theorem phase_takeOctet (hp : f.phase = .inPacket) (b : UInt8) (autoFcs : Bool) :
    let phase := (f.takeOctet b autoFcs).1.phase
    phase = .inPacket ∨ phase = .check1 ∨ phase = .done := by
  unfold takeOctet
  cases autoFcs with
  | true =>
    simp only [if_true]
    split <;> simp
  | false =>
    simp only [Bool.false_eq_true, if_false]
    split <;> simp [hp]

/-- Only the first check octet makes the framer wait for the second one. -/
theorem phase_step_ne_check2 (h1 : f.phase ≠ .check1) (h2 : f.phase ≠ .check2) (i : ReceiveInput) :
    (f.step i).1.phase ≠ .check2 := by
  by_cases hd : f.phase = .done
  · simp [step_of_done hd]
  cases hc : i.carrier with
  | false =>
    rw [step_of_silence hd hc]
    unfold loseCarrier
    split <;> simp_all
  | true =>
    rw [step_of_carrier hd hc]
    unfold hear
    cases hp : f.phase with
    | check1 => exact absurd hp h1
    | check2 => exact absurd hp h2
    | done => exact absurd hp hd
    | overflow => simp [hp]
    | scanning =>
      simp only [scan]
      split <;> simp
    | matched1 =>
      simp only [scan]
      split
      · simp
      · split <;> simp
    | matched2 =>
      simp only [openFrame]
      generalize (if i.autoFcs then 2 else 0 : UInt8) = fcsLength
      split
      · simp
      · dsimp only
        split <;> simp
    | inPacket => rcases phase_takeOctet hp i.octet i.autoFcs with h | h | h <;> simp [h]
    | waiting =>
      simp only [passOver]
      generalize (if f.counter = 255 then 255 else f.counter + 1) = counter
      split <;> simp [hp]

/-- The octets of a frame lead through it and to its end. -/
theorem not_hunts_of_inFrame (hf : f.InFrame) {i : ReceiveInput} (hc : i.carrier = true) :
    ¬(f.step i).1.Hunts := by
  rw [step_of_carrier hf.ne_done hc]
  unfold hear
  rcases hf with hp | hp | hp <;> rw [hp]
  · rcases phase_takeOctet hp i.octet i.autoFcs with h | h | h <;> simp [h]
  · simp
  · simp

/-- The filter is asked inside of a frame. -/
theorem not_hunts_of_filterCheck {i : ReceiveInput}
    (h : (f.step i).2.effects.any ReceiveEffect.isFilterCheck = true) : ¬(f.step i).1.Hunts := by
  obtain ⟨x, hx, hcheck⟩ := List.any_eq_true.1 h
  have hframe : x.IsOfFrame := by
    cases x with
    | filterCheck offset => trivial
    | _ => cases hcheck
  by_cases hin : f.InFrame ∧ i.carrier = true
  · exact not_hunts_of_inFrame hin.1 hin.2
  · have hout : f.InFrame → i.carrier = false := fun hf => eq_false_of_ne_true fun hc => hin ⟨hf, hc⟩
    exact absurd hframe ((not_isOfFrame_step hout).2 x hx)

theorem Alike.step (h : Alike f g) (i : ReceiveInput) :
    AlikeResults ((f.step i).1, (f.step i).2.effects) ((g.step i).1, (g.step i).2.effects) := by
  cases h with
  | same => exact ⟨rfl, .same _⟩
  | hunting hunts hp =>
    have hd : f.phase ≠ .done := by rcases hunts with h | h | h | h <;> simp [h]
    have hd' : g.phase ≠ .done := by rwa [hp]
    cases hc : i.carrier with
    | false =>
      rw [step_of_silence hd hc, step_of_silence hd' hc]
      exact alikeResults_loseCarrier hunts hp
    | true =>
      rw [step_of_carrier hd hc, step_of_carrier hd' hc]
      exact alikeResults_hear hunts hp i.octet i.autoFcs
  | inFrame firstCheck h2 =>
    by_cases h1 : f.phase = .check1
    · have hd : f.phase ≠ .done := by simp [h1]
      cases hc : i.carrier with
      | false =>
        have hlost : f.loseCarrier.1.phase ≠ .check2 := by simp [loseCarrier, h1]
        have hwith := f.loseCarrier_with firstCheck
        rw [step_of_silence hd hc, step_of_silence (f := { f with firstCheck }) hd hc, hwith]
        exact ⟨rfl, .inFrame _ firstCheck hlost⟩
      | true =>
        rw [step_of_carrier hd hc, step_of_carrier (f := { f with firstCheck }) hd hc]
        simp only [hear, h1]
        exact ⟨rfl, .same _⟩
    · have hwith := step_with h1 h2 i firstCheck
      rw [hwith]
      exact ⟨rfl, .inFrame _ firstCheck (phase_step_ne_check2 h1 h2 i)⟩

theorem Alike.stepFiltered (h : Alike f g) (x : FilteredInput) :
    AlikeResults (f.stepFiltered x) (g.stepFiltered x) := by
  obtain ⟨heffects, hnext⟩ := h.step x.input
  dsimp only at heffects hnext
  refine ⟨heffects, ?_⟩
  unfold ReceiveFramer.stepFiltered
  dsimp only
  rw [← heffects]
  split
  · rename_i hr
    exact hnext.reject (not_hunts_of_filterCheck (Bool.and_eq_true_iff.1 hr).2)
  · exact hnext

theorem Alike.course_eq (h : Alike f g) (xs : List FilteredInput) : f.course xs = g.course xs := by
  induction xs generalizing f g with
  | nil => rfl
  | cons x xs ih =>
    obtain ⟨heffects, hnext⟩ := h.stepFiltered x
    simp only [course, heffects, hnext.phase_eq, ih hnext]

/-- Whatever the framer was up to, unless it had given up, it is left looking for a frame. -/
theorem phase_step_silent (hf : f.phase ≠ .overflow) {i : ReceiveInput} (hi : i.carrier = false) :
    (f.step i).1.phase = .scanning := by
  by_cases hd : f.phase = .done
  · rw [step_of_done hd]
  · rw [step_of_silence hd hi]
    unfold loseCarrier
    cases hp : f.phase with
    | done => exact absurd hp hd
    | overflow => exact absurd hp hf
    | scanning => exact hp
    | matched1 | matched2 | inPacket | check1 | check2 | waiting => rfl

/-- One octet without a carrier makes any two framers equal to the observer, unless they have given
up, and equal to one that has just been started: from there on the same octets, with the same
answers of the filter, bring the same effects and lead through the same phases. -/
theorem silence_resynchronises (f g : ReceiveFramer) (hf : f.phase ≠ .overflow)
    (hg : g.phase ≠ .overflow) (i j : ReceiveInput) (hi : i.carrier = false)
    (hj : j.carrier = false) (xs : List FilteredInput) :
    let f' := (f.step i).1
    let g' := (g.step j).1
    f'.phase = .scanning ∧ g'.phase = .scanning ∧ f'.course xs = g'.course xs ∧
      f'.course xs = start.course xs := by
  intro f' g'
  have hf' : f'.phase = .scanning := phase_step_silent hf hi
  have hg' : g'.phase = .scanning := phase_step_silent hg hj
  have halike (h : ReceiveFramer) (hp : h.phase = .scanning) : Alike f' h :=
    .hunting (.inl hf') (hp.trans hf'.symm)
  exact ⟨hf', hg', (halike g' hg').course_eq xs, (halike start rfl).course_eq xs⟩

/-- Two framers that have lost the carrier, one while it passed over a refused frame and one behind
the first check octet of another. Both refuse the first frame that follows and complete the second.
-/
theorem silence_resynchronises_behind_refusal :
    let f : ReceiveFramer := ⟨.waiting, 3, 90, 0x1D0F, 0x11⟩
    let g : ReceiveFramer := ⟨.check2, 8, 10, 0x4A17, 0x22⟩
    let i : ReceiveInput := ⟨0x55, false, true⟩
    let j : ReceiveInput := ⟨0xAA, false, false⟩
    let hear (b : UInt8) : FilteredInput := ⟨⟨b, true, true⟩, false⟩
    let refuse (b : UInt8) : FilteredInput := ⟨⟨b, true, true⟩, true⟩
    let xs := [hear 0, hear 0x7A, hear 4, refuse 0x41, hear 1, hear 2, hear 3,
      hear 0, hear 0x7A, hear 3, hear 0x41, hear 0x8D, hear 0x53]
    let f' := (f.step i).1
    let g' := (g.step j).1
    f.phase ≠ .overflow ∧ g.phase ≠ .overflow ∧ i.carrier = false ∧ j.carrier = false ∧
      f'.phase = .scanning ∧ g'.phase = .scanning ∧ f'.course xs = g'.course xs ∧
      f'.course xs = start.course xs ∧
      g'.course xs = [([], .matched1), ([.raise .rxStart], .matched2),
        ([.frameStart 4], .inPacket), ([.push 0x41, .filterCheck 1], .waiting), ([], .waiting),
        ([], .waiting), ([.discarded], .scanning),
        ([], .matched1), ([.raise .rxStart], .matched2), ([.frameStart 3], .inPacket),
        ([.push 0x41, .filterCheck 1], .check1), ([.push 0x8D], .check2),
        ([.push 0x53, .frameComplete (some true)], .done)] := by
  intro f g i j hear refuse xs f' g'
  have h := silence_resynchronises f g (by decide) (by decide) i j rfl rfl xs
  exact ⟨by decide, by decide, rfl, rfl, h.1, h.2.1, h.2.2.1, h.2.2.2, by decide +kernel⟩

end ReceiveFramer

end Transceiver
