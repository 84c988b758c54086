import Mathlib.Data.Nat.Find
import Transceiver.Proofs.AcknowledgementOnAir

/-!
# The end of a transmission

The framer comes to an end whatever it is told. The check sequence flag decides at the length octet
how much payload there is, and at every octet of the packet whether payload or length ends it; the
flag may be another one each time. But the length is never the smaller of the two, so it bounds the
counter under every pattern of flags. `Reaches` says where the framer can be after so many steps,
`reaches_before` that it is there, and by `reaches_done` there is only the end left for it after
263 of them.
-/

namespace Transceiver

namespace TransmitFramer

def before (i : Nat → TransmitInput) : Nat → TransmitFramer
  | 0 => start
  | n + 1 => ((before i n).step (i n)).1

def output (i : Nat → TransmitInput) (n : Nat) : TransmitOutput := ((before i n).step (i n)).2

/-- Where the framer can be after so many steps. -/
inductive Reaches : Nat → TransmitFramer → Prop where
  | preamble {n : Nat} {f : TransmitFramer} (phase_eq : f.phase = .preamble)
      (counter_eq : f.counter.toNat = n) (early : n < 4) : Reaches n f
  | delimiter {f : TransmitFramer} (phase_eq : f.phase = .delimiter) : Reaches 4 f
  | length {f : TransmitFramer} (phase_eq : f.phase = .length) : Reaches 5 f
  | inPacket {n : Nat} {f : TransmitFramer} (phase_eq : f.phase = .inPacket)
      (counter_eq : 6 + f.counter.toNat = n) (counter_lt : f.counter.toNat < f.length.toNat)
      (payload_le : f.payload.toNat ≤ f.length.toNat) : Reaches n f
  | check1 {n : Nat} {f : TransmitFramer} (phase_eq : f.phase = .check1) (packet : 6 ≤ n)
      (bound : n ≤ 261) : Reaches n f
  | check2 {n : Nat} {f : TransmitFramer} (phase_eq : f.phase = .check2) (packet : 7 ≤ n)
      (bound : n ≤ 262) : Reaches n f
  | done {n : Nat} {f : TransmitFramer} (phase_eq : f.phase = .done) (packet : 6 ≤ n) : Reaches n f

variable {f : TransmitFramer} {i : TransmitInput} {n : Nat}

theorem reaches_stepPreamble (hc : f.counter.toNat = n) (hn : n < 4) :
    f.stepPreamble.1.Reaches (n + 1) := by
  obtain ⟨hcounter, hphase⟩ := stepPreamble_of_counter hc hn
  by_cases h3 : n = 3
  · rw [if_pos h3] at hphase
    rw [h3]
    exact .delimiter hphase
  · rw [if_neg h3] at hphase
    exact .preamble hphase hcounter (by omega)

theorem reaches_stepLength (i : TransmitInput) : (stepLength i).1.Reaches 6 := by
  have hpayload : (stepLength i).1.payload.toNat ≤ (stepLength i).1.length.toNat := by
    simp only [stepLength]
    split
    · rw [ReceiveFramer.toNat_withoutFcs]
      exact Nat.sub_le _ _
    · exact Nat.le_refl _
  by_cases hp : (stepLength i).1.payload = 0
  · have hphase : (stepLength i).1.phase = if i.autoFcs then .check1 else .done :=
      if_neg (not_not.2 hp)
    split at hphase
    · exact .check1 hphase (by omega) (by omega)
    · exact .done hphase (Nat.le_refl 6)
  · have hphase : (stepLength i).1.phase = .inPacket := if_pos hp
    have hpos : 0 < (stepLength i).1.payload.toNat := Nat.pos_of_ne_zero fun h =>
      hp (UInt8.toNat_inj.1 h)
    exact .inPacket hphase rfl (Nat.lt_of_lt_of_le hpos hpayload) hpayload

/-- Payload or length may end the packet; if neither does, the counter is below the length. -/
theorem reaches_stepInPacket (hc : 6 + f.counter.toNat = n)
    (hlt : f.counter.toNat < f.length.toNat) (hp : f.payload.toNat ≤ f.length.toNat) :
    (f.stepInPacket i).1.Reaches (n + 1) := by
  have hl := f.length.toNat_lt
  have hnext : (f.counter + 1).toNat = f.counter.toNat + 1 := octet_toNat_succ (by omega)
  obtain ⟨-, -, hlength, hpayload⟩ := f.stepInPacket_keeps i
  have hcounter := f.counter_stepInPacket i
  have hmore (h : f.counter.toNat + 1 < f.length.toNat)
      (hphase : (f.stepInPacket i).1.phase = .inPacket) : (f.stepInPacket i).1.Reaches (n + 1) := by
    refine .inPacket hphase ?_ ?_ ?_
    · rw [hcounter, hnext]
      omega
    · rw [hcounter, hnext, hlength]
      exact h
    · rw [hpayload, hlength]
      exact hp
  cases ha : i.autoFcs with
  | true =>
    have hphase : (f.stepInPacket i).1.phase =
        if f.payload.toNat ≤ f.counter.toNat + 1 then .check1 else .inPacket := by
      simp only [stepInPacket, ha, if_true, UInt8.le_iff_toNat_le, hnext]
    split at hphase
    · exact .check1 hphase (by omega) (by omega)
    · exact hmore (by omega) hphase
  | false =>
    have hphase : (f.stepInPacket i).1.phase =
        if f.length.toNat ≤ f.counter.toNat + 1 then .done else .inPacket := by
      simp only [stepInPacket, ha, Bool.false_eq_true, if_false, UInt8.le_iff_toNat_le, hnext]
    split at hphase
    · exact .done hphase (by omega)
    · exact hmore (by omega) hphase

theorem Reaches.step (h : f.Reaches n) : (f.step i).1.Reaches (n + 1) := by
  rw [fst_step]
  cases h with
  | preamble phase_eq counter_eq early =>
    simp only [phase_eq, advance]
    exact reaches_stepPreamble counter_eq early
  | delimiter phase_eq =>
    simp only [phase_eq, advance]
    exact .length rfl
  | length phase_eq =>
    simp only [phase_eq, advance]
    exact reaches_stepLength i
  | inPacket phase_eq counter_eq counter_lt payload_le =>
    simp only [phase_eq, advance]
    exact reaches_stepInPacket counter_eq counter_lt payload_le
  | check1 phase_eq packet bound =>
    simp only [phase_eq, advance]
    exact .check2 rfl (by omega) (by omega)
  | check2 phase_eq packet bound =>
    simp only [phase_eq, advance]
    exact .done rfl (by omega)
  | done phase_eq packet =>
    rw [if_pos phase_eq]
    exact .done phase_eq (by omega)

theorem Reaches.beforePacket_iff (h : f.Reaches n) : f.BeforePacket ↔ n < 6 := by
  cases h with
  | preamble phase_eq counter_eq early => exact ⟨fun _ => by omega, fun _ => .inl phase_eq⟩
  | delimiter phase_eq => exact ⟨fun _ => by omega, fun _ => .inr (.inl phase_eq)⟩
  | length phase_eq => exact ⟨fun _ => by omega, fun _ => .inr (.inr phase_eq)⟩
  | inPacket phase_eq | check1 phase_eq | check2 phase_eq | done phase_eq =>
    refine ⟨fun hb => ?_, fun hn => absurd hn (by omega)⟩
    rcases hb with hb | hb | hb <;> cases hb.symm.trans phase_eq

/-- Counting is exact, and so the counter never overflows. -/
theorem Reaches.counter_step (h : f.Reaches n) (hp : f.phase = .preamble ∨ f.phase = .inPacket) :
    (f.step i).1.counter.toNat = f.counter.toNat + 1 := by
  have hlt := f.length.toNat_lt
  rw [fst_step]
  cases h with
  | preamble phase_eq counter_eq early =>
    simp only [phase_eq, advance]
    exact octet_toNat_succ (by omega)
  | inPacket phase_eq counter_eq counter_lt payload_le =>
    simp only [phase_eq, advance]
    rw [if_neg (by decide), counter_stepInPacket]
    exact octet_toNat_succ (by omega)
  | delimiter phase_eq | length phase_eq | check1 phase_eq | check2 phase_eq | done phase_eq =>
    simp [phase_eq] at hp

theorem finished_step : (f.step i).2.finished = true ↔
    f.phase ≠ .done ∧ (f.step i).1.phase = .done := by
  by_cases hd : f.phase = .done
  · rw [step, if_pos hd]
    simp [hd, TransmitOutput.silent]
  · simp [step_of_ne_done i hd, hd]

/-- Only the octets of data come from the node. -/
theorem data_of_relayed
    (h : (f.step i).2.consumed = true ∨ (f.step i).2.underrun = true) :
    f.phase = .length ∧ i.owed.isSome = false ∨ f.phase = .inPacket ∧ f.isAck = false := by
  by_cases hd : f.phase = .done
  · rw [step, if_pos hd] at h
    rcases h with h | h <;> cases h
  · rw [step_of_ne_done i hd] at h
    have h : (f.advance i).2.consumed = true ∨ (f.advance i).2.underrun = true := h
    unfold advance at h
    cases hp : f.phase with
    | length =>
      refine .inl ⟨rfl, eq_false_of_ne_true fun ho => ?_⟩
      simp only [hp, stepLength, if_pos ho] at h
      rcases h with h | h <;> cases h
    | inPacket =>
      refine .inr ⟨rfl, eq_false_of_ne_true fun ha => ?_⟩
      simp only [hp] at h
      rw [snd_stepInPacket ha, (ackOctet_own _ _).1, (ackOctet_own _ _).2] at h
      rcases h with h | h <;> cases h
    | preamble | delimiter | check1 | check2 =>
      simp only [hp] at h
      rcases h with h | h <;> cases h
    | done => exact absurd hp hd

/-! ### A whole transmission -/

section Transmission

variable (i : Nat → TransmitInput) (n : Nat)

theorem run_append (f : TransmitFramer) (l m : List TransmitInput) : f.run (l ++ m) =
    (((f.run l).1.run m).1, (f.run l).2 ++ ((f.run l).1.run m).2) := by
  induction l generalizing f with
  | nil => rfl
  | cons x l ih => simp only [List.cons_append, run, ih]

theorem run_range :
    start.run ((List.range n).map i) = (before i n, (List.range n).map (output i)) := by
  induction n with
  | zero => rfl
  | succ n ih =>
    rw [List.range_succ, List.map_append, List.map_append, run_append, ih]
    rfl

theorem reaches_before : (before i n).Reaches n := by
  induction n with
  | zero => exact .preamble rfl rfl (by omega)
  | succ n ih => exact ih.step

theorem sound_before : (before i n).Sound := by
  induction n with
  | zero => exact sound_start
  | succ n ih => exact ih.step _

theorem reaches_done {f : TransmitFramer} (h : f.Reaches 263) : f.phase = .done := by
  cases h with
  | preamble phase_eq counter_eq early => omega
  | inPacket phase_eq counter_eq counter_lt payload_le =>
    have hlt := f.length.toNat_lt
    omega
  | check1 phase_eq packet bound | check2 phase_eq packet bound => omega
  | done phase_eq packet => exact phase_eq

theorem finished_output : (output i n).finished = true ↔
    (before i n).phase ≠ .done ∧ (before i (n + 1)).phase = .done :=
  finished_step

theorem output_of_done {i : Nat → TransmitInput} {n : Nat} (h : (before i n).phase = .done) :
    output i n = .silent :=
  congrArg Prod.snd (if_pos h)

theorem done_of_le {i : Nat → TransmitInput} {m n : Nat} (hmn : m ≤ n)
    (h : (before i m).phase = .done) : (before i n).phase = .done := by
  induction hmn with
  | refl => exact h
  | step hmn ih =>
    change ((before i _).step (i _)).1.phase = .done
    rw [fst_step, if_pos ih]
    exact ih

/-- The framer is done from one step on. -/
theorem exists_last : ∃ last, 6 ≤ last + 1 ∧ last + 1 ≤ 263 ∧
    ∀ n, (before i n).phase = .done ↔ last < n := by
  have hdone : ∃ n, (before i n).phase = .done := ⟨263, reaches_done (reaches_before i 263)⟩
  let first := Nat.find hdone
  have hfirst : (before i first).phase = .done := Nat.find_spec hdone
  have hleast {n : Nat} (h : (before i n).phase = .done) : first ≤ n := Nat.find_min' hdone h
  have hlate : 6 ≤ first := by
    refine Nat.le_of_not_lt fun hlt => ?_
    rcases (reaches_before i first).beforePacket_iff.2 hlt with hp | hp | hp <;>
      cases hp.symm.trans hfirst
  refine ⟨first - 1, by omega, ?_, fun n => ⟨fun h => ?_, fun h => ?_⟩⟩
  · have hle := hleast (reaches_done (reaches_before i 263))
    omega
  · have hle := hleast h
    omega
  · exact done_of_le (by omega) hfirst

/-- What was owed at the length octet settles the kind of the frame. -/
theorem isAck_before : (before i n).isAck = (decide (6 ≤ n) && (i 5).owed.isSome) := by
  by_cases hn : 6 ≤ n
  · rw [decide_eq_true hn, Bool.true_and]
    induction hn with
    | refl =>
      have hphase : (before i 5).phase = .length := by
        cases reaches_before i 5 with
        | length phase_eq => exact phase_eq
        | preamble | inPacket | check1 | check2 | done => omega
      change ((before i 5).step (i 5)).1.isAck = _
      rw [fst_step, hphase, if_neg (by decide)]
      simp only [advance, hphase, stepLength]
    | step hn ih =>
      have hpacket := mt (reaches_before i _).beforePacket_iff.1 (Nat.not_lt.2 hn)
      exact (isAck_step_of_packet _ hpacket).2.trans ih
  · rw [decide_eq_false hn, Bool.false_and]
    have hbefore := (reaches_before i n).beforePacket_iff.2 (Nat.lt_of_not_le hn)
    exact (sound_before i n).isAck_eq_false hbefore

theorem acknowledged_output (h : (output i n).acknowledged = true) :
    n = 8 ∧ (i 5).owed.isSome := by
  obtain ⟨hphase, hack, hcounter⟩ := third_of_acknowledged _ h
  have hn : n = 8 := by
    cases reaches_before i n with
    | inPacket phase_eq counter_eq =>
      rw [hcounter] at counter_eq
      exact counter_eq.symm
    | preamble phase_eq | delimiter phase_eq | length phase_eq | check1 phase_eq
    | check2 phase_eq | done phase_eq => cases phase_eq.symm.trans hphase
  rw [isAck_before, hn] at hack
  exact ⟨hn, hack⟩

theorem data_of_output (h : (output i n).consumed = true ∨ (output i n).underrun = true) :
    (i 5).owed.isSome = false := by
  have hreaches := reaches_before i n
  rcases data_of_relayed h with ⟨hphase, howed⟩ | ⟨hphase, hack⟩
  · cases hreaches with
    | length => exact howed
    | preamble phase_eq | delimiter phase_eq | inPacket phase_eq | check1 phase_eq
    | check2 phase_eq | done phase_eq => cases phase_eq.symm.trans hphase
  · have hlate : 6 ≤ n := by
      refine Nat.le_of_not_lt fun hlt => ?_
      rcases hreaches.beforePacket_iff.2 hlt with hp | hp | hp <;> cases hp.symm.trans hphase
    rw [isAck_before, decide_eq_true hlate, Bool.true_and] at hack
    exact hack

/-- Whatever the framer is told at each step, one step between the sixth and the 263rd is the last,
and only silence follows. On the way there the counter never overflows; one sequence number is
reported at most; an acknowledgement takes nothing from the node and lacks nothing, and data never
has the sequence number of an acknowledgement. -/
theorem comes_to_end :
    (∃ last, 6 ≤ last + 1 ∧ last + 1 ≤ 263 ∧ (∀ n, (output i n).finished = true ↔ n = last) ∧
      ∀ n, last < n → output i n = .silent) ∧
    (∀ n, (before i n).phase = .preamble ∨ (before i n).phase = .inPacket →
      (before i (n + 1)).counter.toNat = (before i n).counter.toNat + 1) ∧
    (∀ m n, (output i m).acknowledged = true → (output i n).acknowledged = true → m = n) ∧
    (∀ m, (before i m).isAck = true →
      ∀ n, (output i n).consumed = false ∧ (output i n).underrun = false) ∧
    ∀ m, 6 ≤ m → (before i m).isAck = false → ∀ n, (output i n).acknowledged = false := by
  refine ⟨?_, fun n => (reaches_before i n).counter_step, fun m n hm hn => ?_, fun m hm n => ?_,
    fun m hlate hm n => ?_⟩
  · obtain ⟨last, hearly, hlate, hdone⟩ := exists_last i
    refine ⟨last, hearly, hlate, fun n => ?_, fun n hn => output_of_done ((hdone n).2 hn)⟩
    rw [finished_output, ne_eq, hdone, hdone]
    omega
  · have hm8 := (acknowledged_output i m hm).1
    have hn8 := (acknowledged_output i n hn).1
    exact hm8.trans hn8.symm
  · rw [isAck_before, Bool.and_eq_true] at hm
    have hdata := mt (data_of_output i n) (by simp [hm.2])
    simpa only [not_or, Bool.not_eq_true] using hdata
  · rw [isAck_before, decide_eq_true hlate, Bool.true_and] at hm
    refine eq_false_of_ne_true fun h => ?_
    have howed := (acknowledged_output i n h).2
    rw [hm] at howed
    cases howed

end Transmission

end TransmitFramer

end Transceiver
