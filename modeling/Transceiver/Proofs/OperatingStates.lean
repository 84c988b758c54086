import Transceiver.Proofs.TransmitFraming

/-!
# Operating states and framers

The operating state and the framers change at different moments: a command changes both, the end of
a transmission first the state, and a chip that turns around to acknowledge keeps its state.
`Consistent` says how they nevertheless belong together. While a chip acknowledges on its own, its
transmitter may run, but only for an acknowledgement.
-/

namespace Transceiver

namespace Activity

variable (a : Activity)

/-- The transmitter runs for an acknowledgement, the choice of which is still to be made or was. -/
def Acknowledging : Prop :=
  a.receiver = none ∧ ∃ f, a.transmitter = some f ∧ (a.owed.isSome ∨ f.isAck = true)

/-- The framers are as an operating state has them. Some states are never entered. -/
def Suits : OperatingState → Prop
  | .trxOff | .sleep => a.transmitter = none ∧ a.receiver = none
  | .rxOn => a.transmitter = none ∧ a.receiver.isSome ∧ a.owed = none
  | .busyTxAret => a.transmitter.isSome ∧ a.receiver = none
  | .rxAackOn => a.transmitter = none ∧ a.receiver.isSome ∨ a.Acknowledging
  | .busyTx | .pllOn => True
  | .busyRx | .busyRxAack | .txAretOn | .transition => False

structure Consistent : Prop where
  status_eq : a.status = a.state.code
  suits : a.Suits a.state

variable {a} {b : Activity}

theorem Suits.mem_entered {s : OperatingState} (h : a.Suits s) :
    s ∈ [.busyTx, .rxOn, .trxOff, .pllOn, .sleep, .busyTxAret, .rxAackOn] := by
  cases s with
  | busyRx | busyRxAack | txAretOn | transition => exact h.elim
  | _ => decide

theorem consistent_initial : initial.Consistent := ⟨rfl, rfl, rfl⟩

theorem Consistent.execute (h : a.Consistent) (command : Command) :
    (a.execute command).Consistent := by
  cases command with
  | nop => exact ⟨rfl, h.suits⟩
  | forcePllOn | txOn => exact ⟨rfl, trivial⟩
  | txStart => exact ⟨rfl, trivial⟩
  | forceTrxOff | trxOff => exact ⟨rfl, rfl, rfl⟩
  | rxOn => exact ⟨rfl, rfl, rfl, rfl⟩
  | rxAackOn => exact ⟨rfl, .inl ⟨rfl, rfl⟩⟩
  | txAretOn => exact ⟨rfl, rfl, rfl⟩

theorem Suits.sleepEdge {s next : OperatingState} {level : Bool} {mode : Option PowerMode}
    (h : a.Suits s) (he : s.sleepEdge? level = some (next, mode)) : a.Suits next := by
  cases s with
  | trxOff =>
    cases level with
    | true =>
      cases he
      exact h
    | false => cases he
  | sleep =>
    cases level with
    | true => cases he
    | false =>
      cases he
      exact h
  | pllOn =>
    cases level with
    | true =>
      cases he
      exact trivial
    | false => cases he
  | txAretOn => exact h.elim
  | _ => cases level <;> cases he

theorem Consistent.sleepPin (h : a.Consistent) (level : Bool) : (a.sleepPin level).Consistent := by
  unfold Activity.sleepPin
  cases he : a.state.sleepEdge? level with
  | none => exact h
  | some edge =>
    obtain ⟨next, mode⟩ := edge
    exact ⟨rfl, h.suits.sleepEdge he⟩

/-- It does not matter how far a framer is, unless it is the one of an acknowledgement. -/
theorem Suits.congr {s : OperatingState} (h : a.Suits s)
    (ht : b.transmitter.isSome = a.transmitter.isSome)
    (hr : b.receiver.isSome = a.receiver.isSome) (ho : a.owed = none → b.owed = none)
    (hack : a.Acknowledging → b.Acknowledging) : b.Suits s := by
  have hsilent (h : a.transmitter = none) : b.transmitter = none := by simpa [h] using ht
  have hdeaf (h : a.receiver = none) : b.receiver = none := by simpa [h] using hr
  cases s with
  | trxOff | sleep => exact ⟨hsilent h.1, hdeaf h.2⟩
  | rxOn => exact ⟨hsilent h.1, hr.trans h.2.1, ho h.2.2⟩
  | busyTxAret => exact ⟨ht.trans h.1, hdeaf h.2⟩
  | rxAackOn =>
    rcases h with ⟨hn, hs⟩ | h
    · exact .inl ⟨hsilent hn, hr.trans hs⟩
    · exact .inr (hack h)
  | _ => exact h

/-- Octets of an acknowledgement come from an acknowledgement. -/
theorem Acknowledging.transmit {f : TransmitFramer} {i : TransmitInput} (h : a.Acknowledging)
    (hf : a.transmitter = some f) (hs : f.Sound) (hm : (f.step i).2.finished = false) :
    (a.transmit i).Acknowledging := by
  obtain ⟨hr, g, hg, ha⟩ := h
  cases hf.symm.trans hg
  rw [transmit_of_more hf hm]
  refine ⟨hr, (f.step i).1, rfl, ?_⟩
  by_cases hack : (f.step i).2.acknowledged = true
  · exact .inr (f.isAck_step i hs (f.third_of_acknowledged i hack).2.1)
  · simp only [if_neg hack]
    rcases ha with ha | ha
    · exact .inl ha
    · exact .inr (f.isAck_step i hs ha)

theorem Consistent.transmit (h : a.Consistent) (hf : a.Framed) (i : TransmitInput) :
    (a.transmit i).Consistent := by
  rcases a.transmit_cases i with ⟨ht, he⟩ | ⟨f, ht, ⟨hm, he⟩ | ⟨hm, he⟩⟩
  · rw [he]
    exact h
  · rw [he]
    exact ⟨rfl, trivial⟩
  · have hack (hack : a.Acknowledging) := hack.transmit ht (hf f ht) hm
    rw [he] at hack ⊢
    refine ⟨h.status_eq, h.suits.congr (by rw [ht]; rfl) rfl ?_ hack⟩
    intro ho
    simp only [ho, ite_self]

theorem Consistent.step (h : a.Consistent) (hf : a.Framed) (hs : a.Step b) : b.Consistent := by
  cases hs with
  | rests => exact h
  | executes command => exact h.execute command
  | seesSleepPin level => exact h.sleepPin level
  | resets => exact ⟨rfl, rfl, rfl⟩
  | transmits i => exact h.transmit hf i

/-- The chip turns around in the states that leave its framers open, and when it acknowledges on its
own. -/
theorem Suits.turnAround {s : OperatingState} {f : ReceiveFramer} (h : a.Suits s)
    (hr : a.receiver = some f) (ho : a.owed.isSome) :
    a.closeReception.openTransmission.Suits s := by
  cases s with
  | trxOff | sleep | busyTxAret =>
    obtain ⟨-, hn⟩ := h
    cases hr.symm.trans hn
  | rxOn =>
    rw [h.2.2] at ho
    cases ho
  | rxAackOn => exact .inr ⟨rfl, a.transmitter.getD .start, rfl, .inl ho⟩
  | _ => exact h

theorem Consistent.hear (h : a.Consistent) (hh : a.Heard b) : b.Consistent := by
  have hack {f : ReceiveFramer} (hr : a.receiver = some f) (h : a.Acknowledging) : False := by
    cases hr.symm.trans h.1
  cases hh with
  | deaf => exact h
  | hears hr hp hb =>
    obtain ⟨g, o, v, ho, rfl⟩ := hb
    refine ⟨h.status_eq, h.suits.congr rfl (by rw [hr]; rfl) ?_ fun h => (hack hr h).elim⟩
    intro hn
    rcases ho with ho | ho
    · exact ho
    · exact ho.trans hn
  | schedules hr hp hd hs k =>
    have hsuits := h.suits
    refine ⟨h.status_eq, ?_⟩
    simp only [hs] at hsuits ⊢
    rcases hsuits with ⟨hn, -⟩ | h
    · exact .inl ⟨hn, rfl⟩
    · exact (hack hr h).elim
  | turnsAround hr hp ho => exact ⟨h.status_eq, h.suits.turnAround hr ho.1⟩
  | passes hr =>
    exact ⟨h.status_eq, h.suits.congr rfl (by rw [hr]; rfl) id fun h => (hack hr h).elim⟩

end Activity

namespace Chip

variable {G : Type} [RandomWords G]

theorem Reachable.consistent {c : Chip G} (h : Reachable c) : c.activity.Consistent :=
  h.activity_induction Activity.consistent_initial (fun _ _ hd hs h => h.step hd.framed hs)
    fun _ _ _ hh h => h.hear hh

/-- Whatever happens to a chip, the status register shows its operating state, which is one of
seven, and the framers are as that state has them. A chip that acknowledges on its own has exactly
one framer, and its transmitter runs for an acknowledgement only. -/
theorem framers_suit_state (config : Configuration) (now : Instant) (g : G)
    (ops : List Operation) :
    let c := (build config now g).run ops
    c.registers.get .trxStatus = c.state.code ∧
      c.state ∈ [.busyTx, .rxOn, .trxOff, .pllOn, .sleep, .busyTxAret, .rxAackOn] ∧
      (c.state = .trxOff ∨ c.state = .sleep → c.transmitter = none ∧ c.receiver = none) ∧
      (c.state = .rxOn → c.transmitter = none ∧ c.receiver.isSome ∧ c.owed = none) ∧
      (c.state = .busyTxAret → c.transmitter.isSome ∧ c.receiver = none) ∧
      (c.state = .rxAackOn → (c.transmitter.isSome ↔ c.receiver = none) ∧
        ∀ f, c.transmitter = some f → c.owed ≠ none ∨ f.isAck = true) := by
  intro c
  have hc : c.activity.Consistent := ((reachable_build config now g).run ops).consistent
  have hsuits {s : OperatingState} (hs : c.state = s) : c.activity.Suits s := hs ▸ hc.suits
  refine ⟨hc.status_eq, hc.suits.mem_entered, ?_, hsuits, hsuits, ?_⟩
  · rintro (hs | hs)
    · exact hsuits hs
    · exact hsuits hs
  · intro hs
    rcases hsuits hs with ⟨hn, hr⟩ | ⟨hr, f, hf, ha⟩
    · have hn : c.transmitter = none := hn
      obtain ⟨g, hg⟩ := Option.isSome_iff_exists.1 hr
      have hg : c.receiver = some g := hg
      simp [hn, hg]
    · have hr : c.receiver = none := hr
      have hf : c.transmitter = some f := hf
      refine ⟨by simp [hr, hf], ?_⟩
      intro g hg
      cases hf.symm.trans hg
      rcases ha with ha | ha
      · exact .inl (Option.isSome_iff_ne_none.1 ha)
      · exact .inr ha

end Chip

end Transceiver
