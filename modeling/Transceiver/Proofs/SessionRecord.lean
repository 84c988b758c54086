import Transceiver.Proofs.ActivitySteps

/-!
# The record of sessions

What the medium is told of sessions is well bracketed: sessions follow one another, each is closed
before the next one opens, and the last one is open exactly as long as its framer runs. `Orderly`
says so of an activity together with the fact that at most one framer runs at a time, without which
no operation would keep it.
-/

namespace Transceiver

def Session.whole (s : Session) : List SessionMark := [.opened s, .closed s]

/-- The marks are those of sessions one after the other, all of which are closed but the current
one. -/
def Bracketed (marks : List SessionMark) (current : Option Session) : Prop :=
  ∃ past : List Session, marks = past.flatMap Session.whole ++ current.toList.map .opened

theorem bracketed_nil : Bracketed [] none := ⟨[], rfl⟩

theorem Bracketed.opened {marks : List SessionMark} (h : Bracketed marks none) (s : Session) :
    Bracketed (marks ++ [.opened s]) (some s) := by
  obtain ⟨past, rfl⟩ := h
  exact ⟨past, by simp⟩

theorem Bracketed.closed {marks : List SessionMark} {s : Session}
    (h : Bracketed marks (some s)) : Bracketed (marks ++ [.closed s]) none := by
  obtain ⟨past, rfl⟩ := h
  exact ⟨past ++ [s], by simp [Session.whole]⟩

namespace Activity

def openSession? (a : Activity) : Option Session :=
  if a.transmitter.isSome then some .transmission
  else if a.receiver.isSome then some .reception
  else none

structure Orderly (a : Activity) : Prop where
  exclusive : a.transmitter = none ∨ a.receiver = none
  bracketed : Bracketed a.marks a.openSession?

variable {a b : Activity}

theorem openSession?_of_transmitter {f : TransmitFramer} (h : a.transmitter = some f) :
    a.openSession? = some .transmission := by simp [openSession?, h]

theorem openSession?_of_receiver {f : ReceiveFramer} (ht : a.transmitter = none)
    (hr : a.receiver = some f) : a.openSession? = some .reception := by
  simp [openSession?, ht, hr]

theorem openSession?_of_none (ht : a.transmitter = none) (hr : a.receiver = none) :
    a.openSession? = none := by simp [openSession?, ht, hr]

theorem orderly_initial : initial.Orderly := ⟨.inl rfl, bracketed_nil⟩

/-- It does not matter how far a framer is. -/
theorem Orderly.congr (h : a.Orderly) (ht : b.transmitter.isSome = a.transmitter.isSome)
    (hr : b.receiver.isSome = a.receiver.isSome) (hm : b.marks = a.marks) : b.Orderly := by
  have hs : b.openSession? = a.openSession? := by simp only [openSession?, ht, hr]
  refine ⟨?_, by rw [hm, hs]; exact h.bracketed⟩
  simp only [← Option.isNone_iff_eq_none, ← Option.not_isSome, ht, hr]
  simpa using h.exclusive

theorem Orderly.receiver_eq_none {f : TransmitFramer} (h : a.Orderly)
    (ht : a.transmitter = some f) : a.receiver = none :=
  h.exclusive.resolve_left (by rw [ht]; nofun)

theorem Orderly.transmitter_eq_none {f : ReceiveFramer} (h : a.Orderly)
    (hr : a.receiver = some f) : a.transmitter = none :=
  h.exclusive.resolve_right (by rw [hr]; nofun)

theorem Orderly.not_both (h : a.Orderly) : ¬(a.transmitter.isSome ∧ a.receiver.isSome) := by
  rintro ⟨ht, hr⟩
  rcases h.exclusive with h | h
  · rw [h] at ht
    cases ht
  · rw [h] at hr
    cases hr

theorem openSession?_eq_transmission_iff :
    a.openSession? = some .transmission ↔ a.transmitter.isSome := by
  cases ht : a.transmitter with
  | some f => simp [openSession?_of_transmitter ht]
  | none => cases hr : a.receiver <;> simp [openSession?, ht, hr]

theorem Orderly.openSession?_eq_reception_iff (h : a.Orderly) :
    a.openSession? = some .reception ↔ a.receiver.isSome := by
  cases hr : a.receiver with
  | some f => simp [openSession?_of_receiver (h.transmitter_eq_none hr) hr]
  | none => cases ht : a.transmitter <;> simp [openSession?, ht, hr]

theorem Orderly.enter (h : a.Orderly) (s : OperatingState) : (a.enter s).Orderly :=
  h.congr rfl rfl rfl

theorem Orderly.forget (h : a.Orderly) : a.forget.Orderly := h.congr rfl rfl rfl

theorem Orderly.closeTransmission (h : a.Orderly) : a.closeTransmission.Orderly := by
  cases ht : a.transmitter with
  | none =>
    rw [closeTransmission_of_none ht]
    exact h
  | some f =>
    have hr := h.receiver_eq_none ht
    have hb := h.bracketed
    rw [openSession?_of_transmitter ht] at hb
    have hm := congrArg marks (closeTransmission_of_some ht)
    refine ⟨.inl rfl, ?_⟩
    rw [openSession?_of_none (a := a.closeTransmission) rfl hr, hm]
    exact hb.closed

theorem Orderly.closeReception (h : a.Orderly) : a.closeReception.Orderly := by
  cases hr : a.receiver with
  | none =>
    rw [closeReception_of_none hr]
    exact h
  | some f =>
    have ht := h.transmitter_eq_none hr
    have hb := h.bracketed
    rw [openSession?_of_receiver ht hr] at hb
    have hm := congrArg marks (closeReception_of_some hr)
    refine ⟨.inr rfl, ?_⟩
    rw [openSession?_of_none (a := a.closeReception) ht rfl, hm]
    exact hb.closed

theorem Orderly.openTransmission (h : a.Orderly) (hr : a.receiver = none) :
    a.openTransmission.Orderly := by
  cases ht : a.transmitter with
  | some f =>
    rw [openTransmission_of_some ht]
    exact h
  | none =>
    have hb := h.bracketed
    rw [openSession?_of_none ht hr] at hb
    have hm := congrArg marks (openTransmission_of_none ht)
    refine ⟨.inr hr, ?_⟩
    rw [openSession?_of_transmitter (a := a.openTransmission) rfl, hm]
    exact hb.opened .transmission

theorem Orderly.openReception (h : a.Orderly) (ht : a.transmitter = none) :
    a.openReception.Orderly := by
  cases hr : a.receiver with
  | some f =>
    rw [openReception_of_some hr]
    exact h
  | none =>
    have hb := h.bracketed
    rw [openSession?_of_none ht hr] at hb
    have hm := congrArg marks (openReception_of_none hr)
    refine ⟨.inl ht, ?_⟩
    rw [openSession?_of_receiver (a := a.openReception) ht rfl, hm]
    exact hb.opened .reception

/-- A command that starts one framer stops the other one first. -/
theorem Orderly.execute (h : a.Orderly) (command : Command) : (a.execute command).Orderly := by
  have he := h.enter (command.transition a.state).next
  cases command with
  | nop | forcePllOn | txOn => exact he
  | txStart | txAretOn => exact he.forget.closeReception.openTransmission rfl
  | forceTrxOff | trxOff => exact he.forget.closeTransmission.forget.closeReception
  | rxOn | rxAackOn => exact he.forget.closeTransmission.openReception rfl

theorem Orderly.sleepPin (h : a.Orderly) (level : Bool) : (a.sleepPin level).Orderly := by
  unfold Activity.sleepPin
  split
  · exact h.enter _
  · exact h

theorem Orderly.reset (h : a.Orderly) : a.reset.Orderly := by
  have hv : ({ a with lastValid := false } : Activity).Orderly := h.congr rfl rfl rfl
  exact (hv.forget.closeTransmission.closeReception).enter .trxOff

theorem Orderly.transmit (h : a.Orderly) (i : TransmitInput) : (a.transmit i).Orderly := by
  rcases a.transmit_cases i with ⟨ht, he⟩ | ⟨f, ht, ⟨hf, he⟩ | ⟨hf, he⟩⟩ <;> rw [he]
  · exact h
  · exact (h.enter .pllOn).forget.closeTransmission
  · exact h.congr (by rw [ht]; rfl) rfl rfl

theorem Orderly.step (h : a.Orderly) (hs : a.Step b) : b.Orderly := by
  cases hs with
  | rests => exact h
  | executes command => exact h.execute command
  | seesSleepPin level => exact h.sleepPin level
  | resets => exact h.reset
  | transmits i => exact h.transmit i

theorem Orderly.hear (h : a.Orderly) (hh : a.Heard b) : b.Orderly := by
  cases hh with
  | deaf => exact h
  | hears hr hp hb =>
    obtain ⟨f', o, v, -, rfl⟩ := hb
    exact h.congr rfl (by rw [hr]; rfl) rfl
  | schedules hr => exact h.congr rfl (by rw [hr]; rfl) rfl
  | turnsAround => exact h.closeReception.openTransmission rfl
  | passes hr => exact h.congr rfl (by rw [hr]; rfl) rfl

end Activity

namespace Chip

variable {G : Type} [RandomWords G]

theorem Reachable.orderly {c : Chip G} (h : Reachable c) : c.activity.Orderly :=
  h.activity_induction Activity.orderly_initial (fun _ _ _ hs h => h.step hs)
    fun _ _ _ hh h => h.hear hh

/-- Whatever happens to a chip, it never transmits and receives at once, and the medium is told of
sessions in turn: past ones that were opened and then closed, and at most one that is still open,
which is open exactly as long as the chip transmits or receives. -/
theorem sessions_in_turn (config : Configuration) (now : Instant) (g : G)
    (ops : List Operation) :
    let c := (build config now g).run ops
    ¬(c.isTransmitting ∧ c.isReceiving) ∧
      ∃ (past : List Session) (current : Option Session),
        c.sessionMarks =
          past.flatMap (fun s => [.opened s, .closed s]) ++ current.toList.map .opened ∧
        (current = some .transmission ↔ c.isTransmitting) ∧
        (current = some .reception ↔ c.isReceiving) := by
  intro c
  have hc : c.activity.Orderly := ((reachable_build config now g).run ops).orderly
  obtain ⟨past, hpast⟩ := hc.bracketed
  exact ⟨hc.not_both, past, c.activity.openSession?, hpast,
    Activity.openSession?_eq_transmission_iff, hc.openSession?_eq_reception_iff⟩

end Chip

end Transceiver
