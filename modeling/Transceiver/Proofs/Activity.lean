import Transceiver.Proofs.Composition

/-!
# What a chip is engaged in

The activity of a chip is its operating state with what the status register shows of it, the two
framers, the acknowledgement that is owed, and the record of the sessions on the medium. Nothing
else decides when a session opens or closes. The operations of this module act on activities alone,
and for each of them a theorem `activity_*` says that the chip's own operation does the same.
-/

namespace Transceiver

inductive Session where
  | transmission
  | reception
  deriving DecidableEq

inductive SessionMark where
  | opened (s : Session)
  | closed (s : Session)
  deriving DecidableEq

def Signal.sessionMark? : Signal → Option SessionMark
  | .beginTransmission _ _ => some (.opened .transmission)
  | .endTransmission => some (.closed .transmission)
  | .beginReception _ => some (.opened .reception)
  | .endReception => some (.closed .reception)
  | .interrupt _ | .power _ => none

structure Activity where
  state : OperatingState
  /-- What the status register shows. -/
  status : UInt8
  transmitter : Option TransmitFramer
  receiver : Option ReceiveFramer
  owed : Option Acknowledgement
  lastValid : Bool
  marks : List SessionMark
  deriving DecidableEq

namespace Activity

def initial : Activity := ⟨.trxOff, OperatingState.trxOff.code, none, none, none, false, []⟩

variable (a : Activity)

def enter (s : OperatingState) : Activity := { a with state := s, status := s.code }

def forget : Activity := { a with owed := none }

def openTransmission : Activity := { a with
  transmitter := some (a.transmitter.getD .start)
  marks := a.marks ++ if a.transmitter.isSome then [] else [.opened .transmission] }

def closeTransmission : Activity := { a with
  transmitter := none
  marks := a.marks ++ if a.transmitter.isSome then [.closed .transmission] else [] }

def openReception : Activity := { a with
  receiver := some (a.receiver.getD .start)
  marks := a.marks ++ if a.receiver.isSome then [] else [.opened .reception] }

def closeReception : Activity := { a with
  receiver := none
  marks := a.marks ++ if a.receiver.isSome then [.closed .reception] else [] }

variable {a}

theorem openTransmission_of_some {f : TransmitFramer} (h : a.transmitter = some f) :
    a.openTransmission = a := by
  cases a
  cases h
  simp [openTransmission]

theorem openTransmission_of_none (h : a.transmitter = none) :
    a.openTransmission = { a with
      transmitter := some .start
      marks := a.marks ++ [.opened .transmission] } := by
  simp [openTransmission, h]

theorem closeTransmission_of_some {f : TransmitFramer} (h : a.transmitter = some f) :
    a.closeTransmission = { a with
      transmitter := none
      marks := a.marks ++ [.closed .transmission] } := by
  simp [closeTransmission, h]

theorem closeTransmission_of_none (h : a.transmitter = none) : a.closeTransmission = a := by
  cases a
  cases h
  simp [closeTransmission]

theorem openReception_of_some {f : ReceiveFramer} (h : a.receiver = some f) :
    a.openReception = a := by
  cases a
  cases h
  simp [openReception]

theorem openReception_of_none (h : a.receiver = none) :
    a.openReception = { a with
      receiver := some .start
      marks := a.marks ++ [.opened .reception] } := by
  simp [openReception, h]

theorem closeReception_of_some {f : ReceiveFramer} (h : a.receiver = some f) :
    a.closeReception = { a with
      receiver := none
      marks := a.marks ++ [.closed .reception] } := by
  simp [closeReception, h]

theorem closeReception_of_none (h : a.receiver = none) : a.closeReception = a := by
  cases a
  cases h
  simp [closeReception]

variable (a)

def steer (t : Transition) : Activity :=
  let a := if t.transmitter = .stop then a.forget.closeTransmission else a
  let a := if t.receiver = .stop then a.forget.closeReception else a
  let a := if t.transmitter = .start then a.openTransmission else a
  if t.receiver = .start then a.openReception else a

def execute (command : Command) : Activity :=
  (a.enter (command.transition a.state).next).steer (command.transition a.state)

def sleepPin (level : Bool) : Activity :=
  match a.state.sleepEdge? level with
  | some (next, _) => a.enter next
  | none => a

def reset : Activity :=
  { a with lastValid := false }.forget.closeTransmission.closeReception.enter .trxOff

def transmit (i : TransmitInput) : Activity :=
  match a.transmitter with
  | none => a
  | some f =>
    let (f', out) := f.step i
    let a := { a with
      transmitter := some f'
      owed := if out.acknowledged then none else a.owed }
    if out.finished then (a.enter .pllOn).forget.closeTransmission else a

variable {a}

theorem transmit_of_none (h : a.transmitter = none) (i : TransmitInput) : a.transmit i = a := by
  simp only [transmit, h]

theorem transmit_of_more {f : TransmitFramer} {i : TransmitInput} (h : a.transmitter = some f)
    (hf : (f.step i).2.finished = false) : a.transmit i = { a with
      transmitter := some (f.step i).1
      owed := if (f.step i).2.acknowledged then none else a.owed } := by
  simp [transmit, h, hf]

/-- The last octet closes the session, and nothing is owed any more. -/
theorem transmit_of_last {f : TransmitFramer} {i : TransmitInput} (h : a.transmitter = some f)
    (hf : (f.step i).2.finished = true) :
    a.transmit i = (a.enter .pllOn).forget.closeTransmission := by
  simp [transmit, h, hf, closeTransmission, forget, enter]

theorem transmit_cases (a : Activity) (i : TransmitInput) :
    a.transmitter = none ∧ a.transmit i = a ∨ ∃ f, a.transmitter = some f ∧
      ((f.step i).2.finished = true ∧
        a.transmit i = (a.enter .pllOn).forget.closeTransmission ∨
      (f.step i).2.finished = false ∧ a.transmit i = { a with
        transmitter := some (f.step i).1
        owed := if (f.step i).2.acknowledged then none else a.owed }) := by
  cases ht : a.transmitter with
  | none => exact .inl ⟨rfl, transmit_of_none ht i⟩
  | some f =>
    refine .inr ⟨f, rfl, ?_⟩
    cases hf : (f.step i).2.finished with
    | true => exact .inl ⟨rfl, transmit_of_last ht hf⟩
    | false => exact .inr ⟨rfl, transmit_of_more ht hf⟩

end Activity

namespace Chip

variable {G : Type} (c : Chip G)

/-- The sessions opened and closed so far, as the medium was told. -/
def sessionMarks : List SessionMark := c.surroundings.signals.filterMap Signal.sessionMark?

def activity : Activity where
  state := c.state
  status := c.registers.get .trxStatus
  transmitter := c.transmitter
  receiver := c.receiver
  owed := c.owed
  lastValid := c.lastValid
  marks := c.sessionMarks

theorem activity_build (config : Configuration) (now : Instant) (g : G) :
    (build config now g).activity = .initial := by
  simp [build, activity, sessionMarks, Activity.initial]

theorem activity_give (x : Signal) : (c.give x).activity =
    { c.activity with marks := c.activity.marks ++ x.sessionMark?.toList } := by
  cases x <;> simp [activity, sessionMarks, give, Signal.sessionMark?]

@[simp] theorem activity_enter (s : OperatingState) :
    (c.enter s).activity = c.activity.enter s := by
  simp [activity, sessionMarks, enter, Activity.enter]

theorem status_set {f : RegisterFile} {r : Register} (v : UInt8) (h : r ≠ .trxStatus) :
    (f.set r v).get .trxStatus = f.get .trxStatus := f.get_set_of_ne v h

theorem activity_setRegister {r : Register} (v : UInt8) (h : r ≠ .trxStatus) :
    activity { c with registers := c.registers.set r v } = c.activity := by
  simp only [activity, status_set v h]
  rfl

@[simp] theorem activity_latch (e : Event) : (c.latch e).activity = c.activity :=
  c.activity_setRegister _ (by decide)

@[simp] theorem activity_post (e : Event) : (c.post e).activity = c.activity := by
  unfold post
  split
  · simp [activity_give, Signal.sessionMark?]
  · rfl

@[simp] theorem activity_raise (e : Event) : (c.raise e).activity = c.activity := by
  unfold raise
  split
  · rw [activity_post, activity_latch]
  · split
    · exact c.activity_latch e
    · rfl

theorem activity_setRssi (rssi : UInt8) :
    activity { c with registers := c.registers.setRssi rssi } = c.activity :=
  c.activity_setRegister _ (by decide)

theorem activity_setOutcome (outcome : UInt8) :
    activity { c with registers := c.registers.setOutcome outcome } = c.activity :=
  c.activity_setRegister _ (by decide)

/-! ### Sessions -/

theorem activity_beginTransmission :
    c.beginTransmission.activity = c.activity.openTransmission := by
  unfold beginTransmission
  cases h : c.transmitter with
  | some f => exact (Activity.openTransmission_of_some (a := c.activity) h).symm
  | none =>
    rw [Activity.openTransmission_of_none (a := c.activity) h]
    by_cases ho : c.owed.isNone
    · simp [ho, activity, sessionMarks, give, List.filterMap_cons, Signal.sessionMark?]
    · simp [ho, activity, sessionMarks, give, List.filterMap_cons, Signal.sessionMark?]

theorem activity_endTransmission : c.endTransmission.activity = c.activity.closeTransmission := by
  unfold endTransmission
  cases h : c.transmitter with
  | some f =>
    rw [Activity.closeTransmission_of_some (a := c.activity) h]
    simp [activity, sessionMarks, give, Signal.sessionMark?]
  | none => exact (Activity.closeTransmission_of_none (a := c.activity) h).symm

theorem activity_abandonTransmission :
    c.abandonTransmission.activity = c.activity.forget.closeTransmission :=
  activity_endTransmission { c with owed := none }

theorem activity_beginReception : c.beginReception.activity = c.activity.openReception := by
  unfold beginReception
  cases h : c.receiver with
  | some f => exact (Activity.openReception_of_some (a := c.activity) h).symm
  | none =>
    rw [Activity.openReception_of_none (a := c.activity) h]
    simp [activity, sessionMarks, give, List.filterMap_cons, Signal.sessionMark?]

theorem activity_endReception : c.endReception.activity = c.activity.closeReception := by
  unfold endReception
  cases h : c.receiver with
  | some f =>
    rw [Activity.closeReception_of_some (a := c.activity) h]
    have hs : (c.registers.setRssi 0).get .trxStatus = c.registers.get .trxStatus :=
      status_set _ (by decide)
    simp [activity, sessionMarks, give, Signal.sessionMark?, hs]
  | none => exact (Activity.closeReception_of_none (a := c.activity) h).symm

theorem activity_abandonReception :
    c.abandonReception.activity = c.activity.forget.closeReception :=
  activity_endReception { c with owed := none }

/-! ### Control by the node -/

theorem activity_steer (t : Transition) : (c.steer t).activity = c.activity.steer t := by
  unfold steer Activity.steer
  cases t.transmitter <;> cases t.receiver <;>
    simp [activity_abandonTransmission, activity_abandonReception, activity_beginTransmission,
      activity_beginReception]

theorem activity_execute (command : Command) :
    (c.execute command).activity = c.activity.execute command := by
  have houtcome (b : Bool) :
      (if b then { c with registers := c.registers.setOutcome 0xE0 } else c).activity =
        c.activity := by
    cases b with
    | true => exact c.activity_setOutcome 0xE0
    | false => rfl
  unfold execute
  rw [activity_steer, activity_enter, houtcome]
  rfl

theorem activity_command (code : UInt8) :
    (c.command code).activity = c.activity.execute ((Command.ofCode? code).getD .nop) :=
  c.activity_execute _

theorem activity_writeRegister (r : Register) (v : UInt8) :
    (c.writeRegister r v).activity = if r = .trxState then
      c.activity.execute ((Command.ofCode? (v &&& 0x1F)).getD .nop) else c.activity := by
  unfold writeRegister
  by_cases hs : r = .trxStatus
  · have hr : r ≠ .trxState := by rw [hs]; decide
    rw [if_pos hs, if_neg hr]
  · rw [if_neg hs]
    by_cases hr : r = .trxState
    · simp only [if_pos hr, activity_command, c.activity_setRegister v hs]
    · simp only [if_neg hr, c.activity_setRegister v hs]

theorem activity_readRegister (r : Register) : (c.readRegister r).2.activity = c.activity := by
  unfold readRegister RegisterFile.read
  by_cases hr : r = .irqStatus
  · simp only [if_pos hr]
    exact c.activity_setRegister 0 (by rw [hr]; decide)
  · simp only [if_neg hr]

theorem activity_sleepPin (level : Bool) :
    (c.sleepPin level).activity = c.activity.sleepPin level := by
  have hs : c.activity.state = c.state := rfl
  unfold sleepPin Activity.sleepPin
  rw [hs]
  cases c.state.sleepEdge? level with
  | none => rfl
  | some edge =>
    obtain ⟨next, mode⟩ := edge
    cases mode with
    | none => exact c.activity_enter next
    | some mode =>
      simp only [activity_enter, activity_give, Signal.sessionMark?, Option.toList_none,
        List.append_nil]

theorem activity_reset : c.reset.activity = c.activity.reset := by
  let cleared : Chip G := { c with
    registers := .reset c.ieee
    owed := none
    dataWaiting := false
    lastValid := false }
  have hreset : c.reset.activity =
      (cleared.abandonTransmission.abandonReception.activity).enter .trxOff := by
    unfold reset
    simp only [activity_give, activity_enter, Signal.sessionMark?, Option.toList_none,
      List.append_nil]
    rfl
  rw [hreset, activity_abandonReception, activity_abandonTransmission]
  cases ht : c.transmitter <;> cases hr : c.receiver <;>
    simp [cleared, activity, sessionMarks, Activity.reset, Activity.forget, Activity.enter,
      Activity.closeTransmission, Activity.closeReception, ht, hr]

theorem receiver_reset : c.reset.receiver = none := congrArg Activity.receiver c.activity_reset

theorem activity_advance (now : Instant) : (c.advance now).activity = c.activity := by
  unfold advance
  obtain ⟨fired, timer⟩ := c.rssiTimer.poll now
  simp only
  split
  · exact activity_setRssi { c with rssiTimer := timer } settledRssi
  · rfl

/-! ### Transmission -/

theorem activity_finishTransmission : c.finishTransmission.activity =
    (c.activity.enter .pllOn).forget.closeTransmission := by
  unfold finishTransmission
  rw [activity_abandonTransmission, activity_raise, activity_setOutcome, activity_enter]

theorem activity_afterOctet (out : TransmitOutput) : (c.afterOctet out).activity =
    let a := { c.activity with owed := if out.acknowledged then none else c.activity.owed }
    if out.finished then (a.enter .pllOn).forget.closeTransmission else a := by
  have htaken : (if out.consumed then { c with buffer := c.buffer.pop.2 } else c).activity =
      c.activity := by
    split <;> rfl
  have hkept (d : Chip G) (h : d.activity = c.activity) :
      (if out.acknowledged then { d with owed := none } else d).activity =
        { c.activity with owed := if out.acknowledged then none else c.activity.owed } := by
    cases out.acknowledged with
    | true => exact congrArg Activity.forget h
    | false => exact h
  have hraised (d : Chip G) :
      (if out.underrun then d.raise .underrun else d).activity = d.activity := by
    split
    · exact d.activity_raise .underrun
    · rfl
  unfold afterOctet
  simp only
  split
  · rw [activity_finishTransmission, hraised, hkept _ htaken]
  · rw [hraised, hkept _ htaken]

theorem activity_transmit : c.transmit.2.activity = c.activity.transmit c.transmitInput := by
  unfold transmit Activity.transmit
  have ht : c.activity.transmitter = c.transmitter := rfl
  rw [ht]
  cases c.transmitter with
  | none => rfl
  | some f => exact activity_afterOctet { c with transmitter := some (f.step c.transmitInput).1 } _

end Chip

end Transceiver
