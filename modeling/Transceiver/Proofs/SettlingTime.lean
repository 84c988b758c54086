import Transceiver.Proofs.SessionRecord
import Transceiver.Proofs.SignalMeter
import Transceiver.Proofs.WrittenSettings

/-!
# The settling of the signal strength

The medium is told when a session of the receiver opens and closes, and from then on the chip looks
at the clock now and then. A `Reception` is the session that is open, as far as it has come: the
time when it was opened and those of the looks since. It is read off the history alone, and yet it
says where the timer of the chip stands (`Tracks`), whatever the node and the medium do. So the
first look in a session that is not before its deadline lets the signal strength settle, and nothing
else does: `strength_settles_once`.
-/

namespace Transceiver

structure Reception where
  opened : Instant
  /-- The times at which the chip has looked at the clock since. -/
  looks : List Instant
  deriving DecidableEq

namespace Reception

variable (r : Reception)

/-- The signal strength settles at this time, or at the last one that there is. -/
def deadline : Instant := r.opened.after Chip.settlingTime

/-- The chip has looked at the clock at the deadline or later. -/
def settled : Bool := r.looks.any r.deadline.reachedBy

def settlesAt (now : Instant) : Bool := r.deadline.reachedBy now && !r.settled

def look (now : Instant) : Reception := { r with looks := r.looks ++ [now] }

def timer : Timer := if r.settled then .idle else .arm r.deadline

theorem settled_look (now : Instant) :
    (r.look now).settled = (r.settled || r.deadline.reachedBy now) := by
  simp [settled, look, deadline]

theorem timer_look (now : Instant) :
    (r.look now).timer = if r.settlesAt now then .idle else r.timer := by
  have hdeadline : (r.look now).deadline = r.deadline := rfl
  unfold timer settlesAt
  rw [settled_look, hdeadline]
  cases r.settled <;> cases r.deadline.reachedBy now <;> rfl

theorem poll_timer (now : Instant) : r.timer.poll now = (r.settlesAt now, (r.look now).timer) := by
  rw [timer_look]
  unfold timer settlesAt
  cases r.settled with
  | true => simp
  | false => cases hdue : r.deadline.reachedBy now <;> simp [Timer.poll_arm, hdue]

end Reception

/-! ### Marks of the receiver -/

namespace Activity

def marksTo (a b : Activity) : List SessionMark := b.marks.drop a.marks.length

structure Announces (a b : Activity) : Prop where
  opened_iff : .opened .reception ∈ a.marksTo b ↔ a.receiver = none ∧ b.receiver ≠ none
  closed_iff : .closed .reception ∈ a.marksTo b ↔ a.receiver ≠ none ∧ b.receiver = none

variable {a b : Activity}

theorem announces_of_same (hm : b.marks = a.marks)
    (hr : b.receiver.isSome = a.receiver.isSome) : a.Announces b := by
  have hnone : b.receiver = none ↔ a.receiver = none := by
    rw [← Option.isNone_iff_eq_none, ← Option.isNone_iff_eq_none, ← Option.not_isSome,
      ← Option.not_isSome, hr]
  constructor <;> simp [marksTo, hm, hnone]

theorem announces_execute (a : Activity) (command : Command) :
    a.Announces (a.execute command) := by
  cases ht : a.transmitter <;> cases hr : a.receiver <;> cases command <;> constructor <;>
    simp [marksTo, execute, Command.transition, steer, enter, forget, openTransmission,
      closeTransmission, openReception, closeReception, ht, hr]

theorem announces_reset (a : Activity) : a.Announces a.reset := by
  cases ht : a.transmitter <;> cases hr : a.receiver <;> constructor <;>
    simp [marksTo, reset, enter, forget, closeTransmission, closeReception, ht, hr]

theorem announces_turn (a : Activity) : a.Announces a.closeReception.openTransmission := by
  cases ht : a.transmitter <;> cases hr : a.receiver <;> constructor <;>
    simp [marksTo, openTransmission, closeReception, ht, hr]

theorem announces_transmit (a : Activity) (i : TransmitInput) : a.Announces (a.transmit i) := by
  rcases a.transmit_cases i with ⟨-, he⟩ | ⟨f, ht, ⟨-, he⟩ | ⟨-, he⟩⟩ <;> rw [he]
  · exact announces_of_same rfl rfl
  · constructor <;> simp [marksTo, enter, forget, closeTransmission, ht]
  · exact announces_of_same rfl rfl

theorem Step.announces (h : a.Step b) : a.Announces b := by
  cases h with
  | rests => exact announces_of_same rfl rfl
  | executes command => exact a.announces_execute command
  | seesSleepPin level =>
    unfold sleepPin
    split <;> exact announces_of_same rfl rfl
  | resets => exact a.announces_reset
  | transmits i => exact a.announces_transmit i

theorem Heard.announces (h : a.Heard b) : a.Announces b := by
  cases h with
  | deaf => exact announces_of_same rfl rfl
  | hears hr hp hb =>
    obtain ⟨g, o, v, -, rfl⟩ := hb
    exact announces_of_same rfl (by simp [hr])
  | schedules hr => exact announces_of_same rfl (by simp [hr])
  | turnsAround => exact a.announces_turn
  | passes hr => exact announces_of_same rfl (by simp [hr])

end Activity

namespace Meter

structure Tracks (m : Meter) (r : Option Reception) : Prop where
  isOn_eq : m.isOn = r.isSome
  timer_eq : m.timer = r.elim .idle Reception.timer

variable {m : Meter} {r : Option Reception}

theorem Tracks.look (h : m.Tracks r) (now : Instant) : (m.look now).Tracks (r.map (·.look now)) := by
  refine ⟨by simp [Meter.look, h.isOn_eq], ?_⟩
  simp only [Meter.look, h.timer_eq]
  cases r with
  | none => rfl
  | some r => exact congrArg Prod.snd (r.poll_timer now)

/-- A look at the clock shows the settled value when it is the first one at the deadline or later. -/
theorem Tracks.reading_look (h : m.Tracks r) (now : Instant) : (m.look now).reading =
    if r.any (·.settlesAt now) then settledRssi else m.reading := by
  simp only [Meter.look, h.timer_eq, h.isOn_eq]
  cases r with
  | none => simp
  | some r => simp [r.poll_timer]

end Meter

namespace Chip

variable {G : Type} {c : Chip G}

def settle (c : Chip G) : Chip G :=
  { c with registers := c.registers.setRssi settledRssi, rssiTimer := .idle }

/-- A look at the clock lets the signal strength settle, or does nothing at all. -/
theorem advance_of_tracks {r : Option Reception} (h : c.meter.Tracks r) (now : Instant) :
    c.advance now = if r.any (·.settlesAt now) then c.settle else c := by
  have htimer : c.rssiTimer = r.elim .idle Reception.timer := h.timer_eq
  have hon : c.isReceiving = r.isSome := h.isOn_eq
  have hsame (t : Timer) (ht : t = c.rssiTimer) : { c with rssiTimer := t } = c := by rw [ht]
  unfold advance
  cases r with
  | none =>
    have hidle : c.rssiTimer = .idle := htimer
    simp only [hidle, Timer.poll_idle]
    exact hsame .idle hidle.symm
  | some r =>
    have hrunning : c.rssiTimer = r.timer := htimer
    have hreceiving (t : Timer) : isReceiving { c with rssiTimer := t } = true := hon
    simp only [hrunning, r.poll_timer, hreceiving, Bool.and_true, Option.any_some]
    rw [r.timer_look]
    by_cases hsettles : r.settlesAt now = true
    · simp only [if_pos hsettles]
      rfl
    · simp only [if_neg hsettles]
      exact hsame _ hrunning.symm

variable [RandomWords G]

def marksOf (c : Chip G) (op : Operation) : List SessionMark :=
  (c.after op).sessionMarks.drop c.sessionMarks.length

def receptionAfter (c : Chip G) (r : Option Reception) (op : Operation) : Option Reception :=
  if .closed .reception ∈ c.marksOf op then none
  else if .opened .reception ∈ c.marksOf op then some ⟨c.surroundings.now, []⟩
  else (c.lookedAt? op).elim r fun now => r.map (·.look now)

def reception? (c : Chip G) (r : Option Reception) : List Operation → Option Reception
  | [] => r
  | op :: ops => (c.after op).reception? (c.receptionAfter r op) ops

theorem closes_iff (c : Chip G) (op : Operation) : .closed .reception ∈ c.marksOf op ↔
    c.meter.isOn = true ∧ (c.after op).meter.isOn = false := by
  have hannounces : c.activity.Announces (c.after op).activity :=
    (c.step_or_heard_after op).elim Activity.Step.announces Activity.Heard.announces
  refine hannounces.closed_iff.trans ?_
  simp [meter, isReceiving, activity, Option.ne_none_iff_isSome]

theorem opens_iff (c : Chip G) (op : Operation) : .opened .reception ∈ c.marksOf op ↔
    c.meter.isOn = false ∧ (c.after op).meter.isOn = true := by
  have hannounces : c.activity.Announces (c.after op).activity :=
    (c.step_or_heard_after op).elim Activity.Step.announces Activity.Heard.announces
  refine hannounces.opened_iff.trans ?_
  simp [meter, isReceiving, activity, Option.ne_none_iff_isSome]

/-- What becomes of the meter when a session of the receiver is opened, is closed, or neither. -/
theorem meter_after_cases (c : Chip G) (op : Operation) :
    .closed .reception ∈ c.marksOf op ∧ (c.after op).meter = ⟨false, .idle, 0⟩ ∨
    .closed .reception ∉ c.marksOf op ∧ .opened .reception ∈ c.marksOf op ∧
      (c.after op).meter = { c.metered op with
        isOn := true
        timer := .arm (c.surroundings.now.after settlingTime) } ∨
    .closed .reception ∉ c.marksOf op ∧ .opened .reception ∉ c.marksOf op ∧
      (c.after op).meter = c.metered op := by
  have hon : (c.metered op).isOn = c.meter.isOn := by
    unfold metered
    cases c.lookedAt? op <;> rfl
  rw [closes_iff, opens_iff, ← hon]
  rcases c.meter_after op with hm | hm | hm <;> rw [hm] <;>
    cases hm' : (c.metered op).isOn <;> simp [Meter.switchOff, Meter.switchOn, hm']

/-- The session that the history tells of goes on as the meter does. -/
theorem tracks_after {r : Option Reception} (h : c.meter.Tracks r) (op : Operation) :
    (c.after op).meter.Tracks (c.receptionAfter r op) := by
  have hlooked : (c.metered op).Tracks ((c.lookedAt? op).elim r fun now => r.map (·.look now)) := by
    unfold metered
    cases c.lookedAt? op with
    | none => exact ⟨h.isOn_eq, h.timer_eq⟩
    | some now => exact ⟨(h.look now).isOn_eq, (h.look now).timer_eq⟩
  unfold receptionAfter
  rcases c.meter_after_cases op with ⟨hc, hm⟩ | ⟨hc, ho, hm⟩ | ⟨hc, ho, hm⟩
  · rw [if_pos hc, hm]
    exact ⟨rfl, rfl⟩
  · rw [if_neg hc, if_pos ho, hm]
    exact ⟨rfl, rfl⟩
  · rw [if_neg hc, if_neg ho, hm]
    exact hlooked

theorem tracks_run {r : Option Reception} (h : c.meter.Tracks r) (ops : List Operation) :
    (c.run ops).meter.Tracks (c.reception? r ops) := by
  induction ops generalizing c r with
  | nil => exact h
  | cons op ops ih => exact ih (tracks_after h op)

/-! ### The strength register -/

theorem octet_of_halves (v : UInt8) : (v &&& 0xE0) ||| (v &&& 0x1F) = v := by
  have hall : (0xE0 : UInt8) ||| 0x1F = -1 := rfl
  rw [UInt8.and_comm v, UInt8.and_comm v, ← octet_and_or_distrib, hall, UInt8.and_comm,
    UInt8.and_neg_one]

/-- The upper bits of the register are the node's. -/
theorem upper_after (c : Chip G) (op : Operation) :
    let v := c.registers.get .phyRssi
    (c.after op).registers.get .phyRssi &&& 0xE0 = (op.strength? v).getD v &&& 0xE0 := by
  intro v
  have hbits (d : Chip G) : d.settings.bits .phyRssi = d.registers.get .phyRssi &&& 0xE0 := rfl
  rw [← hbits, c.settings_after op]
  cases op with
  | writeRegister r w =>
    by_cases hr : r = .phyRssi
    · subst hr
      simp only [Settings.set, Operation.strength?, if_pos]
      rfl
    · simp only [Settings.set, Operation.strength?, if_neg hr, if_neg (Ne.symm hr)]
      rfl
  | reset =>
    have hreset := RegisterFile.get_reset c.ieee .phyRssi (by decide)
    exact congrArg (· &&& 0xE0) hreset
  | setRssi dbm =>
    exact (masked_or rfl (and_eq_zero_of_le_maxRssi (rssiOfDbm_le dbm))).symm
  | receive carrier b =>
    simp only
    cases c.announced? carrier b <;> rfl
  | _ => rfl

/-- The strength register when an operation has looked at the clock and put its own value there, if
it does, and before it closes a session. -/
def shownIn (c : Chip G) (r : Option Reception) (op : Operation) : UInt8 :=
  let v := c.registers.get .phyRssi
  (op.strength? v).getD (if (c.lookedAt? op).any fun now => r.any (·.settlesAt now) then
    (v &&& 0xE0) ||| settledRssi else v)

omit [RandomWords G] in
theorem reading_metered {r : Option Reception} (h : c.meter.Tracks r) (op : Operation) :
    (c.metered op).reading = c.shownIn r op &&& 0x1F := by
  have hsettled : settledRssi &&& 0x1F = settledRssi := rfl
  unfold metered shownIn
  simp only
  cases op.strength? (c.registers.get .phyRssi) with
  | some w => rfl
  | none =>
    cases c.lookedAt? op with
    | none => rfl
    | some now =>
      refine (h.reading_look now).trans ?_
      simp only [Option.any_some, Option.getD_none]
      split
      · exact (reading_of_parts hsettled _).symm
      · rfl

omit [RandomWords G] in
theorem upper_shownIn (c : Chip G) (r : Option Reception) (op : Operation) :
    c.shownIn r op &&& 0xE0 =
      (op.strength? (c.registers.get .phyRssi)).getD (c.registers.get .phyRssi) &&& 0xE0 := by
  have hsettled : settledRssi &&& 0xE0 = 0 := rfl
  unfold shownIn
  simp only
  cases op.strength? (c.registers.get .phyRssi) with
  | some w => rfl
  | none =>
    simp only [Option.getD_none]
    split
    · exact masked_or rfl hsettled
    · rfl

/-- If an operation closes the session then only the upper bits are left in the register. -/
theorem strength_after {r : Option Reception} (h : c.meter.Tracks r) (op : Operation) :
    (c.after op).registers.get .phyRssi =
      if .closed .reception ∈ c.marksOf op then c.shownIn r op &&& 0xE0 else c.shownIn r op := by
  have hupper := (c.upper_after op).trans (c.upper_shownIn r op).symm
  have hlower := reading_metered h op
  have hreading : (c.after op).registers.get .phyRssi &&& 0x1F = (c.after op).meter.reading := rfl
  rw [← octet_of_halves ((c.after op).registers.get .phyRssi), hupper, hreading]
  rcases c.meter_after_cases op with ⟨hc, hm⟩ | ⟨hc, -, hm⟩ | ⟨hc, -, hm⟩
  · rw [if_pos hc, hm]
    exact UInt8.or_zero
  · rw [if_neg hc, hm]
    simp only [hlower, octet_of_halves]
  · rw [if_neg hc, hm, hlower, octet_of_halves]

/-- Only a session that a reset closes takes the upper bits along. -/
theorem parts_of_closes {r : Option Reception} (h : c.meter.Tracks r) {op : Operation}
    (hc : .closed .reception ∈ c.marksOf op) :
    (c.after op).registers.get .phyRssi &&& 0x1F = 0 ∧ (op.isReset = false →
      (c.after op).registers.get .phyRssi &&& 0xE0 = c.registers.get .phyRssi &&& 0xE0) := by
  have hstrength := strength_after h op
  rw [if_pos hc] at hstrength
  have hdisjoint : (0xE0 : UInt8) &&& 0x1F = 0 := rfl
  refine ⟨by rw [hstrength, UInt8.and_assoc, hdisjoint, UInt8.and_zero], fun hreset => ?_⟩
  rw [upper_after]
  cases op with
  | reset => cases hreset
  | setRssi dbm => exact masked_or rfl (and_eq_zero_of_le_maxRssi (rssiOfDbm_le dbm))
  | writeRegister q v =>
    by_cases hq : q = .phyRssi
    · -- Such a write leaves the receiver alone.
      subst hq
      obtain ⟨hon, hoff⟩ := (c.closes_iff _).1 hc
      have hwritten : (c.after (.writeRegister .phyRssi v)).meter = _ := c.meter_writeStrength v
      rw [hwritten] at hoff
      cases hon.symm.trans hoff
    · simp only [Operation.strength?, if_neg hq, Option.getD_none]
  | _ => rfl

/-- The signal strength settles once in a session of the receiver. The deadline is 128 µs after the
session was opened, or the end of time. The first look at the clock in the session that is not
before it shows the settled value, ahead of the octet if there is one, and any other look leaves the
chip as it is, whatever happens in between; the timer runs in sessions only. The strength register
changes otherwise with what the node, the medium or a reset puts there, and when a session is
closed, which leaves the upper bits alone unless it is by a reset. -/
theorem strength_settles_once (config : Configuration) (now : Instant) (g : G)
    (ops : List Operation) :
    let c := (build config now g).run ops
    let session := (build config now g).reception? none ops
    (∀ r ∈ session,
      r.deadline.micros.toNat = min (r.opened.micros.toNat + 128) (UInt64.size - 1)) ∧
    session.isSome = c.isReceiving ∧
    (c.rssiTimer.isArmed = true → c.isReceiving = true) ∧
    (∀ t, c.advance t = if session.any (·.settlesAt t) then c.settle else c) ∧
    (∀ carrier b, (c.receive carrier b).2 =
      (if session.any (·.settlesAt c.surroundings.now) then c.settle else c).hear carrier b) ∧
    ∀ op,
      let v := c.registers.get .phyRssi
      let v' := (c.after op).registers.get .phyRssi
      let settles := (c.lookedAt? op).any fun t => session.any (·.settlesAt t)
      let shown := (op.strength? v).getD (if settles then (v &&& 0xE0) ||| 20 else v)
      v' = (if .closed .reception ∈ c.marksOf op then shown &&& 0xE0 else shown) ∧
        (.closed .reception ∈ c.marksOf op →
          v' &&& 0x1F = 0 ∧ (op.isReset = false → v' &&& 0xE0 = v &&& 0xE0)) := by
  intro c session
  have htracks : c.meter.Tracks session :=
    tracks_run (c := build config now g) ⟨rfl, rfl⟩ ops
  have hadvance (t : Instant) := advance_of_tracks htracks t
  refine ⟨fun r _ => r.opened.toNat_after settlingTime, htracks.isOn_eq.symm, fun harmed => ?_,
    hadvance, fun carrier b => ?_, fun op => ⟨strength_after htracks op, parts_of_closes htracks⟩⟩
  · by_contra hoff
    have hrest := ((reachable_build config now g).run ops).meter_atRest (eq_false_of_ne_true hoff)
    have hidle : c.rssiTimer = .idle := hrest
    rw [hidle] at harmed
    cases harmed
  · rw [snd_receive, hadvance]

/-- The register before the deadline, at it, when the node has written something else there, at later
looks of the same session, and when the session is over. -/
example :
    let config : Configuration := ⟨.at86rf231, Vector.replicate 8 0, none, 0⟩
    let c : Chip Mixer := build config (Instant.mk 0) (Mixer.mk 0)
    let ops : List Operation := [.command Command.rxOn.code, .advance (Instant.mk 127),
      .advance (Instant.mk 128), .writeRegister .phyRssi 0xE3, .command Command.rxAackOn.code,
      .advance (Instant.mk 1000), .command Command.trxOff.code]
    ops.inits.map (fun l => (c.run l).registers.get .phyRssi) =
      [0, 0, 0, 20, 0xE3, 0xE3, 0xE3, 0xE0] := by
  decide +kernel

end Chip

end Transceiver
