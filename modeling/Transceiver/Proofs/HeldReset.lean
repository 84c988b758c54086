import Transceiver.Proofs.BusIsolation
import Transceiver.Proofs.Reset

/-!
# A radio held in reset

While the reset pin of a serial radio is low, nothing that is shifted in comes as far as the chip,
and a chip that was reset sends and hears nothing. The sleep line is another matter: its edges reach
the chip all the same, and nothing else does (`Held.chip_run`). As long as the line does not rise,
the chip stays as the reset left it.
-/

namespace Transceiver

variable {G : Type}

inductive BusCall where
  | readRegister (r : Register)
  | writeRegister (r : Register) (v : UInt8)
  | modifyRegister (r : Register) (g : UInt8 → UInt8)
  | command (order : Command)
  | readFrame (index : UInt8)
  | writeFrame (index v : UInt8)
  | upload (image : List UInt8)
  | download (limit : Nat)

def BusCall.on {B : Type} [RegisterBus B] (bus : B) : BusCall → B
  | readRegister r => (RegisterBus.readRegister bus r).2
  | writeRegister r v => RegisterBus.writeRegister bus r v
  | modifyRegister r g => RegisterBus.modifyRegister bus r g
  | command order => RegisterBus.command bus order
  | readFrame index => (RegisterBus.readFrame bus index).2
  | writeFrame index v => RegisterBus.writeFrame bus index v
  | upload image => RegisterBus.upload bus image
  | download limit => (RegisterBus.download bus limit).2

inductive SerialOperation where
  | select (level : Bool)
  | resetPin (level : Bool)
  | sleepPin (level : Bool)
  | exchange (b : UInt8)
  | transfer (octets : List UInt8)
  | call (x : BusCall)
  | setSleep (level : Bool)
  | setReset (asserted : Bool)
  | pulseReset
  | chip (op : Operation)

namespace SerialOperation

def sleepLevel? : SerialOperation → Option Bool
  | sleepPin level | setSleep level => some level
  | _ => none

/-- Whether a reset that is asserted stays so, and the chip is left to the medium and the clock. -/
def keepsReset : SerialOperation → Bool
  | resetPin level => !level
  | setReset asserted => asserted
  | pulseReset => false
  | chip .transmit | chip (.receive ..) | chip (.advance _) | chip (.setTime _) => true
  | chip _ => false
  | _ => true

def sleepEdges (level : Bool) : List SerialOperation → List Bool
  | [] => []
  | op :: ops =>
    match op.sleepLevel? with
    | some next => if level = next then sleepEdges level ops else next :: sleepEdges next ops
    | none => sleepEdges level ops

end SerialOperation

namespace SerialRadio

structure Kept (P : SerialRadio G → Prop) : Prop where
  setSelect : ∀ s level, P s → P (s.setSelect level)
  exchange : ∀ s b, P s → P (s.exchange b).2

namespace Kept

variable {P : SerialRadio G → Prop} {s : SerialRadio G}

theorem exchangeAll (h : Kept P) (hs : P s) (octets : List UInt8) :
    P (s.exchangeAll octets).2 := by
  induction octets generalizing s with
  | nil => exact hs
  | cons b r ih => exact ih (h.exchange s b hs)

theorem transfer (h : Kept P) (hs : P s) (octets : List UInt8) : P (s.transfer octets).2 :=
  h.setSelect _ true (h.exchangeAll (h.setSelect s false hs) octets)

theorem readRegister (h : Kept P) (hs : P s) (r : Register) :
    P (RegisterBus.readRegister s r).2 := h.transfer hs [(Access.readRegister r).toByte, 0]

theorem writeRegister (h : Kept P) (hs : P s) (r : Register) (v : UInt8) :
    P (RegisterBus.writeRegister s r v) := h.transfer hs [(Access.writeRegister r).toByte, v]

theorem readFrame (h : Kept P) (hs : P s) (index : UInt8) :
    P (RegisterBus.readFrame s index).2 := h.transfer hs [Access.readMemory.toByte, index, 0]

theorem readFrom (h : Kept P) (hs : P s) (index : UInt8) (n : Nat) :
    P (RegisterBus.readFrom s index n).2 := by
  induction n generalizing s index with
  | zero => exact hs
  | succ n ih => exact ih (h.readFrame hs index) (index + 1)

theorem call (h : Kept P) (hs : P s) (x : BusCall) : P (x.on s) := by
  cases x with
  | readRegister r => exact h.readRegister hs r
  | writeRegister r v => exact h.writeRegister hs r v
  | modifyRegister r g => exact h.writeRegister (h.readRegister hs r) r _
  | command order => exact h.writeRegister hs .trxState order.code
  | readFrame index => exact h.readFrame hs index
  | writeFrame index v => exact h.transfer hs [Access.writeMemory.toByte, index, v]
  | upload image => exact h.transfer hs (Access.writeFrame.toByte :: image)
  | download limit => exact h.readFrom (h.readFrame hs 0) 0 _

end Kept

/-! ### Histories of a serial radio -/

section

variable [RandomWords G]

def after (s : SerialRadio G) : SerialOperation → SerialRadio G
  | .select level => s.setSelect level
  | .resetPin level => s.setResetPin level
  | .sleepPin level => s.setSleepPin level
  | .exchange b => (s.exchange b).2
  | .transfer octets => (s.transfer octets).2
  | .call x => x.on s
  | .setSleep level => RegisterBus.setSleep s level
  | .setReset asserted => RegisterBus.setReset s asserted
  | .pulseReset => RegisterBus.pulseReset s
  | .chip op => { s with chip := s.chip.after op }

def run (s : SerialRadio G) (ops : List SerialOperation) : SerialRadio G := ops.foldl after s

def Reachable (s : SerialRadio G) : Prop :=
  ∃ (c : Chip G) (ops : List SerialOperation), c.Reachable ∧ s = (attach c).run ops

end

end SerialRadio

namespace Chip

section

variable [RandomWords G] {c : Chip G}

theorem Reachable.serve (h : c.Reachable) (q : BusRequest) : (c.serve q).2.Reachable := by
  cases q with
  | readRegister r => exact h.after (.readRegister r)
  | writeRegister r v => exact h.after (.writeRegister r v)
  | popFrame => exact h.after .popFrame
  | pushFrame b => exact h.after (.pushFrame b)
  | peekFrame index => exact h
  | uploadFrame index b => exact h.after (.uploadFrame index b)

theorem Reachable.exchange (h : c.Reachable) (t : Transaction) (b : UInt8) :
    (t.exchange c b).2.2.Reachable := by
  rw [t.exchange_eq]
  cases t.request? b with
  | none => exact h
  | some q => exact h.serve q

end

end Chip

namespace SerialRadio

variable [RandomWords G] {s : SerialRadio G}

theorem kept_reachable : Kept fun s : SerialRadio G => s.chip.Reachable where
  setSelect s level h := by
    unfold setSelect
    split <;> exact h
  exchange s b h := by
    unfold exchange
    split
    · exact h
    · exact h.exchange s.transaction b

theorem reachable_setResetPin (h : s.chip.Reachable) (level : Bool) :
    (s.setResetPin level).chip.Reachable := by
  unfold setResetPin
  split
  · exact h
  · cases level with
    | true => exact h
    | false => exact h.after .reset

theorem reachable_setSleepPin (h : s.chip.Reachable) (level : Bool) :
    (s.setSleepPin level).chip.Reachable := by
  unfold setSleepPin
  split
  · exact h
  · exact h.after (.sleepPin level)

theorem reachable_after (h : s.chip.Reachable) (op : SerialOperation) :
    (s.after op).chip.Reachable := by
  cases op with
  | select level => exact kept_reachable.setSelect s level h
  | resetPin level => exact reachable_setResetPin h level
  | sleepPin level => exact reachable_setSleepPin h level
  | exchange b => exact kept_reachable.exchange s b h
  | transfer octets => exact kept_reachable.transfer h octets
  | call x => exact kept_reachable.call h x
  | setSleep level => exact reachable_setSleepPin h level
  | setReset asserted => exact reachable_setResetPin h !asserted
  | pulseReset => exact reachable_setResetPin (reachable_setResetPin h false) true
  | chip op => exact h.after op

/-- What happens to a radio is for its chip a history of its own. -/
theorem Reachable.chip (h : s.Reachable) : s.chip.Reachable := by
  obtain ⟨c, ops, hc, rfl⟩ := h
  have hrun (s : SerialRadio G) (hs : s.chip.Reachable) : (s.run ops).chip.Reachable := by
    induction ops generalizing s with
    | nil => exact hs
    | cons op ops ih => exact ih _ (reachable_after hs op)
  exact hrun _ hc

end SerialRadio

/-! ### A chip after a reset -/

namespace Chip

structure Cleared (c : Chip G) (ieee : Vector UInt8 8) : Prop where
  registers_eq : c.registers = (RegisterFile.reset ieee).set .trxStatus c.state.code
  state_eq : c.state = .trxOff ∨ c.state = .sleep
  transmitter_eq : c.transmitter = none
  receiver_eq : c.receiver = none
  buffer_eq : c.buffer = .empty
  owed_eq : c.owed = none
  rssiTimer_eq : c.rssiTimer = .idle

theorem sleepPin_setTime (c : Chip G) (now : Instant) (level : Bool) :
    (c.setTime now).sleepPin level = (c.sleepPin level).setTime now := by
  have hstate : (c.setTime now).state = c.state := rfl
  unfold sleepPin
  rw [hstate]
  split <;> rfl

variable {c : Chip G} {ieee : Vector UInt8 8}

namespace Cleared

theorem setTime (h : c.Cleared ieee) (now : Instant) : (c.setTime now).Cleared ieee := { h with }

theorem enter (h : c.Cleared ieee) {next : OperatingState} (hn : next = .trxOff ∨ next = .sleep) :
    (c.enter next).Cleared ieee where
  registers_eq := by
    simp only [Chip.enter, h.registers_eq, RegisterFile.set_set]
  state_eq := hn
  transmitter_eq := h.transmitter_eq
  receiver_eq := h.receiver_eq
  buffer_eq := h.buffer_eq
  owed_eq := h.owed_eq
  rssiTimer_eq := h.rssiTimer_eq

theorem sleepPin (h : c.Cleared ieee) (level : Bool) : (c.sleepPin level).Cleared ieee := by
  have hgive (x : Signal) : (c.give x).Cleared ieee := { h with }
  unfold Chip.sleepPin
  rcases h.state_eq with hs | hs <;> rw [hs] <;> cases level
  · exact h
  · exact (hgive _).enter (.inr rfl)
  · exact (hgive _).enter (.inl rfl)
  · exact h

theorem advance_eq (h : c.Cleared ieee) (now : Instant) : c.advance now = c := by
  have htimer := h.rssiTimer_eq
  cases c
  cases htimer
  rfl

end Cleared

variable [RandomWords G]

namespace Cleared

/-- Of what the medium and the clock do, a cleared chip takes the time at most. -/
theorem after_eq (h : c.Cleared ieee) {op : Operation}
    (hop : (SerialOperation.chip op).keepsReset = true) : ∃ now, c.after op = c.setTime now := by
  have hsame : c = c.setTime c.surroundings.now := rfl
  cases op with
  | transmit =>
    have htransmit : c.transmit = (0, c) := by
      unfold Chip.transmit
      rw [h.transmitter_eq]
    exact ⟨_, (congrArg Prod.snd htransmit).trans hsame⟩
  | receive carrier b =>
    have hreceive := congrArg Prod.snd (receive_of_none h.receiver_eq carrier b)
    exact ⟨_, (hreceive.trans (h.advance_eq _)).trans hsame⟩
  | advance now => exact ⟨_, (h.advance_eq now).trans hsame⟩
  | setTime now => exact ⟨now, rfl⟩
  | _ => cases hop

theorem run_sleepPin (h : c.Cleared ieee) (edges : List Bool) :
    (c.run (edges.map .sleepPin)).Cleared ieee := by
  induction edges generalizing c with
  | nil => exact h
  | cons level edges ih => exact ih (h.sleepPin level)

end Cleared

theorem run_sleepPin_setTime (c : Chip G) (now : Instant) (edges : List Bool) :
    (c.setTime now).run (edges.map .sleepPin) = (c.run (edges.map .sleepPin)).setTime now := by
  induction edges generalizing c with
  | nil => rfl
  | cons level edges ih =>
    have hstep : (c.setTime now).after (.sleepPin level) =
        (c.after (.sleepPin level)).setTime now := c.sleepPin_setTime now level
    rw [List.map_cons, run_cons, run_cons, hstep, ih]

/-- A chip that is awake is not disturbed by a sleep line that does not rise. -/
theorem run_falling_of_trxOff (h : c.state = .trxOff) {edges : List Bool} (he : true ∉ edges) :
    c.run (edges.map .sleepPin) = c := by
  induction edges with
  | nil => rfl
  | cons level edges ih =>
    rw [List.mem_cons, not_or] at he
    have hlevel : level = false := Bool.eq_false_iff.2 (Ne.symm he.1)
    have hstep : c.after (.sleepPin level) = c := by
      have hedge : c.state.sleepEdge? level = none := by
        rw [h, hlevel]
        rfl
      simp only [Chip.after, Chip.sleepPin, hedge]
    rw [List.map_cons, run_cons, hstep, ih he.2]

theorem Reachable.cleared_reset (h : c.Reachable) : c.reset.Cleared c.ieee := by
  obtain ⟨config, now, g, ops, rfl⟩ := h
  have hieee : ((build config now g).run ops).ieee = config.ieee :=
    (follow_run config now g ops).ieee_eq
  rw [reset_run config now g ops, hieee]
  exact ⟨rfl, .inl rfl, rfl, rfl, rfl, rfl, rfl⟩

end Chip

/-! ### A radio that is held -/

namespace SerialRadio

/-- A radio that is held in reset, of which only the select pin, the transaction and the clock may
have changed. -/
structure Undisturbed (s s' : SerialRadio G) : Prop where
  chip_eq : ∃ now, s'.chip = s.chip.setTime now
  sleepPin_eq : s'.sleepPin = s.sleepPin
  resetPin_eq : s'.resetPin = false

structure Held (s : SerialRadio G) (ieee : Vector UInt8 8) : Prop where
  resetPin_eq : s.resetPin = false
  cleared : s.chip.Cleared ieee

variable {s s' : SerialRadio G} {ieee : Vector UInt8 8}

theorem setResetPin_of_released (hr : s.resetPin = true) :
    s.setResetPin false = { s with resetPin := false, chip := s.chip.reset } := by
  simp only [setResetPin, hr, Bool.true_eq_false, if_false, Bool.false_eq_true]

theorem kept_undisturbed (s : SerialRadio G) : Kept s.Undisturbed where
  setSelect s' level h := by
    unfold setSelect
    split
    · exact h
    · exact { h with }
  exchange s' b h := by
    have hexchange : s'.exchange b = (0, s') := by simp [exchange, h.resetPin_eq]
    rw [hexchange]
    exact h

theorem after_of_sleepLevel [RandomWords G] {op : SerialOperation} {level : Bool}
    (hop : op.sleepLevel? = some level) : s.after op = s.setSleepPin level := by
  cases op with
  | sleepPin l | setSleep l =>
    cases hop
    rfl
  | _ => cases hop

namespace Held

variable (h : s.Held ieee)

include h

theorem undisturbed : s.Undisturbed s := ⟨⟨s.chip.surroundings.now, rfl⟩, rfl, h.resetPin_eq⟩

theorem setSleepPin (level : Bool) : (s.setSleepPin level).Held ieee := by
  unfold SerialRadio.setSleepPin
  split
  · exact h
  · exact ⟨h.resetPin_eq, h.cleared.sleepPin level⟩

theorem of_undisturbed (hs : s.Undisturbed s') : s'.Held ieee := by
  obtain ⟨now, hchip⟩ := hs.chip_eq
  exact ⟨hs.resetPin_eq, hchip ▸ h.cleared.setTime now⟩

variable [RandomWords G]

theorem after_of_no_sleepLevel {op : SerialOperation} (hop : op.keepsReset = true)
    (hlevel : op.sleepLevel? = none) : s.Undisturbed (s.after op) := by
  have hkept := s.kept_undisturbed
  have hs := h.undisturbed
  have hassert : s.setResetPin false = s := if_pos h.resetPin_eq
  cases op with
  | select level => exact hkept.setSelect s level hs
  | resetPin level =>
    have hlow : level = false := by simpa [SerialOperation.keepsReset] using hop
    have hsame : s.after (.resetPin level) = s := hlow ▸ hassert
    rwa [hsame]
  | exchange b => exact hkept.exchange s b hs
  | transfer octets => exact hkept.transfer hs octets
  | call x => exact hkept.call hs x
  | setReset asserted =>
    have hasserted : asserted = true := hop
    have hsame : s.after (.setReset asserted) = s := hasserted ▸ hassert
    rwa [hsame]
  | chip op => exact ⟨h.cleared.after_eq hop, rfl, h.resetPin_eq⟩
  | sleepPin level | setSleep level => cases hlevel
  | pulseReset => cases hop

/-- The edges of the sleep line are all that reaches the chip. -/
theorem chip_run {ops : List SerialOperation} (hops : ∀ op ∈ ops, op.keepsReset = true) :
    ∃ now, (s.run ops).chip =
      (s.chip.run ((SerialOperation.sleepEdges s.sleepPin ops).map .sleepPin)).setTime now := by
  induction ops generalizing s with
  | nil => exact ⟨s.chip.surroundings.now, rfl⟩
  | cons op ops ih =>
    rw [List.forall_mem_cons] at hops
    cases hlevel : op.sleepLevel? with
    | some level =>
      obtain ⟨now, hrun⟩ := ih (h.setSleepPin level) hops.2
      have hafter : s.run (op :: ops) = (s.setSleepPin level).run ops :=
        congrArg (run · ops) (after_of_sleepLevel hlevel)
      refine ⟨now, ?_⟩
      rw [hafter, hrun]
      simp only [SerialOperation.sleepEdges, hlevel, SerialRadio.setSleepPin]
      by_cases hsame : s.sleepPin = level
      · simp only [if_pos hsame]
      · simp only [if_neg hsame]
        rfl
    | none =>
      have hs := h.after_of_no_sleepLevel hops.1 hlevel
      obtain ⟨now, hchip⟩ := hs.chip_eq
      obtain ⟨now', hrun⟩ := ih (h.of_undisturbed hs) hops.2
      refine ⟨now', ?_⟩
      simp only [SerialOperation.sleepEdges, hlevel]
      rw [hchip, hs.sleepPin_eq, Chip.run_sleepPin_setTime] at hrun
      exact hrun

end Held

variable [RandomWords G]

/-- A reset that is held keeps everything off the chip except the edges of the sleep line, which put
it to sleep and wake it up again. They undo nothing else of what the reset has done: the registers
have their reset values but for the status, no framer runs, the buffer is empty and no
acknowledgement is owed. As long as the line does not rise, the chip stays in every respect as it
was reset, whatever the time, and gives no signal. -/
theorem held_reset (s : SerialRadio G) (hs : s.Reachable) (hr : s.resetPin = true)
    (ops : List SerialOperation) (hops : ∀ op ∈ ops, op.keepsReset = true) :
    let r := s.setResetPin false
    let c := (r.run ops).chip
    let edges := SerialOperation.sleepEdges s.sleepPin ops
    (∃ now, c = (r.chip.run (edges.map .sleepPin)).setTime now) ∧
    (c.state = .trxOff ∨ c.state = .sleep) ∧
    c.registers = (RegisterFile.reset s.chip.ieee).set .trxStatus c.state.code ∧
    c.transmitter = none ∧ c.receiver = none ∧ c.buffer = .empty ∧ c.owed = none ∧
    (true ∉ edges → c.state = .trxOff ∧ c.surroundings.signals = r.chip.surroundings.signals ∧
      ∃ now, c = r.chip.setTime now) := by
  intro r c edges
  have hassert : r = { s with resetPin := false, chip := s.chip.reset } :=
    setResetPin_of_released hr
  have hheld : r.Held s.chip.ieee := by
    rw [hassert]
    exact ⟨rfl, hs.chip.cleared_reset⟩
  have hsleep : r.sleepPin = s.sleepPin := by rw [hassert]
  have hawake : r.chip.state = .trxOff := by
    rw [hassert]
    rfl
  obtain ⟨now, hrun⟩ := hheld.chip_run hops
  rw [hsleep] at hrun
  have hcleared : c.Cleared s.chip.ieee := by
    have hchip : c = (r.chip.run (edges.map .sleepPin)).setTime now := hrun
    rw [hchip]
    exact (hheld.cleared.run_sleepPin edges).setTime now
  refine ⟨⟨now, hrun⟩, hcleared.state_eq, hcleared.registers_eq, hcleared.transmitter_eq,
    hcleared.receiver_eq, hcleared.buffer_eq, hcleared.owed_eq, fun hfall => ?_⟩
  have hsame : c = r.chip.setTime now := by
    rw [← Chip.run_falling_of_trxOff hawake hfall]
    exact hrun
  rw [hsame]
  exact ⟨hawake, rfl, now, rfl⟩

/-- The receiver is running, and the chip is told to run it again while it is held in reset. -/
theorem held_reset_of_receiver :
    let config : Configuration := ⟨.at86rf231, Vector.replicate 8 0, none, 0⟩
    let s : SerialRadio Mixer :=
      (attach (.ofConfiguration config)).run [.sleepPin true, .call (.command .rxOn)]
    let ops : List SerialOperation :=
      [.sleepPin false, .call (.command .rxOn), .select false, .exchange 0xC2, .exchange 0x06,
        .chip (.receive true startDelimiter), .chip .transmit]
    let c := ((s.setResetPin false).run ops).chip
    s.chip.isReceiving = true ∧ s.Reachable ∧ s.resetPin = true ∧
      (∀ op ∈ ops, op.keepsReset = true) ∧ true ∉ SerialOperation.sleepEdges s.sleepPin ops ∧
      c.state = .trxOff ∧ c.receiver = none := by
  intro config s ops c
  have hs : s.Reachable := ⟨.ofConfiguration config, _, Chip.reachable_build _ _ _, rfl⟩
  have hr : s.resetPin = true := rfl
  have hops : ∀ op ∈ ops, op.keepsReset = true := by decide
  have hfall : true ∉ SerialOperation.sleepEdges s.sleepPin ops := by decide
  obtain ⟨-, -, -, -, hreceiver, -, -, hkept⟩ := held_reset s hs hr ops hops
  exact ⟨rfl, hs, hr, hops, hfall, (hkept hfall).1, hreceiver⟩

/-- The sleep line rises while a new radio is held in reset. -/
theorem held_chip_falls_asleep :
    let config : Configuration := ⟨.at86rf231, Vector.replicate 8 0, none, 0⟩
    let s : SerialRadio Mixer := attach (.ofConfiguration config)
    let ops : List SerialOperation := [.sleepPin true]
    let r := s.setResetPin false
    let c := (r.run ops).chip
    s.Reachable ∧ s.resetPin = true ∧ (∀ op ∈ ops, op.keepsReset = true) ∧
      r.chip.state = .trxOff ∧ r.chip.surroundings.signals = [.power .idle] ∧
      c.state = .sleep ∧ c.registers.get .trxStatus = 0x0F ∧
      c.surroundings.signals = [.power .idle, .power .off] := by
  intro config s ops r c
  have hs : s.Reachable := ⟨.ofConfiguration config, [], Chip.reachable_build _ _ _, rfl⟩
  have hstatus : c.registers.get .trxStatus = OperatingState.sleep.code :=
    RegisterFile.get_set_self _ _ _
  exact ⟨hs, rfl, by decide, rfl, rfl, rfl, hstatus, rfl⟩

end SerialRadio

end Transceiver
