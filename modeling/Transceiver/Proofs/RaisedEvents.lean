import Transceiver.Proofs.Listening

/-!
# Raised events

An event that a chip raises shows in two places, among the signals and in the interrupt status, as
far as the masks let it. The alarms of a chip are these two places together with what decides about
them. `raise` acts on alarms alone, so that one can say which events a chip has raised since an
earlier moment: `Raised`.
-/

namespace Transceiver

structure Alarms where
  variant : Variant
  interruptLine : Option UInt8
  /-- The register of the events that are not masked. -/
  mask : UInt8
  /-- The register that says whether masked events are recorded. -/
  control : UInt8
  signals : List Signal
  status : UInt8
  deriving DecidableEq

namespace Alarms

variable (a : Alarms) (e : Event)

def latch : Alarms := { a with status := a.status ||| e.statusBit }

def post : Alarms :=
  { a with signals :=
      a.signals ++ ((e.vector? a.interruptLine a.variant).map Signal.interrupt).toList }

def raise : Alarms :=
  if a.mask &&& e.statusBit != 0 then (a.latch e).post e
  else if a.control &&& 0x02 != 0 then a.latch e
  else a

end Alarms

namespace Chip

variable {G : Type} (c : Chip G)

def alarms : Alarms where
  variant := c.variant
  interruptLine := c.interruptLine
  mask := c.registers.get .irqMask
  control := c.registers.get .trxCtrl1
  signals := c.surroundings.signals
  status := c.registers.get .irqStatus

def raiseAll (events : List Event) : Chip G := events.foldl raise c

/-- The events between two moments are these, in this order. -/
def Raised (c d : Chip G) (events : List Event) : Prop := d.alarms = (c.raiseAll events).alarms

/-- An event changes nothing but registers and signals. -/
theorem raise_eq (e : Event) : c.raise e = { c with
    registers := (c.raise e).registers
    surroundings := (c.raise e).surroundings } := by
  have hpost (d : Chip G) : d.post e = { d with surroundings := (d.post e).surroundings } := by
    unfold post
    split <;> rfl
  unfold raise
  split
  · rw [hpost]
    rfl
  · split <;> rfl

theorem get_raise (e : Event) {r : Register} (h : r ≠ .irqStatus) :
    (c.raise e).registers.get r = c.registers.get r := by
  have hlatch : (c.latch e).registers.get r = c.registers.get r :=
    c.registers.get_set_of_ne _ h.symm
  have hpost (d : Chip G) : (d.post e).registers = d.registers := by
    unfold post
    split <;> rfl
  unfold raise
  split
  · rw [hpost, hlatch]
  · split
    · exact hlatch
    · rfl

theorem alarms_latch (e : Event) : (c.latch e).alarms = c.alarms.latch e := by
  have hmask : Register.irqStatus ≠ .irqMask := by decide
  have hcontrol : Register.irqStatus ≠ .trxCtrl1 := by decide
  simp only [alarms, latch, Alarms.latch, RegisterFile.get_modify, if_true, if_neg hmask,
    if_neg hcontrol]

theorem alarms_post (e : Event) : (c.post e).alarms = c.alarms.post e := by
  have hv : e.vector? c.alarms.interruptLine c.alarms.variant =
      e.vector? c.interruptLine c.variant := rfl
  unfold post Alarms.post
  rw [hv]
  cases e.vector? c.interruptLine c.variant with
  | some v => rfl
  | none => simp [alarms]

theorem alarms_raise (e : Event) : (c.raise e).alarms = c.alarms.raise e := by
  have hmask : c.registers.unmasked e.statusBit = (c.alarms.mask &&& e.statusBit != 0) := rfl
  have hrecord : c.registers.recordMasked = (c.alarms.control &&& 0x02 != 0) := rfl
  unfold raise Alarms.raise
  rw [hmask, hrecord]
  split
  · rw [alarms_post, alarms_latch]
  · split
    · exact c.alarms_latch e
    · rfl

theorem alarms_raiseAll (events : List Event) :
    (c.raiseAll events).alarms = events.foldl Alarms.raise c.alarms := by
  induction events generalizing c with
  | nil => rfl
  | cons e r ih => exact (ih (c.raise e)).trans (by rw [alarms_raise]; rfl)

theorem alarms_setRegister {r : Register} (v : UInt8)
    (h : r ∉ [Register.irqMask, .trxCtrl1, .irqStatus]) :
    alarms { c with registers := c.registers.set r v } = c.alarms := by
  simp only [List.mem_cons, List.not_mem_nil, or_false, not_or] at h
  obtain ⟨hmask, hcontrol, hstatus⟩ := h
  simp only [alarms, c.registers.get_set_of_ne _ hmask, c.registers.get_set_of_ne _ hcontrol,
    c.registers.get_set_of_ne _ hstatus]

@[simp] theorem alarms_timeless : c.timeless.alarms = c.alarms := by
  simp only [alarms, c.get_timeless (r := .irqMask) (by decide),
    c.get_timeless (r := .trxCtrl1) (by decide), c.get_timeless (r := .irqStatus) (by decide)]
  rfl

variable {c} {d : Chip G}

theorem raised_iff {events : List Event} :
    c.Raised d events ↔ d.alarms = events.foldl Alarms.raise c.alarms := by
  rw [Raised, alarms_raiseAll]

end Chip

end Transceiver
