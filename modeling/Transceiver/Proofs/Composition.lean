import Transceiver.History

/-!
# Properties kept by the parts

A transition, an octet sent and an octet heard are put together from smaller changes to the chip,
and which of these there are depends on the chip. A property that every one of them keeps is kept by
the whole.
-/

namespace Transceiver.Chip

variable {G : Type} {c : Chip G} {P : Chip G → Prop}

theorem steer_induction (t : Transition) (hc : P c)
    (abandonTransmission : ∀ d, P d → P d.abandonTransmission)
    (abandonReception : ∀ d, P d → P d.abandonReception)
    (beginTransmission : ∀ d, P d → P d.beginTransmission)
    (beginReception : ∀ d, P d → P d.beginReception) : P (c.steer t) := by
  have hsilent : P (if t.transmitter = .stop then c.abandonTransmission else c) :=
    iteInduction (fun _ => abandonTransmission _ hc) fun _ => hc
  have hstopped := iteInduction (c := t.receiver = .stop) (fun _ => abandonReception _ hsilent)
    fun _ => hsilent
  have hsending := iteInduction (c := t.transmitter = .start)
    (fun _ => beginTransmission _ hstopped) fun _ => hstopped
  exact iteInduction (c := t.receiver = .start) (fun _ => beginReception _ hsending)
    fun _ => hsending

theorem registers_abandonTransmission (c : Chip G) :
    c.abandonTransmission.registers = c.registers := by
  unfold abandonTransmission endTransmission
  simp only
  split
  · rfl
  · rfl

theorem registers_beginTransmission (c : Chip G) :
    c.beginTransmission.registers = c.registers := by
  unfold beginTransmission
  cases c.transmitter with
  | some f => rfl
  | none => cases c.owed.isNone <;> rfl

theorem registers_beginReception (c : Chip G) : c.beginReception.registers = c.registers := by
  unfold beginReception
  split
  · rfl
  · rfl

theorem get_abandonReception (c : Chip G) {r : Register} (h : r ≠ .phyRssi) :
    c.abandonReception.registers.get r = c.registers.get r := by
  unfold abandonReception endReception
  simp only
  split
  · exact c.registers.get_set_of_ne _ h.symm
  · rfl

/-- A transition writes no register but that of the signal strength. -/
theorem get_steer (c : Chip G) (t : Transition) {r : Register} (h : r ≠ .phyRssi) :
    (c.steer t).registers.get r = c.registers.get r := by
  refine steer_induction (P := fun d => d.registers.get r = c.registers.get r) t rfl ?_ ?_ ?_ ?_
  · intro d hd
    rw [registers_abandonTransmission, hd]
  · intro d hd
    rw [d.get_abandonReception h, hd]
  · intro d hd
    rw [registers_beginTransmission, hd]
  · intro d hd
    rw [registers_beginReception, hd]

theorem afterOctet_induction (out : TransmitOutput) (hc : P c)
    (pop : ∀ d, P d → P { d with buffer := d.buffer.pop.2 })
    (forget : ∀ d, P d → P { d with owed := none })
    (raise : ∀ d, P d → P (d.raise .underrun))
    (finish : ∀ d, P d → P d.finishTransmission) : P (c.afterOctet out) := by
  have hpopped : P (if out.consumed then { c with buffer := c.buffer.pop.2 } else c) :=
    iteInduction (fun _ => pop _ hc) fun _ => hc
  have hkept := iteInduction (c := out.acknowledged = true) (fun _ => forget _ hpopped)
    fun _ => hpopped
  have hraised := iteInduction (c := out.underrun = true) (fun _ => raise _ hkept) fun _ => hkept
  exact iteInduction (c := out.finished = true) (fun _ => finish _ hraised) fun _ => hraised

/-- The filter notes a sequence number, and then announces a match, has the frame passed over, or
does nothing more. -/
theorem filter_induction (offset : Nat) (hc : P c)
    (note : ∀ d sequence, P d → P (d.noteSequence sequence))
    (raise : ∀ d, P d → P (d.raise .addressMatch))
    (reject : ∀ d, P d → P { d with receiver := d.receiver.map .reject }) :
    P (c.filter offset).2 := by
  have hnoted := note c (FrameFilter.check c.buffer.octets offset c.localAddress).sequence hc
  unfold filter
  simp only
  split
  · exact hnoted
  · split
    · exact iteInduction (fun _ => raise _ hnoted) fun _ => hnoted
    · exact reject _ hnoted

variable [RandomWords G]

/-- It does not matter whether an effect cancels those behind it. -/
theorem carryOut_induction {effects : List ReceiveEffect} (hc : P c)
    (apply : ∀ x ∈ effects, ∀ d, P d → P (d.apply x).2) : P (c.carryOut effects) := by
  induction effects generalizing c with
  | nil => exact hc
  | cons x r ih =>
    have hx := apply x List.mem_cons_self c hc
    unfold carryOut
    cases happly : c.apply x with
    | mk goesOn d =>
      rw [happly] at hx
      cases goesOn with
      | false => exact hx
      | true => exact ih hx fun y hy => apply y (List.mem_cons_of_mem x hy)

end Transceiver.Chip
