import Mathlib.Data.List.Induction
import Transceiver.Proofs.RegisterSettings

/-!
# What the node wrote last

The history of a chip says what its node wrote to each register since the last reset. The settings
of the chip follow it, one operation after the other, so that in spite of all that the radio does in
the meantime a register holds what was written to it last, or what a reset puts there.
-/

namespace Transceiver

namespace Operation

def isReset : Operation → Bool
  | .reset => true
  | _ => false

def written? (r : Register) : Operation → Option UInt8
  | .writeRegister q v => if q = r then some v else none
  | _ => none

/-- What was written to a register last since the last reset, if anything was. -/
def lastWritten? (r : Register) (history : List Operation) : Option UInt8 :=
  (history.reverse.takeWhile fun op => !op.isReset).findSome? (written? r)

theorem lastWritten?_concat (r : Register) (history : List Operation) (op : Operation) :
    lastWritten? r (history ++ [op]) =
      if op.isReset then none else (op.written? r).or (lastWritten? r history) := by
  unfold lastWritten?
  rw [List.reverse_append, List.reverse_singleton, List.singleton_append, List.takeWhile_cons]
  cases op.isReset with
  | true => rfl
  | false =>
    rw [Bool.not_false, if_pos rfl, if_neg Bool.false_ne_true, List.findSome?_cons]
    cases op.written? r <;> rfl

end Operation

namespace Configuration

variable (config : Configuration) (r : Register)

def initial : UInt8 :=
  if 0x24 ≤ r.val then (config.ieee[r.val - 0x24]?).getD r.resetValue else r.resetValue

theorem get_reset_ieee : (RegisterFile.reset config.ieee).get r = config.initial r := by
  simp only [RegisterFile.get, RegisterFile.reset, initial, Fin.getElem_fin, Vector.getElem_ofFn]
  by_cases hlow : 0x24 ≤ r.val
  · by_cases hhigh : r.val < 0x2C
    · have hlt : r.val - 0x24 < 8 := by omega
      rw [dif_pos ⟨hlow, hhigh⟩, if_pos hlow, Vector.getElem?_eq_getElem hlt, Option.getD_some]
    · have hge : 8 ≤ r.val - 0x24 := by omega
      rw [dif_neg fun h => hhigh h.2, if_pos hlow, Vector.getElem?_eq_none hge, Option.getD_none]
  · rw [dif_neg fun h => hlow h.1, if_neg hlow]

def setting (history : List Operation) : UInt8 :=
  (Operation.lastWritten? r history).getD (config.initial r)

theorem setting_concat (history : List Operation) (op : Operation) :
    config.setting r (history ++ [op]) =
      if op.isReset then config.initial r else (op.written? r).getD (config.setting r history) := by
  unfold setting
  rw [Operation.lastWritten?_concat]
  split
  · rfl
  · cases op.written? r <;> rfl

end Configuration

namespace Settings

variable {s : Settings} {config : Configuration} {history : List Operation}

/-- The chip is wired as configured, and its settings are what the node wrote. Only the length of a
received frame is not the node's alone. -/
structure Follow (s : Settings) (config : Configuration) (history : List Operation) : Prop where
  variant_eq : s.variant = config.variant
  interruptLine_eq : s.interruptLine = config.interruptLine
  ieee_eq : s.ieee = config.ieee
  bits_eq : ∀ r, r ≠ .tstRxLength → s.bits r = config.setting r history &&& r.settingBits

theorem Follow.keep (h : s.Follow config history) {op : Operation} (hreset : op.isReset = false)
    (hwritten : ∀ r, op.written? r = none) : s.Follow config (history ++ [op]) := by
  refine ⟨h.variant_eq, h.interruptLine_eq, h.ieee_eq, fun r hr => ?_⟩
  rw [config.setting_concat, hreset, hwritten]
  exact h.bits_eq r hr

theorem Follow.write (h : s.Follow config history) (q : Register) (v : UInt8) :
    (s.set q v).Follow config (history ++ [.writeRegister q v]) := by
  refine ⟨h.variant_eq, h.interruptLine_eq, h.ieee_eq, fun r hr => ?_⟩
  have hkept : (Operation.writeRegister q v).isReset = false := rfl
  rw [config.setting_concat, hkept]
  simp only [set, Operation.written?, eq_comm (a := r)]
  split
  · rename_i hq
    subst hq
    rfl
  · exact h.bits_eq r hr

theorem Follow.restore (h : s.Follow config history) :
    s.restored.Follow config (history ++ [.reset]) := by
  refine ⟨h.variant_eq, h.interruptLine_eq, h.ieee_eq, fun r _ => ?_⟩
  rw [config.setting_concat, ← config.get_reset_ieee, ← h.ieee_eq]
  rfl

/-- The length of a frame that begins is no setting of the node. -/
theorem Follow.announce (h : s.Follow config history) (length : Option UInt8) :
    (length.elim s (s.set .tstRxLength)).Follow config history := by
  cases length with
  | none => exact h
  | some l =>
    refine ⟨h.variant_eq, h.interruptLine_eq, h.ieee_eq, fun r hr => ?_⟩
    exact (if_neg hr).trans (h.bits_eq r hr)

end Settings

namespace Chip

variable {G : Type} {c : Chip G} {config : Configuration} {history : List Operation}

theorem follow_build (config : Configuration) (now : Instant) (g : G) :
    (build config now g).settings.Follow config [] := by
  let bare : Chip G := { build config now g with registers := .reset config.ieee }
  have hbare : (build config now g).settings = bare.settings :=
    bare.settings_showRegister (r := .trxStatus) (UInt8.and_zero.trans UInt8.and_zero.symm)
  rw [hbare]
  exact ⟨rfl, rfl, rfl, fun r _ => congrArg (· &&& r.settingBits) (config.get_reset_ieee r)⟩

theorem get_eq_of_bits {r : Register} (h : r.settingBits = 0xFF) :
    c.settings.bits r = c.registers.get r := by
  change c.registers.get r &&& r.settingBits = _
  rw [h]
  exact UInt8.and_neg_one

variable [RandomWords G]

theorem follow_after (h : c.settings.Follow config history) (op : Operation) :
    (c.after op).settings.Follow config (history ++ [op]) := by
  rw [settings_after]
  cases op with
  | writeRegister r v => exact h.write r v
  | reset => exact h.restore
  | receive carrier b => exact (h.announce _).keep rfl fun _ => rfl
  | readRegister | command | sleepPin | setDataWaiting | pushFrame | popFrame | uploadFrame
  | pokeFrame | clearFrame | prepareFrame | transmit | setRssi | recordBitErrors
  | takePacketErrorRate | advance | setTime => exact h.keep rfl fun _ => rfl

theorem follow_run (config : Configuration) (now : Instant) (g : G) (ops : List Operation) :
    ((build config now g).run ops).settings.Follow config ops := by
  induction ops using List.reverseRecOn with
  | nil => exact follow_build config now g
  | append_singleton ops op ih =>
    rw [run_append]
    exact follow_after ih op

def lengthGiven? (c : Chip G) : Operation → Option UInt8
  | .writeRegister r v => if r = .tstRxLength then some v else none
  | .reset => some Register.tstRxLength.resetValue
  | .receive carrier b => c.announced? carrier b
  | _ => none

theorem length_after (c : Chip G) (op : Operation) : (c.after op).registers.get .tstRxLength =
    (c.lengthGiven? op).getD (c.registers.get .tstRxLength) := by
  have hbits : Register.tstRxLength.settingBits = 0xFF := by decide
  have hset (v : UInt8) : (c.settings.set .tstRxLength v).bits .tstRxLength = v := by
    simp only [Settings.set, if_true, hbits]
    exact UInt8.and_neg_one
  rw [← get_eq_of_bits hbits, ← get_eq_of_bits hbits, settings_after]
  cases op with
  | writeRegister r v =>
    by_cases hr : r = .tstRxLength
    · subst hr
      simp [lengthGiven?, hset]
    · simp [lengthGiven?, Settings.set, hr, Ne.symm hr]
  | reset =>
    have hreset := RegisterFile.get_reset c.ieee .tstRxLength (by decide)
    change (RegisterFile.reset c.ieee).get .tstRxLength &&& _ = _
    rw [hreset, hbits]
    rfl
  | receive carrier b =>
    simp only [lengthGiven?]
    cases c.announced? carrier b with
    | none => rfl
    | some l => exact hset l
  | readRegister | command | sleepPin | setDataWaiting | pushFrame | popFrame | uploadFrame
  | pokeFrame | clearFrame | prepareFrame | transmit | setRssi | recordBitErrors
  | takePacketErrorRate | advance | setTime => rfl

/-- Whatever the radio does, a register that it does not use for showing something holds what the
node wrote to it last since the last reset, or its initial value. The same goes for the command in
the state register and for the upper bits beside the signal strength. The length of a received frame
changes with a write, with a reset and with the length octet of a frame that begins. -/
theorem registers_hold_settings (config : Configuration) (now : Instant) (g : G)
    (ops : List Operation) :
    let c := (build config now g).run ops
    (∀ r, r ∉ [Register.trxStatus, .trxState, .phyRssi, .irqStatus, .tstRxLength] →
      c.registers.get r = config.setting r ops) ∧
    c.registers.get .trxState &&& 0x1F = config.setting .trxState ops &&& 0x1F ∧
    c.registers.get .phyRssi &&& 0xE0 = config.setting .phyRssi ops &&& 0xE0 ∧
    ∀ op, (c.after op).registers.get .tstRxLength =
      (c.lengthGiven? op).getD (c.registers.get .tstRxLength) := by
  intro c
  have hfollow := follow_run config now g ops
  refine ⟨fun r hr => ?_, hfollow.bits_eq .trxState (by decide),
    hfollow.bits_eq .phyRssi (by decide), c.length_after⟩
  simp only [List.mem_cons, List.not_mem_nil, or_false, not_or] at hr
  obtain ⟨hstatus, hstate, hrssi, hirq, hlength⟩ := hr
  have hbits : r.settingBits = 0xFF := Register.settingBits_of_not_shown (by simp [*])
  have hr := hfollow.bits_eq r hlength
  rw [get_eq_of_bits hbits, hbits] at hr
  exact hr.trans UInt8.and_neg_one

end Chip

end Transceiver
