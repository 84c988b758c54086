import Transceiver.Proofs.BufferCells
import Transceiver.Proofs.ReceivedFrame

/-!
# The chip but for its noise

The link quality of a frame is drawn at random, from statistics that the medium keeps up to date.
`veil` takes this noise out of a chip: the generator, the statistics, and the low bits of the octet
in which the link quality of the last frame may stand. The chip's own operations do the same to a
chip that was veiled before as to one that is veiled afterwards, which is `veil_apply` for the
effects of an octet heard and `veil_transmit` for an octet sent. Only two of them look into the
buffer: the filter and the transmitter.
-/

namespace Transceiver

namespace FrameBuffer

/-- The buffer with only the verdict left of the octet at a place. -/
def veil (f : FrameBuffer) : Option Nat → FrameBuffer
  | none => f
  | some place => { f with octets := f.octets.modify place (· &&& 0x80) }

variable (f : FrameBuffer) (place : Option Nat)

@[simp] theorem veil_none : f.veil none = f := rfl

@[simp] theorem length_veil : (f.veil place).octets.length = f.octets.length := by
  cases place with
  | none => rfl
  | some q => exact List.length_modify ..

@[simp] theorem readPosition_veil : (f.veil place).readPosition = f.readPosition := by
  cases place <;> rfl

@[simp] theorem received_veil : (f.veil place).received = f.received := by
  cases place <;> rfl

@[simp] theorem veil_empty : empty.veil place = empty := by
  cases place with
  | none => rfl
  | some q => simp [veil, empty]

theorem veil_of_length_le {q : Nat} (h : f.octets.length ≤ q) : f.veil (some q) = f := by
  simp only [veil, List.modify_eq_self h]

theorem getElem?_veil_of_ne {q i : Nat} (h : i ≠ q) :
    (f.veil (some q)).octets[i]? = f.octets[i]? := List.getElem?_modify_ne _ f.octets h.symm

theorem getD_veil_of_ne {q i : Nat} (h : i ≠ q) (b : UInt8) :
    (f.veil (some q)).octets.getD i b = f.octets.getD i b := by
  rw [List.getD_eq_getElem?_getD, List.getD_eq_getElem?_getD, getElem?_veil_of_ne f h]

/-- Behind the veil there is the verdict. -/
theorem getElem?_veil_self (q : Nat) :
    (f.veil (some q)).octets[q]? = f.octets[q]?.map (· &&& 0x80) :=
  List.getElem?_modify_eq _ q f.octets

theorem and_verdict (b : UInt8) : b &&& 0x80 &&& 0x80 = b &&& 0x80 := by
  rw [UInt8.and_assoc]
  rfl

theorem and_or_verdict (a w : UInt8) : (a &&& 0x7F ||| w) &&& 0x80 = w &&& 0x80 := by
  have hlow : a &&& 0x7F &&& 0x80 = 0 := by
    rw [UInt8.and_assoc]
    exact UInt8.and_zero
  rw [octet_and_or_distrib, hlow, UInt8.zero_or]

theorem verdict_comp_verdict : (· &&& (0x80 : UInt8)) ∘ (· &&& 0x80) = (· &&& 0x80) :=
  funext and_verdict

@[simp] theorem veil_veil : (f.veil place).veil place = f.veil place := by
  cases place with
  | none => rfl
  | some q => simp only [veil, List.modify_modify_eq, verdict_comp_verdict]

structure SameBut (f f' : FrameBuffer) (q : Nat) : Prop where
  received_eq : f'.received = f.received
  readPosition_eq : f'.readPosition = f.readPosition
  length_eq : f'.octets.length = f.octets.length
  octets_eq : ∀ i, i ≠ q → f'.octets[i]? = f.octets[i]?
  verdict_eq : f'.octets[q]?.map (· &&& 0x80) = f.octets[q]?.map (· &&& 0x80)

theorem sameBut_of_veil {f' : FrameBuffer} {q : Nat} (h : f'.veil (some q) = f.veil (some q)) :
    f.SameBut f' q where
  received_eq := by simpa using congrArg (fun x => x.received) h
  readPosition_eq := by simpa using congrArg (fun x => x.readPosition) h
  length_eq := by simpa using congrArg (fun x => x.octets.length) h
  octets_eq i hi := by
    rw [← f'.getElem?_veil_of_ne hi, h, f.getElem?_veil_of_ne hi]
  verdict_eq := by rw [← getElem?_veil_self, h, getElem?_veil_self]

/-! ### Access -/

variable {place}

section Cells

variable (g : UInt8 → UInt8)

theorem modify_append (r : List UInt8) : ∀ {l : List UInt8} {q : Nat}, q < l.length →
    (l ++ r).modify q g = l.modify q g ++ r
  | _ :: _, 0, _ => rfl
  | a :: _, _ + 1, h => congrArg (a :: ·) (modify_append r (Nat.lt_of_succ_lt_succ h))

theorem set_modify_self (b : UInt8) : ∀ (l : List UInt8) (q : Nat),
    (l.modify q g).set q b = l.set q b
  | [], _ => by simp
  | _ :: _, 0 => rfl
  | a :: l, q + 1 => congrArg (a :: ·) (set_modify_self b l q)

theorem modify_set_self (b : UInt8) : ∀ (l : List UInt8) (q : Nat),
    (l.set q b).modify q g = l.set q (g b)
  | [], _ => by simp
  | _ :: _, 0 => rfl
  | a :: l, q + 1 => congrArg (a :: ·) (modify_set_self b l q)

theorem set_modify_of_ne (b : UInt8) : ∀ (l : List UInt8) {q i : Nat}, i ≠ q →
    (l.modify q g).set i b = (l.set i b).modify q g
  | [], _, _, _ => by simp
  | _ :: _, 0, 0, h => absurd rfl h
  | _ :: _, 0, _ + 1, _ => rfl
  | _ :: _, _ + 1, 0, _ => rfl
  | a :: l, q + 1, i + 1, h => congrArg (a :: ·) (set_modify_of_ne b l fun e => h (e ▸ rfl))

end Cells

theorem veil_push (h : ∀ q ∈ place, q < f.octets.length) (b : UInt8) :
    (f.veil place).push b = ((f.push b).1, (f.push b).2.veil place) := by
  unfold push
  rw [length_veil]
  split
  · cases place with
    | none => rfl
    | some q => simp only [veil, modify_append _ _ (h q rfl)]
  · rfl

theorem veil_pop : (f.veil place).pop.2 = f.pop.2.veil place := by
  rw [snd_pop, snd_pop, length_veil, readPosition_veil]
  cases place <;> rfl

/-- A cell that is written is veiled or not, whatever was in it. -/
theorem veil_poke (h : ∀ q ∈ place, q < f.octets.length) (index : Nat) (b : UInt8) :
    ((f.veil place).poke index b).2.veil place = (f.poke index b).2.veil place := by
  cases place with
  | none => rfl
  | some q =>
    unfold poke
    rw [length_veil]
    split
    · simp only [veil, ← modify_append _ _ (h q rfl)]
      generalize f.octets ++ _ = filled
      refine congrArg (fun l => FrameBuffer.mk l f.readPosition f.received) ?_
      by_cases hi : index = q
      · rw [hi, set_modify_self]
      · rw [set_modify_of_ne _ b filled hi, List.modify_modify_eq, verdict_comp_verdict]
    · exact f.veil_veil (some q)

theorem veil_upload (h : ∀ q ∈ place, q < f.octets.length) (index : Nat) (b : UInt8) :
    ((f.veil place).upload index b).2.veil place = (f.upload index b).2.veil place := by
  have hf : { f.veil place with received := false } = veil { f with received := false } place := by
    cases place <;> rfl
  unfold upload
  rw [hf]
  exact veil_poke { f with received := false } h index b

/-- Of an octet written behind the veil the verdict counts. -/
theorem veil_poke_self {q : Nat} {a b : UInt8} (h : a &&& 0x80 = b &&& 0x80) :
    (f.poke q a).2.veil (some q) = (f.poke q b).2.veil (some q) := by
  unfold poke
  split
  · simp only [veil]
    rw [modify_set_self, modify_set_self, h]
  · rfl

end FrameBuffer

namespace TransmitFramer

def SendsOwn (f : TransmitFramer) (owed : Option Acknowledgement) : Prop :=
  f.BeforePacket ∧ owed.isSome ∨ ¬f.BeforePacket ∧ f.isAck = true

variable {f : TransmitFramer} {i : TransmitInput}

theorem sendsOwn_start {owed : Option Acknowledgement} (h : owed.isSome) : start.SendsOwn owed :=
  .inl ⟨.inl rfl, h⟩

/-- The frame buffer has no say in it. -/
theorem SendsOwn.step_congr (h : f.SendsOwn i.owed) (next : Option UInt8) :
    f.step { i with next } = f.step i := by
  have hadvance : f.advance { i with next } = f.advance i := by
    unfold advance
    cases hp : f.phase with
    | preamble | delimiter | check1 | check2 | done => rfl
    | length =>
      rcases h with ⟨-, ho⟩ | ⟨hb, -⟩
      · simp only [stepLength, ho, if_true]
      · exact absurd (.inr (.inr hp)) hb
    | inPacket =>
      rcases h with ⟨hb, -⟩ | ⟨-, ha⟩
      · simp [BeforePacket, hp] at hb
      · simp only [stepInPacket, ha, if_true]
        rfl
  unfold step
  rw [hadvance]

theorem SendsOwn.step (h : f.SendsOwn i.owed) :
    (f.step i).1.SendsOwn (if (f.step i).2.acknowledged then none else i.owed) := by
  rcases h with ⟨hb, ho⟩ | ⟨hb, ha⟩
  · have hack : (f.step i).2.acknowledged = false := by
      refine eq_false_of_ne_true fun hack => ?_
      have hp := (f.third_of_acknowledged i hack).1
      simp [BeforePacket, hp] at hb
    have hd : f.phase ≠ .done := by rcases hb with hp | hp | hp <;> simp [hp]
    rw [hack, fst_step, if_neg hd]
    unfold advance
    rcases hb with hp | hp | hp <;> simp only [hp]
    · refine .inl ⟨?_, ho⟩
      simp only [stepPreamble, BeforePacket]
      split <;> simp
    · exact .inl ⟨.inr (.inr rfl), ho⟩
    · rw [stepLength_of_owed i ho]
      exact .inr ⟨by simp [BeforePacket], rfl⟩
  · obtain ⟨hpacket, hisAck⟩ := f.isAck_step_of_packet i hb
    exact .inr ⟨hpacket, hisAck.trans ha⟩

end TransmitFramer

namespace Chip

variable {G : Type} (c : Chip G) (g : G) (place : Option Nat)

/-- The chip but for its noise. -/
def veil : Chip G := { c with
  generator := g
  bitErrors := .empty
  buffer := c.buffer.veil place }

@[simp] theorem veil_veil : (c.veil g place).veil g place = c.veil g place := by
  simp only [veil, FrameBuffer.veil_veil]

/-- A place that the buffer does not have need not be veiled. -/
theorem veil_filter_length :
    c.veil g (place.filter (· < c.buffer.octets.length)) = c.veil g place := by
  cases place with
  | none => rfl
  | some q =>
    by_cases h : q < c.buffer.octets.length
    · rw [Option.filter_some, if_pos (decide_eq_true h)]
    · rw [Option.filter_some, if_neg (by simpa using h)]
      simp only [veil, FrameBuffer.veil_none, c.buffer.veil_of_length_le (Nat.not_lt.1 h)]

theorem length_eq_of_veil {d : Chip G} (h : d.veil g place = c.veil g place) :
    d.buffer.octets.length = c.buffer.octets.length := by
  have hlength := congrArg (fun e => e.buffer.octets.length) h
  simpa only [veil, FrameBuffer.length_veil] using hlength

/-- The same places need not be veiled in chips that are the same behind the veil. -/
theorem veil_filter_congr {d : Chip G} (h : d.veil g place = c.veil g place) :
    d.veil g (place.filter (· < c.buffer.octets.length)) =
      c.veil g (place.filter (· < c.buffer.octets.length)) := by
  have hd := d.veil_filter_length g place
  rw [c.length_eq_of_veil g place h] at hd
  rw [hd, veil_filter_length, h]

/-! ### What the node does -/

theorem veil_raise (e : Event) : (c.veil g place).raise e = (c.raise e).veil g place := by
  have hpost (d : Chip G) : (d.veil g place).post e = (d.post e).veil g place := by
    have hv : e.vector? (d.veil g place).interruptLine (d.veil g place).variant =
        e.vector? d.interruptLine d.variant := rfl
    unfold post
    rw [hv]
    cases e.vector? d.interruptLine d.variant <;> rfl
  have hr : (c.veil g place).registers = c.registers := rfl
  unfold raise
  rw [hr]
  split
  · exact hpost (c.latch e)
  · split <;> rfl

theorem veil_endTransmission :
    (c.veil g place).endTransmission = c.endTransmission.veil g place := by
  have ht : (c.veil g place).transmitter = c.transmitter := rfl
  unfold endTransmission
  rw [ht]
  cases c.transmitter <;> rfl

theorem veil_abandonTransmission :
    (c.veil g place).abandonTransmission = c.abandonTransmission.veil g place :=
  veil_endTransmission { c with owed := none } g place

theorem veil_endReception : (c.veil g place).endReception = c.endReception.veil g place := by
  have hr : (c.veil g place).receiver = c.receiver := rfl
  unfold endReception
  rw [hr]
  cases c.receiver <;> rfl

theorem veil_abandonReception :
    (c.veil g place).abandonReception = c.abandonReception.veil g place :=
  veil_endReception { c with owed := none } g place

theorem veil_beginTransmission :
    (c.veil g place).beginTransmission = c.beginTransmission.veil g place := by
  have ht : (c.veil g place).transmitter = c.transmitter := rfl
  have ho : (c.veil g place).owed = c.owed := rfl
  unfold beginTransmission
  rw [ht, ho]
  cases c.transmitter with
  | some f => rfl
  | none =>
    cases c.owed with
    | some k => rfl
    | none => simp [veil, give, power, frequency]

theorem veil_beginReception :
    (c.veil g place).beginReception = c.beginReception.veil g place := by
  have hr : (c.veil g place).receiver = c.receiver := rfl
  unfold beginReception
  rw [hr]
  cases c.receiver with
  | some f => rfl
  | none => simp [veil, give, frequency]

theorem veil_steer (t : Transition) : (c.veil g place).steer t = (c.steer t).veil g place := by
  unfold steer
  cases t.transmitter <;> cases t.receiver <;>
    simp [veil_abandonTransmission, veil_abandonReception, veil_beginTransmission,
      veil_beginReception]

theorem veil_execute (k : Command) :
    (c.veil g place).execute k = (c.execute k).veil g place := by
  have hs : (c.veil g place).state = c.state := rfl
  let invalid : Chip G := { c with registers := c.registers.setOutcome 0xE0 }
  unfold execute
  simp only [hs]
  generalize k.transition c.state = t
  cases t.outcomeInvalid with
  | true => exact veil_steer (invalid.enter t.next) g place t
  | false => exact veil_steer (c.enter t.next) g place t

theorem veil_writeRegister (r : Register) (v : UInt8) :
    (c.veil g place).writeRegister r v = (c.writeRegister r v).veil g place := by
  unfold writeRegister
  split
  · rfl
  · simp only
    split
    · exact veil_execute { c with registers := c.registers.set r v } g place _
    · rfl

theorem veil_sleepPin (level : Bool) :
    (c.veil g place).sleepPin level = (c.sleepPin level).veil g place := by
  have hs : (c.veil g place).state = c.state := rfl
  unfold sleepPin
  rw [hs]
  split <;> rfl

theorem veil_reset : (c.veil g place).reset = c.reset.veil g place := by
  let cleared : Chip G := { c with
    registers := .reset c.ieee
    owed := none
    dataWaiting := false
    lastValid := false }
  have hended : (cleared.veil g place).abandonTransmission.abandonReception =
      cleared.abandonTransmission.abandonReception.veil g place := by
    rw [veil_abandonTransmission, veil_abandonReception]
  change give (enter { (cleared.veil g place).abandonTransmission.abandonReception with
    buffer := .empty } .trxOff) _ = _
  rw [hended]
  unfold reset
  simp [veil, enter, give, cleared]

theorem veil_advance (now : Instant) :
    (c.veil g place).advance now = (c.advance now).veil g place := by
  have ht : (c.veil g place).rssiTimer = c.rssiTimer := rfl
  have hr : (c.veil g place).receiver = c.receiver := rfl
  unfold advance isReceiving
  rw [ht, hr]
  obtain ⟨fired, timer⟩ := c.rssiTimer.poll now
  simp only
  split <;> rfl

theorem veil_popFrame : (c.veil g place).popFrame.2 = c.popFrame.2.veil g place := by
  simp only [popFrame, veil, FrameBuffer.veil_pop]

/-! ### What the chip sends -/

theorem veil_finishTransmission :
    (c.veil g place).finishTransmission = c.finishTransmission.veil g place := by
  let ended : Chip G := { c.enter .pllOn with registers := (c.enter .pllOn).registers.setOutcome 0 }
  have hraised := veil_raise ended g place .txEnd
  unfold finishTransmission
  rw [← veil_abandonTransmission, ← hraised]
  rfl

theorem veil_afterOctet (out : TransmitOutput) :
    (c.veil g place).afterOctet out = (c.afterOctet out).veil g place := by
  have hpop : c.buffer.pop.2.veil place = (c.buffer.veil place).pop.2 := c.buffer.veil_pop.symm
  have hraise (d : Chip G) : (if out.underrun then (d.veil g place).raise .underrun
      else d.veil g place) = (if out.underrun then d.raise .underrun else d).veil g place := by
    split
    · exact d.veil_raise g place .underrun
    · rfl
  have hfinish (d : Chip G) : (if out.finished then (d.veil g place).finishTransmission
      else d.veil g place) = (if out.finished then d.finishTransmission else d).veil g place := by
    split
    · exact d.veil_finishTransmission g place
    · rfl
  unfold afterOctet
  rw [← hfinish, ← hraise]
  cases out.consumed <;> cases out.acknowledged <;> simp [veil, hpop]

variable {place}

theorem veil_transmit
    (h : ∀ q ∈ place, ∀ f, c.transmitter = some f → f.SendsOwn c.owed) :
    (c.veil g place).transmit = (c.transmit.1, c.transmit.2.veil g place) := by
  have ht : (c.veil g place).transmitter = c.transmitter := rfl
  unfold transmit
  rw [ht]
  cases hf : c.transmitter with
  | none => rfl
  | some f =>
    have hstep : f.step (c.veil g place).transmitInput = f.step c.transmitInput := by
      cases place with
      | none => rfl
      | some q =>
        have hown : f.SendsOwn c.transmitInput.owed := h q rfl f hf
        exact hown.step_congr (c.veil g (some q)).transmitInput.next
    simp only [hstep]
    rw [← veil_afterOctet]
    rfl

/-! ### What the chip hears -/

theorem veil_turnAround : (c.veil g place).turnAround = c.turnAround.veil g place := by
  unfold turnAround
  by_cases ho : c.owed.isSome ∧ c.lastValid = true
  · rw [if_pos ho, ← veil_beginTransmission, ← veil_endReception]
    exact if_pos ho
  · rw [if_neg ho]
    exact if_neg ho

theorem veil_storeOctet (h : ∀ q ∈ place, q < c.buffer.octets.length) (b : UInt8) :
    (c.veil g place).storeOctet b = ((c.storeOctet b).1, (c.storeOctet b).2.veil g place) := by
  have hpush : (c.veil g place).buffer.push b = _ := c.buffer.veil_push h b
  unfold storeOctet
  rw [hpush]
  cases c.buffer.push b with
  | mk r buffer => cases r <;> rfl

/-- The length of a frame is not behind the veil. -/
theorem veil_startFrame (h : ∀ q ∈ place, 1 ≤ q) (l : UInt8) :
    (c.veil g place).startFrame l = ((c.startFrame l).1, (c.startFrame l).2.veil g place) := by
  let opened : Chip G := { c with
    buffer := .forReception
    registers := c.registers.set .tstRxLength l }
  have hroom : opened.buffer.octets.length < FrameBuffer.capacity := Nat.zero_lt_succ _
  have hveil : (FrameBuffer.veil ⟨[l], 0, true⟩ place) = ⟨[l], 0, true⟩ := by
    cases place with
    | none => rfl
    | some q => exact FrameBuffer.veil_of_length_le _ (h q rfl)
  have hstart : c.startFrame l = (true, { opened with buffer := ⟨[l], 0, true⟩ }) :=
    storeOctet_of_room hroom
  have hstart' : (c.veil g place).startFrame l =
      (true, { opened.veil g none with buffer := ⟨[l], 0, true⟩ }) := storeOctet_of_room hroom
  rw [hstart, hstart']
  simp only [veil, hveil]

theorem veil_noteSequence (sequence : Option UInt8) :
    (c.veil g place).noteSequence sequence = (c.noteSequence sequence).veil g place := by
  cases sequence <;> rfl

theorem veil_filter (offset : Nat) :
    (c.veil g none).filter offset = ((c.filter offset).1, (c.filter offset).2.veil g none) := by
  have hstate : (c.veil g none).state = c.state := rfl
  have hregisters : (c.veil g none).registers = c.registers := rfl
  have hbuffer : (c.veil g none).buffer = c.buffer := rfl
  have haddress : (c.veil g none).localAddress = c.localAddress := rfl
  simp only [filter, hstate, hregisters, hbuffer, haddress, veil_noteSequence]
  generalize FrameFilter.check c.buffer.octets offset c.localAddress = verdict
  split
  · rfl
  · split
    · split
      · rw [veil_raise]
      · rfl
    · rfl

/-- An effect to which a chip that was veiled has nothing to add. Octets are stored and looked at
only while nothing is veiled, and a frame that was checked brings noise of its own. -/
def Spares (place : Option Nat) : ReceiveEffect → Prop
  | .push _ | .filterCheck _ => place = none
  | .frameStart _ => ∀ q ∈ place, 1 ≤ q
  | .frameComplete v => v = none
  | _ => True

variable [RandomWords G]

theorem veil_apply {x : ReceiveEffect} (hx : Spares place x) :
    (c.veil g place).apply x = ((c.apply x).1, (c.apply x).2.veil g place) := by
  cases x with
  | raise e => exact congrArg (Prod.mk true) (c.veil_raise g place e)
  | frameStart l => exact c.veil_startFrame g hx l
  | push b =>
    obtain rfl : place = none := hx
    exact c.veil_storeOctet g (fun q hq => by cases hq) b
  | filterCheck offset =>
    obtain rfl : place = none := hx
    exact c.veil_filter g offset
  | frameComplete v =>
    obtain rfl : v = none := hx
    exact congrArg (Prod.mk true)
      (veil_raise { c with bitErrors := .empty, lastValid := false } g place .rxEnd)
  | endOfFrame carrier => exact congrArg (Prod.mk true) (c.veil_turnAround g)
  | discarded => rfl

theorem veil_carryOut {effects : List ReceiveEffect} (h : ∀ x ∈ effects, Spares place x) :
    (c.veil g place).carryOut effects = (c.carryOut effects).veil g place := by
  induction effects generalizing c with
  | nil => rfl
  | cons x r ih =>
    simp only [carryOut, c.veil_apply g (h x List.mem_cons_self)]
    cases c.apply x with
    | mk goesOn d =>
      cases goesOn with
      | true => exact ih d fun y hy => h y (List.mem_cons_of_mem x hy)
      | false => rfl

/-- What becomes of an octet heard is the same, unless it completes a frame that is checked. -/
theorem veil_hear {carrier : Bool} {b : UInt8}
    (h : ∀ f, c.receiver = some f →
      ∀ x ∈ (f.step ⟨b, carrier, c.registers.autoFcs⟩).2.effects, Spares place x) :
    (c.veil g place).hear carrier b = (c.hear carrier b).veil g place := by
  cases hf : c.receiver with
  | none =>
    have hv : (c.veil g place).receiver = none := hf
    simp only [hear, hf, hv]
  | some f =>
    have hv : (c.veil g place).receiver = some f := hf
    let r := f.step ⟨b, carrier, c.registers.autoFcs⟩
    rw [hear_of_some hf, hear_of_some hv]
    exact veil_carryOut { c with receiver := some r.1 } g (h f hf)

/-! ### The link quality -/

omit [RandomWords G] in
/-- The acknowledgement is decided from the frame control in front of the link quality. -/
theorem acknowledgement?_veil {q : Nat} (hq : 2 ≤ q) :
    (c.veil g (some q)).acknowledgement? = c.acknowledgement? := by
  have hlow : (FrameControl.ofFrame (c.veil g (some q)).buffer.octets).low =
      (FrameControl.ofFrame c.buffer.octets).low :=
    c.buffer.getD_veil_of_ne (by omega) 0
  have hrequest : (FrameControl.ofFrame (c.veil g (some q)).buffer.octets).ackRequest =
      (FrameControl.ofFrame c.buffer.octets).ackRequest := congrArg (· &&& 0x20 != 0) hlow
  have htype : (FrameControl.ofFrame (c.veil g (some q)).buffer.octets).frameType =
      (FrameControl.ofFrame c.buffer.octets).frameType := congrArg FrameType.ofBits hlow
  simp only [acknowledgement?, hrequest, htype]
  rfl

/-- Behind the veil the link quality is the verdict. -/
theorem veil_storeLinkQuality (valid : Bool) :
    ((c.veil g none).storeLinkQuality valid).veil g (some (c.buffer.octets.length - 1)) =
      (c.storeLinkQuality valid).veil g (some (c.buffer.octets.length - 1)) := by
  have hverdict (a b : UInt8) : (a &&& 0x7F ||| if valid then 0x80 else 0) &&& 0x80 =
      (b &&& 0x7F ||| if valid then 0x80 else 0) &&& 0x80 := by
    rw [FrameBuffer.and_or_verdict, FrameBuffer.and_or_verdict]
  have hbuffer := c.buffer.veil_poke_self (q := c.buffer.octets.length - 1) (hverdict
    (drawCorrelation (c.veil g none).bitErrors.take.1 g).1
    (drawCorrelation c.bitErrors.take.1 c.generator).1)
  simp only [veil, storeLinkQuality, FrameBuffer.veil_none]
  exact congrArg (fun buffer => { c with generator := g, bitErrors := .empty, buffer }) hbuffer

/-- Behind the veil a frame that was checked is complete with its verdict, and calls for the same
acknowledgement. -/
theorem veil_completeChecked (valid : Bool) (h : 3 ≤ c.buffer.octets.length) :
    ((c.veil g none).completeChecked valid).veil g (some (c.buffer.octets.length - 1)) =
      (c.completeChecked valid).veil g (some (c.buffer.octets.length - 1)) := by
  have hq : 2 ≤ c.buffer.octets.length - 1 := by omega
  have hstored := c.veil_storeLinkQuality g valid
  generalize c.buffer.octets.length - 1 = q at hq hstored
  have hcomplete (d : Chip G) : (d.completeChecked valid).veil g (some q) =
      let e := ((d.storeLinkQuality valid).veil g (some q)).raise .rxEnd
      { e with
        lastValid := valid
        owed := if valid then e.acknowledgement?.or d.owed else none } := by
    rw [completeChecked_eq, veil_raise]
    simp only [acknowledgement?_veil _ g hq]
    rfl
  rw [hcomplete, hcomplete, hstored]
  rfl

end Chip

end Transceiver
